import SqlSignature.Proofs.JoinInvariant
import SqlSignature.Proofs.NullRejection
import SqlSignature.Proofs.WalkFrame
/-!
# SqlSignature.Proofs.JoinNullability

Columns that a scope takes to be not null are not null in any row that the query keeps
(`columnNotNull_sound`). One step of the walk over a clause joins the innermost scope with the
source of the joined table and keeps the conditions that still hold (`Analysis.walkJoins_cons`). The
rest is the invariant of the rows, along the joins of an item (`Analysis.walkJoins_fits`) and along
the items of the clause (`Analysis.walkTables_fits`).
-/

open List

namespace SqlSignature

/-! ### What the walk does to the innermost scope -/

namespace Analysis

variable {input : AnalysisInput} {s s' : AnalysisState}

/-- The columns of a source are those of the table, but for their variables. -/
theorem addColumns_map {α : Type} {f : SourceColumn → α} {g : Column → α}
    (hfg : ∀ (c : Column) var, f ⟨c.name, var, c.notNull, c.key⟩ = g c) :
    ∀ {columns : List Column} {added : List SourceColumn} {s s' : AnalysisState},
      addColumns columns s = .ok added s' → added.map f = columns.map g
  | [], _, _, _, h => by
    cases h
    rfl
  | column :: _, _, _, _, h => by
    obtain ⟨var, _, -, h⟩ := bind_eq_ok.mp h
    obtain ⟨_, _, -, h⟩ := bind_eq_ok.mp h
    obtain ⟨others, _, hothers, h⟩ := bind_eq_ok.mp h
    cases h
    rw [map_cons, map_cons, addColumns_map hfg hothers]
    exact congrArg (· :: _) (hfg column var)

/-- A base table that the walk finds is in the catalog, and its source stands for it. -/
theorem walkFactor_baseTable {table : BaseTable} {source : Source}
    (h : walkFactor input table.toFactor s = .ok source s') :
    s'.inner = s.inner ∧ s'.scopes.size = s.scopes.size ∧
      ∃ found, input.catalog.table? table.schema table.name = some found ∧
        source.StandsFor found := by
  have hkept : Kept s s' := after_of_ok h ▸ follows_walkFactor input table.toFactor s
  refine ⟨inner_eq_of_kept hkept, by rw [hkept.scopes], ?_⟩
  replace h : tableSource input table.schema table.name table.label s = .ok source s' := h
  unfold tableSource at h
  cases hfound : input.catalog.table? table.schema table.name with
  | none =>
    rw [hfound] at h
    contradiction
  | some found =>
    rw [hfound] at h
    obtain ⟨columns, t, hcolumns, h⟩ := bind_eq_ok.mp h
    cases h
    exact ⟨found, rfl, addColumns_map (fun _ _ => rfl) hcolumns⟩

end Analysis

/-- The conditions that are kept at a join, after a number of older ones. -/
theorem BaseJoin.addJoin_predicates (j : BaseJoin) {shape : TablesShape} {older own : List Expr}
    (h : shape.predicates = older ++ own) (text : String) (joined : Nat) :
    let shape := shape.addJoin j.kind older.length text
    (match j.condition with
      | some e => shape.addCondition j.kind joined e
      | none => shape).predicates = older ++ j.keptPredicates own := by
  unfold BaseJoin.keptPredicates
  cases j.condition <;> cases j.kind <;>
    simp [TablesShape.addJoin, TablesShape.addCondition, TablesShape.addFragment,
      JoinKind.padsEarlier, JoinKind.isOuter, h]

namespace Analysis

variable {input : AnalysisInput} {s s' : AnalysisState} {first : Nat} {shape shape' : TablesShape}
  {older own : List Expr}

/-- The walk over one join: the table is there, the innermost scope is joined with its source, and
the conditions are kept as they should be. -/
theorem walkJoins_cons {j : BaseJoin} {rest : List Join} (hs : 0 < s.scopes.size)
    (hshape : shape.predicates = older ++ own)
    (h : walkJoins input first older.length shape (j.toJoin :: rest) s = .ok shape' s') :
    ∃ found source shape₁ s₁, input.catalog.table? j.table.schema j.table.name = some found ∧
      source.StandsFor found ∧ s₁.inner = s.inner.join j.kind first source ∧
      0 < s₁.scopes.size ∧ shape₁.predicates = older ++ j.keptPredicates own ∧
      walkJoins input first older.length shape₁ rest s₁ = .ok shape' s' := by
  obtain ⟨source, t, hfactor, h⟩ := bind_eq_ok.mp h
  obtain ⟨hinner, hsize, found, hfound, hsource⟩ := walkFactor_baseTable hfactor
  rw [← hsize] at hs
  obtain ⟨joined, u, hpush, h⟩ := bind_eq_ok.mp h
  obtain ⟨rfl, hpushed, hs⟩ := pushSource_inner hs hpush
  obtain ⟨_, w, hpad, h⟩ := bind_eq_ok.mp h
  obtain ⟨hpadded, hs⟩ := modifyScope_inner hs hpad
  obtain ⟨shape₁, s₁, hconstraint, h⟩ := bind_eq_ok.mp h
  have hw : w.inner = s.inner.join j.kind first source := by
    rw [hpadded, hpushed, hinner, Scope.join]
  -- The condition is walked in the joined scope and leaves it as it is.
  have hconstrained : s₁.inner = w.inner ∧ s₁.scopes.size = w.scopes.size ∧
      shape₁.predicates = older ++ j.keptPredicates own := by
    have hpredicates := j.addJoin_predicates hshape (j.span.text input.text) t.inner.sources.length
    unfold BaseJoin.constraint at hconstraint
    cases hcondition : j.condition with
    | none =>
      rw [hcondition] at hconstraint hpredicates
      cases hconstraint
      exact ⟨rfl, rfl, hpredicates⟩
    | some e =>
      rw [hcondition] at hconstraint hpredicates
      obtain ⟨_, u', hwalk, hconstraint⟩ := bind_eq_ok.mp hconstraint
      cases hconstraint
      have hkept : Kept w s₁ := after_of_ok hwalk ▸ follows_walk input e w
      exact ⟨inner_eq_of_kept hkept, by rw [hkept.scopes], hpredicates⟩
  exact ⟨found, source, shape₁, s₁, hfound, hsource, hconstrained.1.trans hw,
    hconstrained.2.1 ▸ hs, hconstrained.2.2, h⟩

/-! ### Runs -/

variable {V : Type} {db : Database V} {holds : Expr → Row V → Bool}

/-- What the walk over an item, or over the rest of it, leaves of the scope it started with. -/
structure AddsTables (first count : Nat) (s s' : AnalysisState) : Prop where
  before : ∀ i < first, s'.inner.sources[i]? = s.inner.sources[i]?
  length : s'.inner.sources.length = s.inner.sources.length + count
  proven : s'.inner.proven = s.inner.proven
  nonempty : 0 < s'.scopes.size

theorem AddsTables.trans {first m n : Nat} {s t u : AnalysisState} (h₁ : AddsTables first m s t)
    (h₂ : AddsTables first n t u) : AddsTables first (m + n) s u where
  before i hi := (h₂.before i hi).trans (h₁.before i hi)
  length := by rw [h₂.length, h₁.length, Nat.add_assoc]
  proven := h₂.proven.trans h₁.proven
  nonempty := h₂.nonempty

/-- The walk over joins in a row ends with conditions of theirs that hold in all their rows. -/
theorem walkJoins_fits (hdb : db.Respects input.catalog) :
    ∀ (joins : List BaseJoin) {s : AnalysisState} {shape : TablesShape} {own : List Expr}
      {rows : List (Row V)}, 0 < s.scopes.size → first ≤ s.inner.sources.length →
      shape.predicates = older ++ own → AllFit holds s.inner.sources first own rows →
      JoinsRead holds first s.inner.sources.length joins →
      walkJoins input first older.length shape (joins.map BaseJoin.toJoin) s = .ok shape' s' →
      AddsTables first joins.length s s' ∧ ∃ own', shape'.predicates = older ++ own' ∧
        own' ⊆ own ++ joins.flatMap (fun j => j.condition.toList) ∧
        AllFit holds s'.inner.sources first own'
          (chainRows input.catalog db holds s.inner.sources.length rows joins)
  | [], s, shape, own, rows, hs, _, hshape, hfit, _, h => by
    cases h
    exact ⟨⟨fun _ _ => rfl, rfl, rfl, hs⟩, own, hshape, by simp, hfit⟩
  | j :: rest, s, shape, own, rows, hs, hf, hshape, hfit, hreads, h => by
    obtain ⟨found, source, shape₁, s₁, hfound, hsource, hinner, hs₁, hshape₁, h⟩ :=
      walkJoins_cons hs hshape h
    have hlength : s₁.inner.sources.length = s.inner.sources.length + 1 := by
      rw [hinner, Scope.join_length]
    have hfit₁ := hfit.join j (BaseTable.rows_present hdb hfound hsource) hreads.1
    rw [← hinner] at hfit₁
    have hstep : AddsTables first 1 s s₁ :=
      ⟨fun i hi => by rw [hinner, Scope.join_before hf hi], hlength, by rw [hinner]; rfl, hs₁⟩
    have hreads₁ := hreads.2
    rw [← hlength] at hreads₁
    obtain ⟨hadds, own', hown', hsubset, hfit'⟩ :=
      walkJoins_fits hdb rest hs₁ (by omega) hshape₁ hfit₁ hreads₁ h
    rw [hlength] at hfit'
    refine ⟨?_, own', hown', fun p hp => ?_, hfit'⟩
    · rw [length_cons, Nat.add_comm]
      exact hstep.trans hadds
    · rw [flatMap_cons, ← append_assoc]
      refine mem_append.mpr ((mem_append.mp (hsubset hp)).imp_left fun hkept => ?_)
      exact j.keptPredicates_subset own hkept

end Analysis

namespace Analysis

variable {input : AnalysisInput} {s' : AnalysisState} {shape' : TablesShape} {V : Type}
  {db : Database V} {holds : Expr → Row V → Bool}

/-- The walk over the items of a clause ends with conditions of its joins that hold in all its
rows. -/
theorem walkTables_fits (hdb : db.Respects input.catalog) :
    ∀ (items : List BaseItem) {s : AnalysisState} {shape : TablesShape} {rows : List (Row V)},
      0 < s.scopes.size → AllFit holds s.inner.sources 0 shape.predicates rows →
      ItemsRead holds s.inner.sources.length items →
      walkTables input shape (items.map BaseItem.toTableRef) s = .ok shape' s' →
      s'.inner.proven = s.inner.proven ∧ 0 < s'.scopes.size ∧
        shape'.predicates ⊆ shape.predicates ++ items.flatMap BaseItem.conditions ∧
        AllFit holds s'.inner.sources 0 shape'.predicates
          (clauseRows input.catalog db holds s.inner.sources.length rows items)
  | [], s, shape, rows, hs, hfit, _, h => by
    cases h
    exact ⟨rfl, hs, by simp, hfit⟩
  | item :: rest, s, shape, rows, hs, hfit, hreads, h => by
    obtain ⟨source, t, hfactor, h⟩ := bind_eq_ok.mp h
    obtain ⟨hinner, hsize, found, hfound, hsource⟩ := walkFactor_baseTable hfactor
    rw [← hsize] at hs
    obtain ⟨first, u, hpush, h⟩ := bind_eq_ok.mp h
    obtain ⟨rfl, hpushed, hu⟩ := pushSource_inner hs hpush
    obtain ⟨shape₁, s₁, hjoins, h⟩ := bind_eq_ok.mp h
    rw [hinner] at hpushed hjoins
    have hlength : u.inner.sources.length = s.inner.sources.length + 1 := by
      rw [hpushed, length_append, length_singleton]
    have hreads₁ := hreads.1
    rw [← hlength] at hreads₁
    have hstart : AllFit holds u.inner.sources s.inner.sources.length []
        ((item.table.rows input.catalog db).map (Row.padded.put s.inner.sources.length)) := by
      rw [hpushed]
      exact AllFit.first (BaseTable.rows_present hdb hfound hsource)
    -- The conditions of an item start anew; those of the items before it are not touched.
    obtain ⟨hadds, own, hown, hsubset, hfit₁⟩ := walkJoins_fits hdb item.joins hu (by omega)
      (append_nil _).symm hstart hreads₁ hjoins
    rw [hlength] at hfit₁
    have hbefore : ∀ i < s.inner.sources.length, s₁.inner.sources[i]? = s.inner.sources[i]? := by
      intro i hi
      rw [hadds.before i hi, hpushed, getElem?_append_left hi]
    have hwidth : s₁.inner.sources.length = s.inner.sources.length + item.width := by
      rw [hadds.length, hlength, BaseItem.width, Nat.add_assoc]
    have hfit' := hfit.beside hfit₁ hbefore (by omega)
    have hreads' := hreads.2
    rw [← hwidth] at hreads'
    have hpredicates : shape₁.predicates = shape.predicates ++ own := hown
    rw [← hpredicates] at hfit'
    obtain ⟨hproven, hs', hkept, hrest⟩ := walkTables_fits hdb rest hadds.nonempty hfit' hreads' h
    refine ⟨?_, hs', fun p hp => ?_, ?_⟩
    · rw [hproven, hadds.proven, hpushed]
    · rw [flatMap_cons, ← append_assoc]
      refine mem_append.mpr ((mem_append.mp (hkept hp)).imp_left fun hearlier => ?_)
      rw [hpredicates] at hearlier
      exact mem_append.mpr ((mem_append.mp hearlier).imp_right (hsubset ·))
    · rw [hwidth] at hrest
      exact hrest

end Analysis

/-! ### Specifications -/

theorem AnalysisState.mem_provenColumns {s : AnalysisState} {predicates : List Expr}
    {source column : Nat} : (source, column) ∈ s.provenColumns predicates ↔
      ∃ p ∈ predicates, ∃ e ∈ p.nullRejected, ∃ bound, s.localColumn? e = some bound ∧
        bound.source = source ∧ bound.column = column := by
  simp only [AnalysisState.provenColumns, mem_filterMap, mem_flatMap,
    Option.map_eq_some_iff, Prod.mk.injEq]
  constructor
  · rintro ⟨e, ⟨p, hp, he⟩, bound, hbound, heq⟩
    exact ⟨p, hp, e, he, bound, hbound, heq⟩
  · rintro ⟨p, hp, e, he, bound, hbound, heq⟩
    exact ⟨e, ⟨p, hp, he⟩, bound, hbound, heq⟩

/-- A column that a scope takes to be not null is declared so in a table that is not padded, or
proven. -/
theorem Scope.columnNotNull_cases {scope : Scope} {source column : Nat}
    (h : scope.columnNotNull source column = true) :
    (∃ table c, scope.sources[source]? = some table ∧ table.outerNullable = false ∧
        table.columns[column]? = some c ∧ c.notNull = true) ∨ (source, column) ∈ scope.proven := by
  unfold Scope.columnNotNull at h
  split at h
  next table htable =>
    simp only [Bool.or_eq_true, Bool.and_eq_true, Option.any_eq_true, Bool.not_eq_true',
      contains_iff_mem] at h
    rcases h with ⟨⟨c, hc, hn⟩, hpadded⟩ | hproven
    · exact Or.inl ⟨table, c, htable, hpadded, hc, hn⟩
    · exact Or.inr hproven
  next => contradiction

/-- The conditions of a clause of base tables and its filter. -/
def clausePredicates (items : List BaseItem) (filter : Option Expr) : List Expr :=
  items.flatMap BaseItem.conditions ++ filter.toList

/-- Predicates reject nulls: in a row in which one is true, the columns that it is taken to reject
nulls of have values. The names stand for what an analysis has found. -/
def RejectsNulls {V : Type} (s : AnalysisState) (holds : Expr → Row V → Bool)
    (predicates : List Expr) : Prop :=
  ∀ p ∈ predicates, ∀ r, holds p r = true → ∀ e ∈ p.nullRejected, ∀ bound,
    s.localColumn? e = some bound → r bound.source bound.column ≠ none

section

variable {V : Type} (I : Interpretation V) (values : Row V → Valuation V)

/-- Whether a predicate is true of the values of a row. -/
def trueOf (e : Expr) (r : Row V) : Bool := I.truthOf (e.eval I (values r)) == some true

/-- Evaluation rejects nulls, if names have the values that an analysis has found and all columns
are warranted. -/
theorem rejectsNulls_trueOf {s : AnalysisState} {predicates : List Expr}
    (hvalues : ∀ p ∈ predicates, ∀ e ∈ p.nullRejected, ∀ bound, s.localColumn? e = some bound →
      ∀ r, e.eval I (values r) = r bound.source bound.column)
    (hwarranted : ∀ p ∈ predicates, ∀ k ∈ p.conjuncts, k.unwarranted I = []) :
    RejectsNulls s (trueOf I values) predicates := by
  intro p hp r htrue e he bound hbound
  obtain ⟨k, hk, hek⟩ := mem_flatMap.mp he
  have hholds : p.Holds I (values r) := eq_of_beq htrue
  rw [← hvalues p hp e he bound hbound r]
  refine ((hholds.conjunct hk).rejected hek).resolve_left fun hunwarranted => ?_
  rw [hwarranted p hp k hk] at hunwarranted
  cases hunwarranted

end

/-! ### A left join whose filter undoes the padding -/

/-- Two tables with a column each, which is declared not to be null. -/
def pairCatalog : Catalog where
  tables :=
    [⟨"", "a", [⟨"", "a", "x", .int, true, .none, none⟩]⟩,
      ⟨"", "b", [⟨"", "b", "y", .int, true, .none, none⟩]⟩]
  foreignKeys := []

/-- The first table has the values 1 and 2, and the second the value 1. -/
def pairRows : Database Int where
  rows table := if table.name = "a" then [fun _ => some 1, fun _ => some 2] else [fun _ => some 1]

/-- A column without a table. -/
def columnAt (id : Nat) (name : String) : Expr :=
  .node id ⟨id, id + 1⟩ (.column ⟨none, none, name⟩)

/-- An equality of the column `y` and another term. -/
def equalsY (id : Nat) (other : Expr) : Expr :=
  .node (id + 2) ⟨id, id + 3⟩ (.binary .eq (columnAt id "y") other)

/-- `a LEFT JOIN b ON y = x`. -/
def leftJoinItem : BaseItem where
  table := ⟨none, "a", none, ⟨5, 6⟩⟩
  joins := [⟨.left, ⟨none, "b", none, ⟨17, 18⟩⟩, some (equalsY 0 (columnAt 1 "x")), ⟨7, 25⟩⟩]
  span := ⟨5, 25⟩

/-- `y = 1`. -/
def leftJoinFilter : Expr := equalsY 3 (.node 4 ⟨5, 6⟩ (.literal (.int 1)))

/-- The walk over `FROM a LEFT JOIN b ON y = x WHERE y = 1`. -/
def leftJoinRun : EStateM.Result AnalysisError AnalysisState TablesShape :=
  let input : AnalysisInput := ⟨"FROM a LEFT JOIN b ON y=x WHERE y=1", pairCatalog, {}, none, []⟩
  Analysis.walkSources input ([leftJoinItem].map BaseItem.toTableRef) (some leftJoinFilter)
    { AnalysisState.initial input 0 with scopes := #[{}] }

/-- The columns `x` of the first table and `y` of the second. -/
def pairValues (r : Row Int) : Valuation Int where
  column ref := if ref.name = "x" then r 0 0 else r 1 0
  placeholder _ := none

/-- What the walk finds: the columns that the names stand for, and that neither is null. -/
structure LeftJoinFacts (s : AnalysisState) : Prop where
  bound : ∀ p ∈ clausePredicates [leftJoinItem] (some leftJoinFilter), ∀ e ∈ p.nullRejected,
    ∀ found, s.localColumn? e = some found → ∀ r,
      e.eval wholeNumbers (pairValues r) = r found.source found.column
  notNullX : s.inner.columnNotNull 0 0 = true
  notNullY : s.inner.columnNotNull 1 0 = true

theorem leftJoinRun_facts : ∃ joined s, leftJoinRun = .ok joined s ∧ LeftJoinFacts s := by
  have hfacts : (match leftJoinRun with
    | .ok _ s => decide (
        [columnAt 0 "y", columnAt 1 "x", columnAt 3 "y"].map (fun e =>
            (s.localColumn? e).map fun found => (found.source, found.column)) =
          [some (1, 0), some (0, 0), some (1, 0)] ∧
        s.inner.columnNotNull 0 0 = true ∧ s.inner.columnNotNull 1 0 = true)
    | .error _ _ => false) = true := by
    decide +kernel
  cases hrun : leftJoinRun with
  | ok joined s =>
    rw [hrun] at hfacts
    obtain ⟨hbound, hnotNull⟩ := of_decide_eq_true hfacts
    simp only [map_cons, map_nil, cons.injEq, and_true] at hbound
    obtain ⟨hfirst, hsecond, hthird⟩ := hbound
    refine ⟨joined, s, rfl, fun p hp e he found hfound r => ?_, hnotNull.1, hnotNull.2⟩
    have hplace : ∀ {place : Nat × Nat},
        (s.localColumn? e).map (fun found => (found.source, found.column)) = some place →
          r place.1 place.2 = r found.source found.column := by
      intro place hplace
      rw [hfound] at hplace
      cases hplace
      rfl
    have hmem : e ∈ [columnAt 0 "y", columnAt 1 "x", columnAt 3 "y"] :=
      mem_flatMap.mpr ⟨p, hp, he⟩
    simp only [mem_cons, not_mem_nil, or_false] at hmem
    rcases hmem with rfl | rfl | rfl
    · exact hplace hfirst
    · exact hplace hsecond
    · exact hplace hthird
  | error e s =>
    rw [hrun] at hfacts
    contradiction

/-- The condition of the join reads the two tables only. -/
theorem itemsRead_leftJoin : ItemsRead (trueOf wholeNumbers pairValues) 0 [leftJoinItem] := by
  refine ⟨⟨fun e _ r r' hrows => ?_, trivial⟩, trivial⟩
  have hsame : pairValues r = pairValues r' := by
    simp only [pairValues, hrows 0 (by omega) (by omega), hrows 1 (by omega) (by omega)]
  rw [trueOf, trueOf, hsame]

theorem respects_pairRows : pairRows.Respects pairCatalog := by
  intro table _ t ht
  have ht : t = (fun _ => some 1) ∨ t = fun _ => some 2 := by
    dsimp only [pairRows] at ht
    split at ht <;> simp_all
  rcases ht with rfl | rfl <;> simp

/-! ### Soundness -/

/-- After the tables and the filter of a specification, a column that the scope takes to be not null
has a value in every row of the tables that the filter keeps, if the conditions of the joins and the
filter reject nulls. -/
theorem columnNotNull_sound {V : Type} {input : AnalysisInput} {db : Database V}
    {holds : Expr → Row V → Bool} {items : List BaseItem} {filter : Option Expr}
    {s s' : AnalysisState} {joined : TablesShape} (hdb : db.Respects input.catalog)
    (hreads : ItemsRead holds 0 items)
    (hrun : Analysis.walkSources input (items.map BaseItem.toTableRef) filter
      { s with scopes := s.scopes.push {} } = .ok joined s')
    (hholds : RejectsNulls s' holds (clausePredicates items filter)) :
    ∀ r ∈ clauseRows input.catalog db holds 0 [Row.padded] items, filter.all (holds · r) = true →
      ∀ source column, s'.inner.columnNotNull source column = true → r source column ≠ none := by
  intro r hr hfilter source column hnotNull
  obtain ⟨_, s₁, hnote, hrun⟩ := bind_eq_ok.mp hrun
  obtain ⟨joined, s₂, htables, hrun⟩ := bind_eq_ok.mp hrun
  obtain ⟨_, s₃, hwalk, hrun⟩ := bind_eq_ok.mp hrun
  obtain ⟨_, s₄, hproven, hrun⟩ := bind_eq_ok.mp hrun
  cases hrun
  obtain ⟨hsources₁, hproven₁, hs₁⟩ := Analysis.noteClause_inner (by simp) hnote
  have hstart : AllFit holds s₁.inner.sources 0 ({} : TablesShape).predicates [Row.padded] := by
    have hnone : s₁.inner.sources = [] := by rw [hsources₁]; simp [AnalysisState.inner]
    rw [hnone]
    exact ⟨fun r _ => ⟨fun i source c column _ hs => by simp at hs, by simp⟩, by simp⟩
  have hlength : s₁.inner.sources.length = 0 := by rw [hsources₁]; simp [AnalysisState.inner]
  rw [← hlength] at hreads hr
  obtain ⟨hproven₂, hs₂, hsubset, hfit⟩ :=
    Analysis.walkTables_fits hdb items hs₁ hstart hreads htables
  have hkept : Analysis.Kept s₂ s₃ :=
    Analysis.after_of_ok hwalk ▸ Analysis.follows_walkOption input filter s₂
  rw [← hkept.scopes] at hs₂
  obtain ⟨hsources, hnoted, hnames⟩ := Analysis.noteProven_inner hs₂ hproven
  rw [Analysis.inner_eq_of_kept hkept] at hsources hnoted
  have hfits := hfit.fits r hr
  rcases Scope.columnNotNull_cases hnotNull with ⟨table, c, htable, hpadded, hc, hn⟩ | hmem
  · rw [hsources] at htable
    exact hfits.present source table column c (Nat.zero_le _) htable hpadded hc hn
  · have hnone : s₂.inner.proven = [] := by
      rw [hproven₂, hproven₁]
      simp [AnalysisState.inner]
    rw [hnoted, hnone, List.nil_append] at hmem
    obtain ⟨p, hp, e, he, bound, hbound, rfl, rfl⟩ := AnalysisState.mem_provenColumns.mp hmem
    rw [← hnames] at hbound
    rcases List.mem_append.mp hp with hp | hp
    · exact hholds p (mem_append_left _ (hsubset hp)) r (hfits.predicates p hp) e he bound hbound
    · refine hholds p (mem_append_right _ hp) r ?_ e he bound hbound
      rw [Option.mem_toList.mp hp] at hfilter
      exact hfilter

/-- In `FROM a LEFT JOIN b ON y = x WHERE y = 1` neither column is null, though the join pads the
second table. -/
theorem columnNotNull_sound_leftJoin : ∃ joined s, leftJoinRun = .ok joined s ∧
    (s.inner.columnNotNull 0 0 = true ∧ s.inner.columnNotNull 1 0 = true) ∧
      ∀ r ∈ clauseRows pairCatalog pairRows (trueOf wholeNumbers pairValues) 0 [Row.padded]
        [leftJoinItem],
        trueOf wholeNumbers pairValues leftJoinFilter r = true → r 0 0 ≠ none ∧ r 1 0 ≠ none := by
  obtain ⟨joined, s, hrun, hfacts⟩ := leftJoinRun_facts
  have hwarranted : ∀ p ∈ clausePredicates [leftJoinItem] (some leftJoinFilter),
      ∀ k ∈ p.conjuncts, k.unwarranted wholeNumbers = [] := by
    decide
  have hsound := columnNotNull_sound respects_pairRows itemsRead_leftJoin hrun
    (rejectsNulls_trueOf wholeNumbers pairValues hfacts.bound hwarranted)
  refine ⟨joined, s, hrun, ⟨hfacts.notNullX, hfacts.notNullY⟩, fun r hr hfilter => ⟨?_, ?_⟩⟩
  · exact hsound r hr hfilter 0 0 hfacts.notNullX
  · exact hsound r hr hfilter 1 0 hfacts.notNullY

end SqlSignature

import SqlSignature.Analysis.Scope
/-!
# SqlSignature.Proofs.NameLookup

What names stand for in scopes. A column name is found in one of the scopes, as an alias or as a
column of a table (`Scopes.Finds`), so it stands for something that a scope offers
(`Scopes.offers_resolve`). A wildcard stands for columns of the innermost scope (`Scopes.Expands`).
-/

open List

namespace SqlSignature

/-! ### Names -/

/-- The place where a test is passed for the first time, and what stands there. -/
theorem firstMatch_eq_some_iff {α : Type} {test : α → Bool} {xs : List α} {i : Nat} {x : α} :
    ((xs.findIdx? test).bind fun k => xs[k]?.bind fun y => some (k, y)) = some (i, x) ↔
      xs[i]? = some x ∧ test x = true ∧ ∀ k y, k < i → xs[k]? = some y → test y = false := by
  simp only [Option.bind_eq_some_iff, findIdx?_eq_some_iff_getElem, Option.some.injEq,
    Prod.mk.injEq]
  constructor
  · rintro ⟨k, ⟨hk, htest, hfirst⟩, y, hy, rfl, rfl⟩
    obtain ⟨-, rfl⟩ := List.getElem?_eq_some_iff.1 hy
    grind
  · rintro ⟨hx, htest, hfirst⟩
    obtain ⟨hi, rfl⟩ := List.getElem?_eq_some_iff.1 hx
    refine ⟨i, ⟨hi, htest, fun k hk => ?_⟩, _, hx, rfl, rfl⟩
    rw [hfirst k _ hk (getElem?_eq_getElem (by omega))]
    nofun

theorem Source.column?_eq_some_iff {source : Source} {name : String} {i : Nat}
    {column : SourceColumn} : source.column? name = some (i, column) ↔
      source.columns[i]? = some column ∧ Text.sameName column.name name = true ∧
        ∀ (k : Nat) (earlier : SourceColumn), k < i → source.columns[k]? = some earlier →
          Text.sameName earlier.name name = false :=
  firstMatch_eq_some_iff

theorem Scope.source?_eq_some_iff {scope : Scope} {visible : String} {j : Nat} {source : Source} :
    scope.source? visible = some (j, source) ↔
      scope.sources[j]? = some source ∧ Text.sameName source.visible visible = true ∧
        ∀ (k : Nat) (earlier : Source), k < j → scope.sources[k]? = some earlier →
          Text.sameName earlier.visible visible = false :=
  firstMatch_eq_some_iff

namespace Scopes

variable {scope : Scope} {c : ColumnRef} {bound : BoundColumn}

theorem getElem?_of_mem_inwards {scopes : Scopes} {k : Nat} (h : (scope, k) ∈ scopes.inwards) :
    scopes[k]? = some scope := by
  rw [inwards, mem_reverse, mem_zipIdx_iff_getElem?] at h
  rwa [← Array.getElem?_toList]

/-- What a name can stand for: a column of a table in a scope, or an alias of a scope. -/
inductive Offers (scopes : Scopes) : Reference → Prop
  | column {k j i : Nat} {scope : Scope} {source : Source} {column : SourceColumn} :
      scopes[k]? = some scope → scope.sources[j]? = some source →
      source.columns[i]? = some column → Offers scopes (.column (.of k (j, source) (i, column)))
  | label {k : Nat} {scope : Scope} {found : SelectAlias} :
      scopes[k]? = some scope → found ∈ scope.aliases →
      Offers scopes (.label found.var found.notNull)

variable {scopes : Scopes} {r : Reference}

/-- What a name is found as in the scope at a place: an alias, or a column of a table, which is the
first one of its visible name if the name has a table. -/
inductive Finds (c : ColumnRef) (scope : Scope) (k : Nat) : Reference → Prop
  | column {source : Nat × Source} {column : Nat × SourceColumn}
      (first : ∀ table, c.table = some table →
        scope.source? table = some source ∧ schemaFits c.schema source.2.schema = true)
      (source_at : scope.sources[source.1]? = some source.2)
      (column_eq : source.2.column? c.name = some column) :
      Finds c scope k (.column (.of k source column))
  | label {found : SelectAlias} (mem : found ∈ scope.aliases) :
      Finds c scope k (.label found.var found.notNull)

theorem finds_of_resolveQualified {table : String} {c : ColumnRef} (htable : c.table = some table) :
    ∀ {places : List (Scope × Nat)}, resolveQualified table c places = .ok r →
      ∃ place ∈ places, Finds c place.1 place.2 r
  | [], h => by cases h
  | (scope, k) :: outer, h => by
    have houter : resolveQualified table c outer = .ok r →
        ∃ place ∈ (scope, k) :: outer, Finds c place.1 place.2 r := fun h =>
      have ⟨place, hplace, hfinds⟩ := finds_of_resolveQualified htable h
      ⟨place, mem_cons_of_mem _ hplace, hfinds⟩
    rw [resolveQualified] at h
    split at h
    next => exact houter h
    next source hsource =>
      split at h
      next hschema =>
        split at h
        next column hcolumn =>
          cases h
          refine ⟨_, mem_cons_self, .column (fun other hother => ?_)
            (Scope.source?_eq_some_iff.1 hsource).1 hcolumn⟩
          cases htable.symm.trans hother
          exact ⟨hsource, hschema⟩
        next => cases h
      next => exact houter h

theorem mem_columnsNamed {name : String} {source : Nat × Source} {column : Nat × SourceColumn}
    (h : (source, column) ∈ columnsNamed scope name) :
    scope.sources[source.1]? = some source.2 ∧ source.2.column? name = some column := by
  obtain ⟨⟨found, index⟩, hmem, h⟩ := mem_filterMap.1 h
  obtain ⟨place, hplace, h⟩ := Option.map_eq_some_iff.1 h
  cases h
  exact ⟨mem_zipIdx_iff_getElem?.1 hmem, hplace⟩

theorem finds_of_resolvePlain {c : ColumnRef} (htable : c.table = none) :
    ∀ {places : List (Scope × Nat)}, resolvePlain scopes c.name places = .ok r →
      ∃ place ∈ places, Finds c place.1 place.2 r
  | [], h => by cases h
  | (scope, k) :: outer, h => by
    rw [resolvePlain] at h
    split at h
    next =>
      split at h
      next found hfound =>
        cases h
        have halias : scope.alias? c.name = some found := by
          split at hfound
          · exact hfound
          · cases hfound
        exact ⟨_, mem_cons_self, .label (mem_of_find?_eq_some halias)⟩
      next =>
        obtain ⟨place, hplace, hfinds⟩ := finds_of_resolvePlain htable h
        exact ⟨place, mem_cons_of_mem _ hplace, hfinds⟩
    next source column others hnamed =>
      split at h
      next => cases h
      next =>
        cases h
        have hmem : (source, column) ∈ columnsNamed scope c.name := by
          rw [hnamed]
          exact mem_cons_self
        obtain ⟨hsource, hcolumn⟩ := mem_columnsNamed hmem
        refine ⟨_, mem_cons_self, .column (fun table hsome => ?_) hsource hcolumn⟩
        cases htable.symm.trans hsome

theorem finds_of_resolve (h : scopes.resolve c = .ok r) :
    ∃ scope k, scopes[k]? = some scope ∧ Finds c scope k r := by
  suffices ∃ place ∈ scopes.inwards, Finds c place.1 place.2 r from
    have ⟨⟨scope, k⟩, hplace, hfinds⟩ := this
    ⟨scope, k, getElem?_of_mem_inwards hplace, hfinds⟩
  unfold resolve at h
  split at h
  next htable => exact finds_of_resolveQualified htable h
  next htable => exact finds_of_resolvePlain htable h

theorem offers_resolve (h : scopes.resolve c = .ok r) : scopes.Offers r := by
  obtain ⟨scope, k, hscope, hfinds⟩ := finds_of_resolve h
  cases hfinds with
  | label hfound => exact .label hscope hfound
  | column _ hsource hcolumn =>
    exact .column hscope hsource (Source.column?_eq_some_iff.1 hcolumn).1

theorem scope_lt_of_resolve (h : scopes.resolve c = .ok (.column bound)) :
    bound.scope < scopes.size := by
  obtain ⟨scope, k, hscope, hfinds⟩ := finds_of_resolve h
  cases hfinds
  exact (Array.getElem?_eq_some_iff.1 hscope).1

/-- A name that stands for a column of the innermost scope. -/
theorem finds_of_resolve_push {outer : Scopes}
    (h : Scopes.resolve (outer.push scope) c = .ok (.column bound))
    (hinner : bound.scope = outer.size) : Finds c scope outer.size (.column bound) := by
  obtain ⟨found, k, hscope, hfinds⟩ := finds_of_resolve h
  obtain rfl : k = outer.size := by
    cases hfinds
    exact hinner
  rw [Array.getElem?_push_size] at hscope
  cases hscope
  exact hfinds

theorem inwards_push (outer : Scopes) (scope : Scope) :
    Scopes.inwards (outer.push scope) = (scope, outer.size) :: Scopes.inwards outer := by
  simp [inwards, zipIdx_append]

/-- A name that stands for a column of the innermost scope, where that has one table. -/
theorem column?_of_resolve_push {outer : Scopes} {source : Source} {ref : ColumnRef}
    (hsources : scope.sources = [source])
    (h : Scopes.resolve (outer.push scope) ref = .ok (.column bound))
    (hinner : bound.scope = outer.size) :
    (∀ qualifier, ref.table = some qualifier → Text.sameName source.visible qualifier = true ∧
      schemaFits ref.schema source.schema = true) ∧
    ∃ column, source.column? ref.name = some column ∧
      bound = .of outer.size (0, source) column := by
  cases finds_of_resolve_push h hinner with
  | @column place column hfirst hsource hcolumn =>
    obtain ⟨j, found⟩ := place
    rw [hsources, getElem?_singleton, Option.ite_none_right_eq_some] at hsource
    obtain ⟨rfl, ⟨⟩⟩ := hsource
    refine ⟨fun qualifier hqualifier => ?_, column, hcolumn, rfl⟩
    obtain ⟨hfound, hschema⟩ := hfirst qualifier hqualifier
    exact ⟨(Scope.source?_eq_some_iff.1 hfound).2.1, hschema⟩

/-! ### Wildcards -/

theorem offers_columnsOf {source : Nat × Source} (hback : scopes.back? = some scope)
    (hsource : scope.sources[source.1]? = some source.2) (h : bound ∈ scopes.columnsOf source) :
    scopes.Offers (.column bound) ∧ bound.scope = scopes.innermost := by
  obtain ⟨⟨column, i⟩, hcolumn, rfl⟩ := mem_map.1 h
  refine ⟨.column ?_ hsource (mem_zipIdx_iff_getElem?.1 hcolumn), rfl⟩
  rw [innermost, ← Array.back?_eq_getElem?, hback]

/-- A wildcard stands for columns of the innermost scope. -/
def Expands (expand : Scopes → Except AnalysisError (List BoundColumn)) : Prop :=
  ∀ scopes bound, expand scopes = .ok bound →
    ∀ b ∈ bound, scopes.Offers (.column b) ∧ b.scope = scopes.innermost

theorem expands_expandAll : Expands expandAll := by
  intro scopes bound h b hb
  unfold expandAll at h
  split at h
  next => cases h
  next scope hback =>
    split at h
    next => cases h
    next =>
      cases h
      obtain ⟨⟨source, j⟩, hsource, hb⟩ := mem_flatMap.1 hb
      exact offers_columnsOf hback (mem_zipIdx_iff_getElem?.1 hsource) hb

theorem expands_expandTable (name : String) : Expands (expandTable · name) := by
  intro scopes bound h b hb
  unfold expandTable at h
  dsimp only at h
  split at h
  next => cases h
  next scope hback =>
    split at h
    next source hsource =>
      cases h
      exact offers_columnsOf hback (Scope.source?_eq_some_iff.1 hsource).1 hb
    next => cases h

end Scopes

end SqlSignature

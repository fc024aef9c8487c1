import SqlSignature.Analysis.Tables
import SqlSignature.Proofs.JoinRows
/-!
# SqlSignature.Proofs.JoinInvariant

What is known of the rows of a clause after each of its joins. A scope notes which tables an outer
join can pad, and the walk keeps the conditions that hold in all rows so far. Both are tied to the
rows by one invariant, `Fits`: the declared columns of tables that are not padded have values, and
the conditions are true. A join keeps it for the tables of its own item (`AllFit.join`), and an item
does not touch the tables before it (`AllFit.beside`).
-/

open List

namespace SqlSignature

/-! ### The invariant -/

section

variable {V : Type} (holds : Expr → Row V → Bool)

/-- A row of the tables from an index on is as the walk has noted. -/
structure Fits (sources : List Source) (first : Nat) (predicates : List Expr) (r : Row V) :
    Prop where
  present : ∀ i source c column, first ≤ i → sources[i]? = some source →
    source.outerNullable = false → source.columns[c]? = some column → column.notNull = true →
      r i c ≠ none
  predicates : ∀ p ∈ predicates, holds p r = true

/-- All rows of the tables from an index on are as the walk has noted, and the conditions read no
other tables. -/
structure AllFit (sources : List Source) (first : Nat) (predicates : List Expr)
    (rows : List (Row V)) : Prop where
  fits : ∀ r ∈ rows, Fits holds sources first predicates r
  reads : ∀ p ∈ predicates, ReadsOnly holds p first sources.length

end

/-- A source stands for a table: the same columns are declared not to be null. -/
def Source.StandsFor (source : Source) (table : Table) : Prop :=
  source.columns.map SourceColumn.notNull = table.columns.map Column.notNull

variable {source : Source} {catalog : Catalog} {kind : JoinKind}

/-- The rows of a table have values where its source says so. -/
theorem Source.StandsFor.present {V : Type} {table : Table} {db : Database V}
    (h : source.StandsFor table) (hdb : db.Respects catalog) (htable : table ∈ catalog.tables)
    {t : Tuple V} (ht : t ∈ db.rows table) {c : Nat} {column : SourceColumn}
    (hc : source.columns[c]? = some column) (hn : column.notNull = true) : t c ≠ none := by
  have hnames : (table.columns.map Column.notNull)[c]? = some true := by
    rw [← h, getElem?_map, hc, Option.map_some, hn]
  rw [getElem?_map, Option.map_eq_some_iff] at hnames
  obtain ⟨declared, hdeclared, hn'⟩ := hnames
  exact hdb table htable t ht c declared hdeclared hn'

theorem Catalog.table?_mem {schema : Option String} {name : String} {table : Table}
    (h : catalog.table? schema name = some table) : table ∈ catalog.tables := by
  unfold Catalog.table? at h
  split at h
  · exact mem_of_find?_eq_some h
  · exact mem_of_find?_eq_some h

/-- The rows of a base table have values where its source says so. -/
theorem BaseTable.rows_present {V : Type} {db : Database V} {table : BaseTable} {found : Table}
    (hdb : db.Respects catalog) (hfound : catalog.table? table.schema table.name = some found)
    (hsource : source.StandsFor found) :
    ∀ t ∈ table.rows catalog db, ∀ c column, source.columns[c]? = some column →
      column.notNull = true → t c ≠ none := by
  intro t ht c column hc hn
  rw [BaseTable.rows, hfound] at ht
  exact hsource.present hdb (Catalog.table?_mem hfound) ht hc hn

/-! ### One join -/

theorem JoinKind.pads_of_lt {first joined i : Nat} (hf : first ≤ i) (hi : i < joined) :
    kind.pads first joined i = kind.keepsRight := by
  have hne : i ≠ joined := by omega
  have hle : i ≤ joined := by omega
  cases kind <;> simp [JoinKind.pads, JoinKind.keepsRight, hf, hi, hne, hle]

theorem JoinKind.pads_joined {first joined : Nat} (hf : first ≤ joined) :
    kind.pads first joined joined = kind.keepsLeft := by
  cases kind <;> simp [JoinKind.pads, JoinKind.keepsLeft, hf]

theorem JoinKind.pads_before {first joined i : Nat} (hf : first ≤ joined) (hi : i < first) :
    kind.pads first joined i = false := by
  have hne : i ≠ joined := by omega
  have hlt : ¬first ≤ i := by omega
  cases kind <;> simp [JoinKind.pads, hne, hlt]

theorem JoinKind.padsEarlier_eq (kind : JoinKind) : kind.padsEarlier = kind.keepsRight := by
  cases kind <;> rfl

theorem JoinKind.isOuter_eq (kind : JoinKind) :
    kind.isOuter = (kind.keepsLeft || kind.keepsRight) := by
  cases kind <;> rfl

/-- A scope after a join. -/
def Scope.join (scope : Scope) (kind : JoinKind) (first : Nat) (source : Source) : Scope :=
  ({ scope with sources := scope.sources ++ [source] }).pad kind first scope.sources.length

theorem Scope.join_getElem? (scope : Scope) (kind : JoinKind) (first : Nat) (source : Source)
    (i : Nat) : (scope.join kind first source).sources[i]? =
      (scope.sources ++ [source])[i]?.map fun s =>
        { s with outerNullable := s.outerNullable || kind.pads first scope.sources.length i } := by
  simp only [Scope.join, Scope.pad, getElem?_mapIdx]

@[simp] theorem Scope.join_length (scope : Scope) (kind : JoinKind) (first : Nat)
    (source : Source) :
    (scope.join kind first source).sources.length = scope.sources.length + 1 := by
  simp [Scope.join, Scope.pad]

/-- A join leaves the tables of other items as they are. -/
theorem Scope.join_before {scope : Scope} {first i : Nat} (hf : first ≤ scope.sources.length)
    (hi : i < first) (kind : JoinKind) (source : Source) :
    (scope.join kind first source).sources[i]? = scope.sources[i]? := by
  rw [Scope.join_getElem?, getElem?_append_left (by omega), JoinKind.pads_before hf hi]
  simp

/-- A table that is not padded after a join was not padded before, and the join does not pad it. -/
theorem Scope.join_inv {scope : Scope} {first i : Nat} {s : Source} (hf : first ≤ i)
    (h : (scope.join kind first source).sources[i]? = some s) (hn : s.outerNullable = false) :
    (i < scope.sources.length ∧ kind.keepsRight = false ∧
        ∃ s₀, scope.sources[i]? = some s₀ ∧ s₀.outerNullable = false ∧ s₀.columns = s.columns) ∨
      (i = scope.sources.length ∧ kind.keepsLeft = false ∧ source.columns = s.columns) := by
  rw [Scope.join_getElem?, Option.map_eq_some_iff] at h
  obtain ⟨s₀, hs₀, rfl⟩ := h
  rw [Bool.or_eq_false_iff] at hn
  rcases Nat.lt_trichotomy i scope.sources.length with hlt | rfl | hgt
  · rw [getElem?_append_left hlt] at hs₀
    rw [JoinKind.pads_of_lt hf hlt] at hn
    exact Or.inl ⟨hlt, hn.2, s₀, hs₀, hn.1, rfl⟩
  · rw [getElem?_concat_length, Option.some_inj] at hs₀
    rw [JoinKind.pads_joined hf] at hn
    exact Or.inr ⟨rfl, hn.2, hs₀ ▸ rfl⟩
  · rw [getElem?_eq_none (by simp only [length_append, length_singleton]; omega)]
      at hs₀
    contradiction

/-- The conditions of an item after a join. -/
def BaseJoin.keptPredicates (j : BaseJoin) (own : List Expr) : List Expr :=
  (if j.kind.padsEarlier then [] else own) ++ (if j.kind.isOuter then [] else j.condition.toList)

/-- A condition after a join is an older one, and then the join does not pad the left, or that of
the join itself, and then it pads nothing. -/
theorem BaseJoin.mem_keptPredicates {j : BaseJoin} {own : List Expr} {p : Expr}
    (h : p ∈ j.keptPredicates own) :
    (j.kind.keepsRight = false ∧ p ∈ own) ∨
      ((j.kind.keepsLeft || j.kind.keepsRight) = false ∧ p ∈ j.condition) := by
  rw [BaseJoin.keptPredicates, mem_append, JoinKind.padsEarlier_eq, JoinKind.isOuter_eq] at h
  rcases h with h | h
  · split at h
    next => exact absurd h not_mem_nil
    next hkeep => exact Or.inl ⟨by simpa using hkeep, h⟩
  · split at h
    next => exact absurd h not_mem_nil
    next hkeep => exact Or.inr ⟨by simpa using hkeep, Option.mem_toList.mp h⟩

theorem BaseJoin.keptPredicates_subset (j : BaseJoin) (own : List Expr) :
    j.keptPredicates own ⊆ own ++ j.condition.toList := by
  intro p hp
  rcases BaseJoin.mem_keptPredicates hp with ⟨-, hown⟩ | ⟨-, hcondition⟩
  · exact mem_append_left _ hown
  · exact mem_append_right _ (Option.mem_toList.mpr hcondition)

section

variable {V : Type} {holds : Expr → Row V → Bool} {scope : Scope} {first : Nat} {own : List Expr}
  {rows : List (Row V)}

/-- A join keeps the invariant. -/
theorem AllFit.join (h : AllFit holds scope.sources first own rows) (j : BaseJoin) {source : Source}
    {right : List (Tuple V)}
    (hright : ∀ t ∈ right, ∀ c column, source.columns[c]? = some column →
      column.notNull = true → t c ≠ none)
    (hreads : ∀ e ∈ j.condition, ReadsOnly holds e first (scope.sources.length + 1)) :
    AllFit holds (scope.join j.kind first source).sources first (j.keptPredicates own)
      (joinRows j.kind (j.admits holds) scope.sources.length rows right) := by
  refine ⟨fun r hr => ?_, fun p hp => ?_⟩
  · obtain ⟨hleft, hjoined, hadmits⟩ := mem_joinRows hr
    refine ⟨fun i s c column hi hs hn hc hnn => ?_, fun p hp => ?_⟩
    · -- A table that is not padded has its values from the side of the join that it stands on.
      rcases Scope.join_inv hi hs hn with ⟨hlt, hkeep, s₀, hs₀, hn₀, hcols⟩ | ⟨rfl, hkeep, hcols⟩
      · obtain ⟨l, hl, heq⟩ := hleft hkeep
        rw [heq i (by omega)]
        exact (h.fits l hl).present i s₀ c column hi hs₀ hn₀ (hcols ▸ hc) hnn
      · exact hright _ (hjoined hkeep) c column (hcols ▸ hc) hnn
    · rcases BaseJoin.mem_keptPredicates hp with ⟨hkeep, hown⟩ | ⟨hkeep, hcondition⟩
      · -- An older condition does not read the joined table.
        obtain ⟨l, hl, heq⟩ := hleft hkeep
        rw [h.reads p hown r l fun i _ hi => heq i (by omega)]
        exact (h.fits l hl).predicates p hown
      · have hadmits := hadmits hkeep
        rw [BaseJoin.admits, hcondition] at hadmits
        exact hadmits
  · rw [Scope.join_length]
    rcases BaseJoin.mem_keptPredicates hp with ⟨-, hown⟩ | ⟨-, hcondition⟩
    · exact (h.reads p hown).mono (Nat.le_refl _) (Nat.le_succ _)
    · exact hreads p hcondition

end

/-! ### Items beside each other -/

/-- The rows of the first table of an item. -/
theorem AllFit.first {V : Type} {holds : Expr → Row V → Bool} {sources : List Source}
    {right : List (Tuple V)}
    (hright : ∀ t ∈ right, ∀ c column, source.columns[c]? = some column →
      column.notNull = true → t c ≠ none) :
    AllFit holds (sources ++ [source]) sources.length [] (right.map (Row.padded.put sources.length))
    where
  reads := by simp
  fits r hr := by
    obtain ⟨t, ht, rfl⟩ := mem_map.mp hr
    refine ⟨fun i s c column hi hs _ hc hn => ?_, by simp⟩
    have hlt := (List.getElem?_eq_some_iff.mp hs).1
    obtain rfl : i = sources.length := by
      rw [length_append, length_singleton] at hlt
      omega
    rw [getElem?_concat_length, Option.some_inj] at hs
    subst hs
    rw [Row.put_self]
    exact hright t ht c column hc hn

/-- Rows of an item beside rows of the tables before it. -/
theorem AllFit.beside {V : Type} {holds : Expr → Row V → Bool} {sources sources' : List Source}
    {older own : List Expr} {rows rows' : List (Row V)} (h : AllFit holds sources 0 older rows)
    (h' : AllFit holds sources' sources.length own rows')
    (hbefore : ∀ i < sources.length, sources'[i]? = sources[i]?)
    (hle : sources.length ≤ sources'.length) :
    AllFit holds sources' 0 (older ++ own)
      (rows.flatMap fun r => rows'.map (r.beside sources.length)) := by
  refine ⟨fun r hr => ?_, fun p hp => ?_⟩
  · obtain ⟨l, hl, hr⟩ := mem_flatMap.mp hr
    obtain ⟨l', hl', rfl⟩ := mem_map.mp hr
    refine ⟨fun i s c column _ hs hn hc hnn => ?_, fun p hp => ?_⟩
    · by_cases hi : i < sources.length
      · rw [l.beside_of_lt l' hi]
        rw [hbefore i hi] at hs
        exact (h.fits l hl).present i s c column (Nat.zero_le i) hs hn hc hnn
      · rw [l.beside_of_le l' (Nat.not_lt.mp hi)]
        exact (h'.fits l' hl').present i s c column (Nat.not_lt.mp hi) hs hn hc hnn
    · rcases mem_append.mp hp with hp | hp
      · rw [h.reads p hp _ l fun i _ hi => l.beside_of_lt l' hi]
        exact (h.fits l hl).predicates p hp
      · rw [h'.reads p hp _ l' fun i hi _ => l.beside_of_le l' hi]
        exact (h'.fits l' hl').predicates p hp
  · rcases mem_append.mp hp with hp | hp
    · exact (h.reads p hp).mono (Nat.le_refl _) hle
    · exact (h'.reads p hp).mono (Nat.zero_le _) (Nat.le_refl _)

end SqlSignature

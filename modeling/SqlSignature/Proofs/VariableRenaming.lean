import SqlSignature.Analysis.Walk
/-!
# SqlSignature.Proofs.VariableRenaming

Other type variables in place of those that scopes, references and constraints hold. Looking up a
name does not depend on variables: in renamed scopes it finds the renamed column, alias or error.
-/

open List

namespace SqlSignature

section

variable (f : TypeVar → TypeVar)

def SourceColumn.rename (c : SourceColumn) : SourceColumn := { c with var := f c.var }

def Source.rename (s : Source) : Source := { s with columns := s.columns.map (·.rename f) }

def SelectAlias.rename (a : SelectAlias) : SelectAlias := { a with var := f a.var }

def Scope.rename (s : Scope) : Scope :=
  { s with sources := s.sources.map (·.rename f), aliases := s.aliases.map (·.rename f) }

def BoundColumn.rename (b : BoundColumn) : BoundColumn := { b with var := f b.var }

def Reference.rename : Reference → Reference
  | column bound => column (bound.rename f)
  | label var notNull => label (f var) notNull

def ShapeColumn.rename (c : ShapeColumn) : ShapeColumn := { c with var := f c.var }

def Constraint.rename : Constraint → Constraint
  | fix var type => fix (f var) type
  | equal a b => equal (f a) (f b)
  | derive target rule args => derive (f target) rule (args.map f)
  | widen target args => widen (f target) (args.map f)
  | expect var type => expect (f var) type
  | hint var source => hint (f var) (f source)

abbrev Scopes.rename (scopes : Scopes) : Scopes := scopes.map (Scope.rename f)

end

variable {f : TypeVar → TypeVar}

/-! ### Tables and aliases -/

/-- The first entry with a property, together with its index, in a list of images. -/
theorem findIdx?_bind_getElem?_map {α β : Type} (g : α → β) (p : β → Bool) (xs : List α) :
    (((xs.map g).findIdx? p).bind fun i => (xs.map g)[i]?.bind fun x => some (i, x)) =
      ((xs.findIdx? (p ∘ g)).bind fun i => xs[i]?.bind fun x => some (i, x)).map
        fun e => (e.1, g e.2) := by
  rw [findIdx?_map]
  cases xs.findIdx? (p ∘ g) with
  | none => rfl
  | some i =>
    rw [Option.bind_some, Option.bind_some, getElem?_map]
    cases xs[i]? <;> rfl

theorem Source.column?_rename (s : Source) (name : String) :
    (s.rename f).column? name = (s.column? name).map fun c => (c.1, c.2.rename f) :=
  findIdx?_bind_getElem?_map (SourceColumn.rename f) (fun c => Text.sameName c.name name) s.columns

theorem Source.columnNames_rename (s : Source) : (s.rename f).columnNames = s.columnNames := by
  simp [columnNames, rename, SourceColumn.rename]

theorem Scope.source?_rename (s : Scope) (visible : String) :
    (s.rename f).source? visible = (s.source? visible).map fun t => (t.1, t.2.rename f) :=
  findIdx?_bind_getElem?_map (Source.rename f) (fun t => Text.sameName t.visible visible) s.sources

theorem Scope.alias?_rename (s : Scope) (name : String) :
    (s.rename f).alias? name = (s.alias? name).map (·.rename f) := by
  unfold alias? rename
  rw [find?_map]
  rfl

theorem Scope.columnNotNull_rename (s : Scope) (source column : Nat) :
    (s.rename f).columnNotNull source column = s.columnNotNull source column := by
  unfold columnNotNull rename
  simp only [getElem?_map]
  cases s.sources[source]? with
  | none => rfl
  | some t =>
    simp only [Option.map_some, Source.rename, getElem?_map]
    cases t.columns[column]? <;> rfl

/-! ### Names -/

namespace Scopes

theorem inwards_rename (scopes : Scopes) :
    (scopes.rename f).inwards = scopes.inwards.map fun s => (s.1.rename f, s.2) := by
  unfold inwards
  rw [Array.toList_map, zipIdx_map, ← map_reverse]
  rfl

theorem innermost_rename (scopes : Scopes) : (scopes.rename f).innermost = scopes.innermost := by
  simp [innermost]

theorem resolveQualified_rename (table : String) (c : ColumnRef) (scopes : List (Scope × Nat)) :
    resolveQualified table c (scopes.map fun s => (s.1.rename f, s.2)) =
      (resolveQualified table c scopes).map (·.rename f) := by
  induction scopes with
  | nil => rfl
  | cons first outer ih =>
    simp only [map_cons, resolveQualified, Scope.source?_rename]
    cases first.1.source? table with
    | none => exact ih
    | some source =>
      simp only [Option.map_some]
      show (if schemaFits c.schema source.2.schema then _ else _) = _
      split
      · rw [Source.column?_rename, Source.columnNames_rename]
        cases source.2.column? c.name <;> rfl
      · exact ih

theorem columnsNamed_rename (scope : Scope) (name : String) :
    columnsNamed (scope.rename f) name = (columnsNamed scope name).map fun c =>
      ((c.1.1, c.1.2.rename f), (c.2.1, c.2.2.rename f)) := by
  unfold columnsNamed
  rw [map_filterMap]
  show List.filterMap _ (scope.sources.map (·.rename f)).zipIdx = _
  rw [zipIdx_map, filterMap_map]
  refine congrArg (List.filterMap · _) (funext fun ⟨source, index⟩ => ?_)
  show ((source.rename f).column? name).map (fun column => ((index, source.rename f), column)) =
    ((source.column? name).map fun column => ((index, source), column)).map _
  rw [Source.column?_rename]
  cases source.column? name <;> rfl

section

variable (scopes : Scopes)

include scopes

theorem resolvePlain_rename (name : String) (around : List (Scope × Nat)) :
    resolvePlain (scopes.rename f) name (around.map fun s => (s.1.rename f, s.2)) =
      (resolvePlain scopes name around).map (·.rename f) := by
  induction around with
  | nil =>
    have hnames : ((scopes.rename f).back?.map fun s => s.sources.flatMap Source.columnNames) =
        scopes.back?.map fun s => s.sources.flatMap Source.columnNames := by
      rw [rename, Array.back?_map, Option.map_map]
      refine congrArg (Option.map · _) (funext fun s => ?_)
      simp [Scope.rename, flatMap_map, Source.columnNames_rename]
    rw [map_nil, resolvePlain, hnames]
    rfl
  | cons first outer ih =>
    simp only [map_cons, resolvePlain, columnsNamed_rename]
    cases columnsNamed first.1 name with
    | nil =>
      have hallow : (first.1.rename f).allowAliases = first.1.allowAliases := rfl
      simp only [map_nil, innermost_rename, Scope.alias?_rename, hallow]
      cases first.2 == scopes.innermost && first.1.allowAliases with
      | false => exact ih
      | true =>
        cases first.1.alias? name with
        | none => exact ih
        | some found => rfl
    | cons found others =>
      have hshared : (first.1.rename f).isShared name = first.1.isShared name := rfl
      simp only [map_cons, hshared, isEmpty_map]
      split
      · simp only [Except.map, map_map]
        rfl
      · rfl

theorem resolve_rename (c : ColumnRef) :
    (scopes.rename f).resolve c = (scopes.resolve c).map (·.rename f) := by
  unfold resolve
  rw [inwards_rename]
  cases c.table with
  | none => exact resolvePlain_rename scopes c.name _
  | some table => exact resolveQualified_rename table c _

/-! ### Wildcards -/

theorem columnsOf_rename (source : Nat × Source) :
    (scopes.rename f).columnsOf (source.1, source.2.rename f) =
      (scopes.columnsOf source).map (·.rename f) := by
  unfold columnsOf
  rw [innermost_rename, Source.rename, zipIdx_map, map_map, map_map]
  rfl

theorem expandAll_rename :
    (scopes.rename f).expandAll = scopes.expandAll.map (List.map (·.rename f)) := by
  unfold expandAll
  rw [Array.back?_map]
  cases scopes.back? with
  | none => rfl
  | some scope =>
    simp only [Option.map_some]
    have hsources : (scope.rename f).sources = scope.sources.map (·.rename f) := rfl
    rw [hsources, isEmpty_map, zipIdx_map, flatMap_map]
    split
    · rfl
    · refine congrArg Except.ok (Eq.trans ?_ map_flatMap.symm)
      exact congrArg (List.flatMap · _)
        (funext fun source => columnsOf_rename scopes (source.2, source.1))

theorem expandTable_rename (table : String) :
    (scopes.rename f).expandTable table =
      (scopes.expandTable table).map (List.map (·.rename f)) := by
  unfold expandTable
  rw [Array.back?_map]
  cases scopes.back? with
  | none => rfl
  | some scope =>
    simp only [Option.map_some, Scope.source?_rename]
    cases scope.source? table with
    | none => rfl
    | some source =>
      simp only [Option.map_some, columnsOf_rename]
      rfl

end

end Scopes

end SqlSignature

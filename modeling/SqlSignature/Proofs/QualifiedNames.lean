import Mathlib.Data.List.Basic
import SqlSignature.Proofs.NameLookup
/-!
# SqlSignature.Proofs.QualifiedNames

Column names with a table and a schema. Such a name can be meant for a table of the innermost scope
that is visible under the name, stands in the schema and has the column (`Source.Provides`). To look
the name up is to stop at the first table with the visible name and to compare the schema there. So
the name is bound to a table that it can be meant for exactly if the first table of the visible name
is one (`Scopes.reaches_iff`), as it always is where no two tables have the same visible name.
-/

namespace SqlSignature

theorem Source.exists_column? {source : Source} {name : String}
    (h : ∃ column ∈ source.columns, Text.sameName column.name name = true) :
    ∃ place, source.column? name = some place := by
  have hindex := List.findIdx?_eq_some_of_exists
    (p := fun c : SourceColumn => Text.sameName c.name name) h
  obtain ⟨hlt, -⟩ := List.findIdx?_eq_some_iff_getElem.1 hindex
  exact ⟨_, Option.bind_eq_some_iff.2 ⟨_, hindex, Option.bind_eq_some_iff.2
    ⟨_, List.getElem?_eq_getElem hlt, rfl⟩⟩⟩

/-! ### Names with a schema -/

/-- A table that a column name with a schema can be meant for. -/
structure Source.Provides (source : Source) (schema table name : String) : Prop where
  visible : Text.sameName source.visible table = true
  schema : ∃ actual, source.schema = some actual ∧ Text.sameName schema actual = true
  column : ∃ column ∈ source.columns, Text.sameName column.name name = true

namespace Scopes

/-- A column name with a schema is bound in the innermost scope, to a column of its name in a table
that it can be meant for. -/
def Reaches (outer : Scopes) (scope : Scope) (schema table name : String) : Prop :=
  ∃ j source i column, scope.sources[j]? = some source ∧ source.Provides schema table name ∧
    source.columns[i]? = some column ∧ Text.sameName column.name name = true ∧
    Scopes.resolve (outer.push scope) ⟨some schema, some table, name⟩ =
      .ok (.column (.of outer.size (j, source) (i, column)))

variable {outer : Scopes} {scope : Scope} {schema table name : String}

/-- A name that is bound in the innermost scope is bound to the first table of its visible name. -/
theorem source?_of_resolve_push {c : ColumnRef} {bound : BoundColumn}
    (htable : c.table = some table)
    (h : Scopes.resolve (outer.push scope) c = .ok (.column bound))
    (hinner : bound.scope = outer.size) :
    ∃ source, scope.source? table = some source ∧ bound.source = source.1 := by
  cases finds_of_resolve_push h hinner with
  | @column source _ hfirst _ _ => exact ⟨source, (hfirst table htable).1, rfl⟩

theorem reaches_of_source? {j : Nat} {source : Source}
    (hsource : scope.source? table = some (j, source))
    (hprovides : source.Provides schema table name) : Reaches outer scope schema table name := by
  obtain ⟨⟨i, column⟩, hcolumn⟩ := Source.exists_column? hprovides.column
  obtain ⟨hat, hname, -⟩ := Source.column?_eq_some_iff.1 hcolumn
  obtain ⟨actual, hactual, hschema⟩ := hprovides.schema
  refine ⟨j, source, i, column, (Scope.source?_eq_some_iff.1 hsource).1, hprovides, hat, hname, ?_⟩
  have hfits : schemaFits (some schema) source.schema = true := by
    rw [hactual]
    exact hschema
  simp only [resolve]
  rw [inwards_push, resolveQualified, hsource]
  simp only [hfits, hcolumn, if_true]

/-- A name with a schema is bound to a table that it can be meant for exactly if the first table of
the visible name is one. Where the tables have different visible names, this is always so. -/
theorem reaches_iff (outer : Scopes) {scope : Scope} {schema table name : String}
    (hprovided : ∃ source ∈ scope.sources, source.Provides schema table name) :
    (Reaches outer scope schema table name ↔
      ∃ (j : Nat) (source : Source), scope.sources[j]? = some source ∧
        source.Provides schema table name ∧
        ∀ (k : Nat) (earlier : Source), k < j → scope.sources[k]? = some earlier →
          Text.sameName earlier.visible table = false) ∧
    (scope.sources.Pairwise (fun s t => Text.sameName s.visible t.visible = false) →
      Reaches outer scope schema table name) := by
  have hfirst : ∀ (j : Nat) (source : Source), scope.sources[j]? = some source →
      source.Provides schema table name →
      (∀ (k : Nat) (earlier : Source), k < j → scope.sources[k]? = some earlier →
        Text.sameName earlier.visible table = false) → Reaches outer scope schema table name :=
    fun j source hat hprovides hearlier => reaches_of_source?
      (Scope.source?_eq_some_iff.2 ⟨hat, hprovides.visible, hearlier⟩) hprovides
  refine ⟨⟨?_, fun ⟨j, source, hat, hprovides, hearlier⟩ =>
    hfirst j source hat hprovides hearlier⟩, ?_⟩
  · rintro ⟨j, source, i, column, hat, hprovides, -, -, hresolve⟩
    obtain ⟨⟨j', source'⟩, hsource, rfl⟩ := source?_of_resolve_push rfl hresolve rfl
    exact ⟨_, source, hat, hprovides, (Scope.source?_eq_some_iff.1 hsource).2.2⟩
  · intro hdistinct
    obtain ⟨source, hmem, hprovides⟩ := hprovided
    obtain ⟨j, hat⟩ := List.mem_iff_getElem?.1 hmem
    refine hfirst j source hat hprovides fun k earlier hk hearlier => ?_
    obtain ⟨hj, rfl⟩ := List.getElem?_eq_some_iff.1 hat
    obtain ⟨hk', rfl⟩ := List.getElem?_eq_some_iff.1 hearlier
    -- two tables that are visible under one name have the same visible name
    refine Bool.eq_false_iff.2 fun hsame => ?_
    have hboth := Text.sameName_trans hsame (Text.sameName_comm .. ▸ hprovides.visible)
    rw [List.pairwise_iff_getElem.1 hdistinct k j hk' hj hk] at hboth
    cases hboth

/-- A table with one column. -/
def tableIn (schema visible column : String) : Source :=
  { visible, table := "t", schema := some schema, columns := [⟨column, ⟨0⟩, false, .none⟩],
    outerNullable := false, derived := false }

/-- In `FROM a.t AS u, b.t` the name `b.t.y` is bound to the second table, whatever stands around
the query. -/
theorem reaches_iff_aliased :
    let scope : Scope := { sources := [tableIn "a" "u" "x", tableIn "b" "t" "y"] }
    (∃ source ∈ scope.sources, source.Provides "B" "T" "y") ∧ Reaches #[{}] scope "B" "T" "y" := by
  intro scope
  have hprovided : ∃ source ∈ scope.sources, source.Provides "B" "T" "y" :=
    ⟨tableIn "b" "t" "y", by simp [scope], by decide +kernel, ⟨"b", rfl, by decide +kernel⟩,
      _, List.mem_singleton_self _, by decide +kernel⟩
  exact ⟨hprovided, (reaches_iff #[{}] hprovided).2 (by decide +kernel)⟩

/-- In `FROM a.t, b.t` the name `b.t.y` is not bound at all, since the first table is visible under
the same name and stands in another schema. -/
theorem first_of_name_hides :
    let scope : Scope := { sources := [tableIn "a" "t" "x", tableIn "b" "t" "y"] }
    (∃ source ∈ scope.sources, source.Provides "b" "t" "y") ∧
      Scopes.resolve (Array.push #[] scope) ⟨some "b", some "t", "y"⟩ = .error (.unknownTable "t") ∧
      ¬Reaches #[] scope "b" "t" "y" := by
  intro scope
  have hresolve : Scopes.resolve (Array.push #[] scope) ⟨some "b", some "t", "y"⟩ =
      .error (.unknownTable "t") := by decide +kernel
  refine ⟨⟨tableIn "b" "t" "y", by simp [scope], by decide +kernel, ⟨"b", rfl, by decide +kernel⟩,
    _, List.mem_singleton_self _, by decide +kernel⟩, hresolve, ?_⟩
  rintro ⟨j, source, i, column, -, -, -, -, hreached⟩
  cases hresolve.symm.trans hreached

end Scopes

end SqlSignature

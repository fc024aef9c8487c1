import SqlSignature.Proofs.LayoutOrigins
/-!
# SqlSignature.Proofs.NestedRelations

The relations of a nested result. Each table that contributes result columns has one relation, which
has just these columns as its fields and the first of them as its key, and refers to the relations
of the tables that it is a parent of (`Nested.RelationOf`). All relations together have every result
column with an origin once (`Nested.count_fields`). With what is known of the layout of a query this
gives the shape of the nested result of every query that can be analysed
(`Statement.nested_relations`).
-/

open List

namespace SqlSignature

/-- The result column that an entry is. -/
def RelationEntry.index? : RelationEntry → Option Nat
  | .field _ index => some index
  | .relation _ _ => none

/-- The result columns among the entries of a relation. -/
def Relation.fields (r : Relation) : List Nat := r.entries.filterMap RelationEntry.index?

/-- The result columns in all relations. -/
def NestedResult.fields (r : NestedResult) : List Nat := r.relations.flatMap Relation.fields

/-- Whether a result column comes from a table. -/
def ResultColumn.comesFrom (column : ResultColumn) (source : Nat) : Bool :=
  column.origin.any (·.source == source)

theorem ResultColumn.comesFrom_iff {column : ResultColumn} {source : Nat} :
    column.comesFrom source = true ↔ ∃ origin, column.origin = some origin ∧
      origin.source = source := by
  simp [comesFrom, Option.any_eq_true]

namespace Nested

/-- The indices of the result columns that come from a table. -/
def indicesFrom (columns : List ResultColumn) (source : Nat) : List Nat :=
  (columns.zipIdx.filter (·.1.comesFrom source)).map Prod.snd

/-- Whether a result column comes from a table. -/
def contributes (columns : List ResultColumn) (source : Nat) : Bool :=
  columns.any (·.comesFrom source)

/-- A relation is that of a table. -/
structure RelationOf (columns : List ResultColumn) (layout : Layout)
    (foreignKeys : List ForeignKey) (source : Nat) (r : Relation) : Prop where
  name : r.name = relationName layout source
  groupKey_mem : r.groupKey ∈ indicesFrom columns source
  groupKey_le : ∀ index ∈ indicesFrom columns source, r.groupKey ≤ index
  fields : r.fields.Perm (indicesFrom columns source)
  field : ∀ name index, .field name index ∈ r.entries →
    (columns[index]?).map ResultColumn.sourceName = some name
  relation : ∀ name cardinality, .relation name cardinality ∈ r.entries ↔
    ∃ child, contributes columns child = true ∧ relationName layout child = name ∧
      (source, cardinality) ∈ parents layout foreignKeys (contributes columns) child

variable {columns : List ResultColumn} {source index : Nat}

/-! ### Result columns of a table -/

theorem mem_indicesFrom : index ∈ indicesFrom columns source ↔
    ∃ column, columns[index]? = some column ∧ column.comesFrom source = true := by
  simp only [indicesFrom, mem_map, mem_filter, Prod.exists, mem_zipIdx_iff_getElem?]
  constructor
  · rintro ⟨column, place, ⟨hcolumn, hfrom⟩, rfl⟩
    exact ⟨column, hcolumn, hfrom⟩
  · rintro ⟨column, hcolumn, hfrom⟩
    exact ⟨column, index, ⟨hcolumn, hfrom⟩, rfl⟩

theorem indicesFrom_append (columns : List ResultColumn) (column : ResultColumn) (source : Nat) :
    indicesFrom (columns ++ [column]) source =
      indicesFrom columns source ++ if column.comesFrom source then [columns.length] else [] := by
  simp only [indicesFrom, zipIdx_append, filter_append, map_append, Nat.zero_add,
    zipIdx_singleton]
  congr 1
  cases hfrom : column.comesFrom source <;> simp [hfrom]

theorem pairwise_indicesFrom (columns : List ResultColumn) (source : Nat) :
    (indicesFrom columns source).Pairwise (· < ·) := by
  have hsublist : (indicesFrom columns source).Sublist (columns.zipIdx.map Prod.snd) :=
    filter_sublist.map _
  rw [zipIdx_map_snd] at hsublist
  exact List.Pairwise.sublist hsublist pairwise_lt_range'

theorem contributes_iff : contributes columns source = true ↔
    ∃ key, (indicesFrom columns source).head? = some key := by
  constructor
  · intro h
    obtain ⟨column, hmem, hfrom⟩ := any_eq_true.1 h
    obtain ⟨index, hindex⟩ := mem_iff_getElem?.1 hmem
    have hmem := mem_indicesFrom.2 ⟨column, hindex, hfrom⟩
    exact ⟨_, head?_eq_some_head (ne_nil_of_mem hmem)⟩
  · rintro ⟨key, hkey⟩
    obtain ⟨column, hcolumn, hfrom⟩ := mem_indicesFrom.1 (mem_of_mem_head? hkey)
    exact any_eq_true.2 ⟨column, mem_of_getElem? hcolumn, hfrom⟩

/-- A result column comes from one table at most. -/
theorem eq_of_mem_indicesFrom {other : Nat} (h : index ∈ indicesFrom columns source)
    (hother : index ∈ indicesFrom columns other) : source = other := by
  obtain ⟨column, hcolumn, hfrom⟩ := mem_indicesFrom.1 h
  obtain ⟨column', hcolumn', hfrom'⟩ := mem_indicesFrom.1 hother
  rw [hcolumn] at hcolumn'
  cases hcolumn'
  obtain ⟨origin, horigin, rfl⟩ := ResultColumn.comesFrom_iff.1 hfrom
  obtain ⟨origin', horigin', rfl⟩ := ResultColumn.comesFrom_iff.1 hfrom'
  rw [horigin] at horigin'
  cases horigin'
  rfl

/-! ### First columns -/

/-- The keys of the tables that contribute result columns: for each table its first column. -/
structure KeysOf (columns : List ResultColumn) (found : List (Nat × Nat)) : Prop where
  nodup : (found.map Prod.fst).Nodup
  mem : ∀ source key, (source, key) ∈ found ↔ (indicesFrom columns source).head? = some key

variable {found : List (Nat × Nat)}

theorem KeysOf.mem_map (h : KeysOf columns found) :
    source ∈ found.map Prod.fst ↔ contributes columns source = true := by
  rw [contributes_iff]
  simp [h.mem]

/-- A column of a table that is known, or of none, changes nothing. -/
theorem KeysOf.keep (h : KeysOf columns found) {column : ResultColumn}
    (hknown : ∀ source, column.comesFrom source = true → source ∈ found.map Prod.fst) :
    KeysOf (columns ++ [column]) found := by
  refine ⟨h.nodup, fun source key => ?_⟩
  rw [h.mem, indicesFrom_append, head?_append]
  split
  next hfrom =>
    obtain ⟨first, hfirst⟩ := contributes_iff.1 (h.mem_map.1 (hknown source hfrom))
    rw [hfirst, Option.some_or]
  next => rw [head?_nil, Option.or_none]

/-- The first column of a table is its key. -/
theorem KeysOf.add (h : KeysOf columns found) {column : ResultColumn} {origin : ColumnOrigin}
    (horigin : column.origin = some origin) (hnew : origin.source ∉ found.map Prod.fst) :
    KeysOf (columns ++ [column]) (found ++ [(origin.source, columns.length)]) := by
  refine ⟨?_, fun source key => ?_⟩
  · rw [map_append]
    refine nodup_append.2 ⟨h.nodup, nodup_singleton _, ?_⟩
    rintro known hmem _ (_ | ⟨_, ⟨⟩⟩) rfl
    exact hnew hmem
  · have hfrom : column.comesFrom source = true ↔ origin.source = source := by
      simp [ResultColumn.comesFrom, horigin]
    rw [mem_append, h.mem, indicesFrom_append, head?_append, mem_singleton]
    by_cases heq : origin.source = source
    · subst heq
      have hnone : (indicesFrom columns origin.source).head? = none := by
        refine Option.eq_none_iff_forall_ne_some.2 fun first hfirst => hnew ?_
        exact h.mem_map.2 (contributes_iff.2 ⟨first, hfirst⟩)
      rw [if_pos (hfrom.2 rfl), hnone]
      simp [eq_comm]
    · rw [if_neg (fun hsame => heq (hfrom.1 hsame))]
      simp [Ne.symm heq]

/-- The walk over the result columns records each table at its first column. -/
theorem keysOf_groupKeysFrom (rest : List ResultColumn) (h : KeysOf columns found) :
    KeysOf (columns ++ rest) (groupKeysFrom columns.length found rest) := by
  induction rest generalizing columns found with
  | nil => rwa [append_nil]
  | cons column rest ih =>
    have hany : ∀ source, found.any (·.1 == source) = true ↔ source ∈ found.map Prod.fst := by
      simp
    rw [append_cons, groupKeysFrom]
    split
    next origin horigin =>
      split
      next hknown =>
        have hkeep : KeysOf (columns ++ [column]) found := by
          refine h.keep fun source hfrom => ?_
          obtain ⟨_, hsame, rfl⟩ := ResultColumn.comesFrom_iff.1 hfrom
          cases horigin.symm.trans hsame
          exact (hany _).1 hknown
        have hrest := ih hkeep
        rwa [length_append] at hrest
      next hnew =>
        have hrest := ih (h.add horigin fun hmem => hnew ((hany _).2 hmem))
        rwa [length_append] at hrest
    next hnone =>
      have hkeep : KeysOf (columns ++ [column]) found := by
        refine h.keep fun source hfrom => ?_
        obtain ⟨_, hsome, -⟩ := ResultColumn.comesFrom_iff.1 hfrom
        cases hnone.symm.trans hsome
      have hrest := ih hkeep
      rwa [length_append] at hrest

variable (columns) in
theorem keysOf_groupKeys : KeysOf columns (groupKeys columns) := by
  have hempty : KeysOf [] [] := ⟨nodup_nil, fun _ _ => by simp [indicesFrom]⟩
  have hkeys := keysOf_groupKeysFrom columns hempty
  have hperm : (groupKeys columns).Perm (groupKeysFrom 0 [] columns) := by
    have hsplit := filter_append_perm (fun place : Nat × Nat => place.1 == 0)
      (groupKeysFrom 0 [] columns)
    exact hsplit
  exact ⟨(hperm.map Prod.fst).nodup_iff.2 hkeys.nodup,
    fun source key => hperm.mem_iff.trans (hkeys.mem source key)⟩

/-- The tables with keys are those that contribute. -/
theorem any_groupKeys (columns : List ResultColumn) :
    (fun source => (groupKeys columns).any (·.1 == source)) = contributes columns := by
  funext source
  rw [Bool.eq_iff_iff, ← (keysOf_groupKeys columns).mem_map]
  simp

/-! ### Entries -/

theorem filterMap_fieldEntries (columns : List ResultColumn) (source : Nat) :
    (fieldEntries columns source).filterMap (RelationEntry.index? ∘ Prod.snd) =
      indicesFrom columns source := by
  rw [fieldEntries, indicesFrom, filterMap_filterMap, ← filterMap_eq_map,
    filterMap_filter]
  refine congrArg (List.filterMap · _) (funext fun ⟨column, index⟩ => ?_)
  show Option.bind (if column.comesFrom source then _ else _) _ = _
  split <;> rfl

theorem find?_parent {found : List Parent} (hnodup : (tablesOf found).Nodup) {table : Nat}
    {cardinality : Cardinality} :
    (∃ known, found.find? (·.1 == table) = some (known, cardinality)) ↔
      (table, cardinality) ∈ found := by
  constructor
  · rintro ⟨known, hfound⟩
    have hknown : known = table := by simpa using find?_some hfound
    rw [← hknown]
    exact mem_of_find?_eq_some hfound
  · intro hmem
    have hsome : (found.find? (·.1 == table)).isSome = true := by
      rw [find?_isSome]
      exact ⟨_, hmem, beq_self_eq_true table⟩
    obtain ⟨parent, hparent⟩ := Option.isSome_iff_exists.1 hsome
    have heq : parent = (table, cardinality) :=
      inj_on_of_nodup_map hnodup (mem_of_find?_eq_some hparent) hmem
        (by simpa using find?_some hparent)
    exact ⟨table, heq ▸ hparent⟩

variable {entry : RelationEntry}

theorem mem_fieldEntries :
    (∃ place, (place, entry) ∈ fieldEntries columns source) ↔ ∃ index column,
      columns[index]? = some column ∧ column.comesFrom source = true ∧
        entry = .field column.sourceName index := by
  constructor
  · rintro ⟨place, h⟩
    obtain ⟨⟨column, index⟩, hmem, h⟩ := mem_filterMap.1 h
    dsimp only at h
    split at h
    next hfrom =>
      cases h
      exact ⟨place, column, mem_zipIdx_iff_getElem?.1 hmem, hfrom, rfl⟩
    next => cases h
  · rintro ⟨index, column, hcolumn, hfrom, rfl⟩
    refine ⟨index, mem_filterMap.2 ⟨(column, index), ?_, if_pos hfrom⟩⟩
    exact mem_zipIdx_iff_getElem?.2 hcolumn

variable {layout : Layout} {foreignKeys : List ForeignKey}

theorem mem_childEntries {parentsOf : Nat → List Parent} {ordered : List (Nat × Nat)}
    {groupKey : Nat} (hnodup : ∀ child, (tablesOf (parentsOf child)).Nodup) :
    (∃ place, (place, entry) ∈ childEntries layout columns parentsOf ordered source groupKey) ↔
      ∃ child ∈ ordered.map Prod.fst, ∃ cardinality, (source, cardinality) ∈ parentsOf child ∧
        entry = .relation (relationName layout child) cardinality := by
  constructor
  · rintro ⟨place, h⟩
    obtain ⟨⟨child, childKey⟩, hmem, h⟩ := mem_filterMap.1 h
    obtain ⟨⟨known, cardinality⟩, hfound, h⟩ := Option.bind_eq_some_iff.1 h
    cases h
    exact ⟨child, mem_map_of_mem hmem, cardinality,
      (find?_parent (hnodup child)).1 ⟨known, hfound⟩, rfl⟩
  · rintro ⟨child, hchild, cardinality, hparent, rfl⟩
    obtain ⟨place, hmem, rfl⟩ := mem_map.1 hchild
    obtain ⟨known, hfound⟩ := (find?_parent (hnodup _)).2 hparent
    exact ⟨_, mem_filterMap.2 ⟨place, hmem, Option.bind_eq_some_iff.2 ⟨_, hfound, rfl⟩⟩⟩

/-! ### Relations -/

section

variable (columns layout foreignKeys)

/-- The entries of the relation of a table, each with its place, before they are sorted. -/
def placedEntries (table : Nat × Nat) : List (Nat × RelationEntry) :=
  fieldEntries columns table.1 ++ childEntries layout columns
    (parents layout foreignKeys (contributes columns)) (groupKeys columns) table.1 table.2

/-- The relation of a table with its key. -/
def relationAt (table : Nat × Nat) : Relation where
  name := relationName layout table.1
  groupKey := table.2
  entries := ((placedEntries columns layout foreignKeys table).mergeSort
    fun a b => decide (a.1 ≤ b.1)).map Prod.snd

theorem relations_decompose : (decompose columns layout foreignKeys).relations =
    (groupKeys columns).map (relationAt columns layout foreignKeys) := by
  unfold decompose relationAt placedEntries
  rw [← any_groupKeys]

theorem entries_perm (table : Nat × Nat) :
    (relationAt columns layout foreignKeys table).entries.Perm
      ((placedEntries columns layout foreignKeys table).map Prod.snd) :=
  (mergeSort_perm _ _).map _

end

theorem mem_entries {table : Nat × Nat} :
    entry ∈ (relationAt columns layout foreignKeys table).entries ↔
      (∃ index column, columns[index]? = some column ∧ column.comesFrom table.1 = true ∧
        entry = .field column.sourceName index) ∨
      ∃ child, contributes columns child = true ∧ ∃ cardinality,
        (table.1, cardinality) ∈ parents layout foreignKeys (contributes columns) child ∧
          entry = .relation (relationName layout child) cardinality := by
  have hchildren : (∃ place, (place, entry) ∈ childEntries layout columns
      (parents layout foreignKeys (contributes columns)) (groupKeys columns) table.1 table.2) ↔ _ :=
    mem_childEntries fun child => nodup_parents child
  simp only [(keysOf_groupKeys columns).mem_map] at hchildren
  rw [(entries_perm columns layout foreignKeys table).mem_iff, ← mem_fieldEntries, ← hchildren]
  simp [placedEntries]

/-- The fields of the relation of a table are the result columns that come from it. -/
theorem fields_perm (table : Nat × Nat) :
    (relationAt columns layout foreignKeys table).fields.Perm (indicesFrom columns table.1) := by
  have hchildren : (childEntries layout columns (parents layout foreignKeys (contributes columns))
      (groupKeys columns) table.1 table.2).filterMap (RelationEntry.index? ∘ Prod.snd) = [] := by
    refine filterMap_eq_nil_iff.2 fun ⟨place, entry⟩ hentry => ?_
    obtain ⟨_, _, _, _, rfl⟩ :=
      (mem_childEntries fun child => nodup_parents child).1 ⟨place, hentry⟩
    rfl
  have hfields := (entries_perm columns layout foreignKeys table).filterMap RelationEntry.index?
  rwa [filterMap_map, placedEntries, filterMap_append, filterMap_fieldEntries, hchildren,
    append_nil] at hfields

theorem relationOf_relationAt {table : Nat × Nat} (h : table ∈ groupKeys columns) :
    RelationOf columns layout foreignKeys table.1
      (relationAt columns layout foreignKeys table) := by
  have hkey := ((keysOf_groupKeys columns).mem table.1 table.2).1 h
  refine ⟨rfl, mem_of_mem_head? hkey, ?_, fields_perm table, ?_, ?_⟩
  · intro index hindex
    obtain ⟨rest, hrest⟩ := head?_eq_some_iff.1 hkey
    have hordered := pairwise_indicesFrom columns table.1
    rw [hrest] at hindex hordered
    rcases mem_cons.1 hindex with rfl | hlater
    · exact Nat.le_refl _
    · exact Nat.le_of_lt ((pairwise_cons.1 hordered).1 index hlater)
  · intro name index hmem
    rcases mem_entries.1 hmem with ⟨_, column, hcolumn, -, heq⟩ | ⟨_, _, _, _, heq⟩
    · cases heq
      rw [hcolumn]
      rfl
    · cases heq
  · intro name cardinality
    rw [mem_entries]
    constructor
    · rintro (⟨_, _, _, _, heq⟩ | ⟨child, hchild, _, hparent, heq⟩)
      · cases heq
      · cases heq
        exact ⟨child, hchild, rfl, hparent⟩
    · rintro ⟨child, hchild, rfl, hparent⟩
      exact .inr ⟨child, hchild, cardinality, hparent, rfl⟩

variable (columns layout foreignKeys) in
/-- The relations are those of the tables that contribute, one for each. -/
theorem relations_of_tables :
    List.Forall₂ (RelationOf columns layout foreignKeys) ((groupKeys columns).map Prod.fst)
      (decompose columns layout foreignKeys).relations := by
  rw [relations_decompose, List.forall₂_map_left_iff, List.forall₂_map_right_iff]
  exact List.forall₂_same.2 fun table htable => relationOf_relationAt htable

/-- A result column that comes from a table is a field once, over all relations. -/
theorem count_fields (h : index ∈ indicesFrom columns source) :
    (decompose columns layout foreignKeys).fields.count index = 1 := by
  have hkeys := keysOf_groupKeys columns
  have hperm : (decompose columns layout foreignKeys).fields.Perm
      (((groupKeys columns).map Prod.fst).flatMap (indicesFrom columns)) := by
    rw [NestedResult.fields, relations_decompose, flatMap_map, flatMap_map]
    exact List.Perm.flatMap_left _ fun table _ => fields_perm table
  have hnodup : (((groupKeys columns).map Prod.fst).flatMap (indicesFrom columns)).Nodup := by
    refine nodup_flatMap.2 ⟨fun table _ => ?_, hkeys.nodup.imp fun hne => ?_⟩
    · exact (pairwise_indicesFrom columns table).imp Nat.ne_of_lt
    · exact fun index hone hother => hne (eq_of_mem_indicesFrom hone hother)
  have hsource : source ∈ (groupKeys columns).map Prod.fst := by
    obtain ⟨column, hcolumn, hfrom⟩ := mem_indicesFrom.1 h
    exact hkeys.mem_map.2 (any_eq_true.2 ⟨column, mem_of_getElem? hcolumn, hfrom⟩)
  rw [hperm.count_eq]
  exact count_eq_one_of_mem hnodup (mem_flatMap.2 ⟨source, hsource, h⟩)

end Nested

/-! ### Queries -/

namespace Statement

open Nested

variable {text : String} {statement : Statement} {input : AnalysisInput} {result : AnalysisResult}

/-- The nested result of a query. There is one relation for each table of the first specification
that a result column comes from, and every result column with an origin is a field of just one
relation, that of its table. The climb to the parents of a table ends; a parent contributes and
stands before the table, so no table is above itself. -/
theorem nested_relations {query : Query} (hparse : parse text = .ok statement)
    (hkind : statement.kind = .select query) (hanalyze : statement.analyze input = .ok result)
    (foreignKeys : List ForeignKey) :
    ∃ spec layout, query.specs.head? = some spec ∧ result.layout = some layout ∧
      layout.sources.map LayoutSource.visible =
        (TableRef.factors spec.tables).map TableFactor.visibleName ∧
      let columns := result.signature.columns
      let nested := decompose columns layout foreignKeys
      (∃ sources : List Nat, sources.Nodup ∧
        (∀ source, source ∈ sources ↔
          source < layout.sources.length ∧ contributes columns source = true) ∧
        List.Forall₂ (RelationOf columns layout foreignKeys) sources nested.relations) ∧
      (∀ index column origin, columns[index]? = some column → column.origin = some origin →
        layout.Holds origin ∧ nested.fields.count index = 1) ∧
      (∀ child, ∃ visited, Climb layout foreignKeys (contributes columns)
        (hops layout foreignKeys child) ([], [child])
        (parents layout foreignKeys (contributes columns) child, visited)) ∧
      (∀ parent child, Refers layout foreignKeys (contributes columns) parent child →
        contributes columns parent = true ∧ parent < child) ∧
      ∀ source, ¬Relation.TransGen (Refers layout foreignKeys (contributes columns))
        source source := by
  obtain ⟨spec, layout, hspec, hlayout, houtlines⟩ := outlines_of_analyze hparse hkind hanalyze
  refine ⟨spec, layout, hspec, hlayout, houtlines.sources, ?_⟩
  intro columns nested
  have hholds : ∀ column ∈ columns, ∀ origin, column.origin = some origin →
      layout.Holds origin := by
    intro column hcolumn origin horigin
    exact houtlines.origins origin (horigin ▸ List.mem_map_of_mem hcolumn)
  refine ⟨⟨_, (keysOf_groupKeys columns).nodup, fun source => ?_, relations_of_tables _ _ _⟩, ?_,
    fun child => climb_parents layout foreignKeys _ child,
    fun parent child hrefers => parents_lt houtlines.linksBack hrefers,
    refers_acyclic houtlines.linksBack⟩
  · rw [(keysOf_groupKeys columns).mem_map]
    refine ⟨fun hcontributes => ⟨?_, hcontributes⟩, And.right⟩
    obtain ⟨column, hcolumn, hfrom⟩ := List.any_eq_true.1 hcontributes
    obtain ⟨origin, horigin, rfl⟩ := ResultColumn.comesFrom_iff.1 hfrom
    obtain ⟨source, hsource, -⟩ := hholds column hcolumn origin horigin
    exact (List.getElem?_eq_some_iff.1 hsource).1
  · intro index column origin hcolumn horigin
    refine ⟨hholds column (List.mem_of_getElem? hcolumn) origin horigin, ?_⟩
    exact count_fields (mem_indicesFrom.2
      ⟨column, hcolumn, ResultColumn.comesFrom_iff.2 ⟨origin, horigin, rfl⟩⟩)

/-- Whether a statement is a query whose result columns come from some tables, of which one is a
parent of another. -/
def hasParent (input : AnalysisInput) (sources : List (Option Nat)) (parent child : Nat)
    (statement : Statement) : Bool :=
  match statement.kind, statement.analyze input with
  | .select _, .ok result =>
    (result.signature.columns.map fun column => column.origin.map ColumnOrigin.source) == sources &&
      result.layout.any fun layout =>
        decide (parent ∈ tablesOf (parents layout [] (contributes result.signature.columns) child))
  | _, _ => false

/-- A table that is joined to itself, by way of another that contributes nothing and is climbed
over. The columns of the second occurrence come first. -/
theorem nested_relations_self_join :
    let text := "SELECT b.x, 1, a.x FROM t a JOIN u ON u.y = a.x JOIN t b ON b.x = u.y"
    let input := (BoundText.ofText text).analysisInput twoTables {} none
    ∃ statement query result layout, parse text = .ok statement ∧
      statement.kind = .select query ∧ statement.analyze input = .ok result ∧
      result.layout = some layout ∧
      (decompose result.signature.columns layout []).fields.count 0 = 1 ∧
      (decompose result.signature.columns layout []).fields.count 2 = 1 ∧
      Refers layout [] (contributes result.signature.columns) 0 2 ∧
      ¬Relation.TransGen (Refers layout [] (contributes result.signature.columns)) 2 2 := by
  intro text input
  have hread : isRead text (hasParent input [some 2, none, some 0] 0 2) = true := by
    decide +kernel
  obtain ⟨statement, hparse, htest⟩ := exists_of_isRead hread
  unfold hasParent at htest
  split at htest
  next query result hkind hanalyze =>
    obtain ⟨spec, layout, -, hlayout, -, -, hfields, -, -, hacyclic⟩ :=
      nested_relations hparse hkind hanalyze []
    rw [hlayout] at htest
    simp only [Bool.and_eq_true, beq_iff_eq, Option.any_some, decide_eq_true_eq] at htest
    obtain ⟨horigins, hrefers⟩ := htest
    have hcount : ∀ index source, [some 2, none, some 0][index]? = some (some source) →
        (decompose result.signature.columns layout []).fields.count index = 1 := by
      intro index source hindex
      rw [← horigins, List.getElem?_map] at hindex
      obtain ⟨column, hcolumn, hsource⟩ := Option.map_eq_some_iff.1 hindex
      obtain ⟨origin, horigin, -⟩ := Option.map_eq_some_iff.1 hsource
      exact (hfields index column origin hcolumn horigin).2
    exact ⟨statement, query, result, layout, hparse, hkind, hanalyze, hlayout, hcount 0 2 rfl,
      hcount 2 0 rfl, hrefers, hacyclic 2⟩
  next => cases htest

end Statement

end SqlSignature

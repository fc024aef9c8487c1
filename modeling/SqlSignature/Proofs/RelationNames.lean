import SqlSignature.Proofs.NestedRelations
import SqlSignature.Proofs.ParentPaths
/-!
# SqlSignature.Proofs.RelationNames

The names of relations. A table that occurs once gives its relation its own name; a table that
occurs more than once, or a query in place of a table, gives the name under which it is visible.
Each of the two rules for itself keeps relations apart. Together they do so exactly if no table of
the first kind has the name under which one of the second kind is visible (`Nested.Clash`), and then
the entries of a nested result name one relation each (`Nested.relationName_injective_iff`).
-/

open List

namespace SqlSignature

/-- No two tables are visible under the same name. -/
def Layout.VisiblyDistinct (layout : Layout) : Prop :=
  layout.sources.Pairwise fun a b => Text.sameName a.visible b.visible = false

/-- Result columns come from tables of the layout. -/
def Layout.Covers (layout : Layout) (columns : List ResultColumn) : Prop :=
  ∀ column ∈ columns, ∀ origin, column.origin = some origin →
    origin.source < layout.sources.length

/-- An entry that refers to a relation names one relation. -/
def NestedResult.NamesRelations (r : NestedResult) : Prop :=
  ∀ relation ∈ r.relations, ∀ name cardinality, .relation name cardinality ∈ relation.entries →
    ∃! named, named ∈ r.relations ∧ named.name = name

namespace Nested

/-- Whether the relation of a table has the name of the table. -/
def namedByTable (layout : Layout) (source : LayoutSource) : Bool :=
  !(source.derived || decide (1 <
    (layout.sources.filter fun other => Text.sameName other.table source.table).length))

/-- A table gives its relation the name under which another table is visible, and this one gives
its relation that name, too. -/
def Clash (layout : Layout) (i j : Nat) : Prop :=
  ∃ a b, layout.sources[i]? = some a ∧ layout.sources[j]? = some b ∧
    namedByTable layout a = true ∧ namedByTable layout b = false ∧ a.table = b.visible

variable {layout : Layout} {foreignKeys : List ForeignKey} {columns : List ResultColumn} {i j : Nat}
  {a b : LayoutSource}

theorem relationName_eq (h : layout.sources[i]? = some a) :
    relationName layout i = if namedByTable layout a then a.table else a.visible := by
  unfold relationName namedByTable
  rw [h]
  dsimp only
  cases a.derived || decide (1 <
    (layout.sources.filter fun other => Text.sameName other.table a.table).length) <;> rfl

theorem Clash.ne (h : Clash layout i j) : i ≠ j := by
  obtain ⟨a, b, ha, hb, hfirst, hsecond, -⟩ := h
  rintro rfl
  cases ha.symm.trans hb
  cases hfirst.symm.trans hsecond

theorem Clash.relationName_eq (h : Clash layout i j) :
    relationName layout i = relationName layout j := by
  obtain ⟨a, b, ha, hb, hfirst, hsecond, hname⟩ := h
  rw [Nested.relationName_eq ha, Nested.relationName_eq hb, hfirst, hsecond]
  exact hname

theorem Clash.lt (h : Clash layout i j) :
    i < layout.sources.length ∧ j < layout.sources.length := by
  obtain ⟨a, b, ha, hb, -⟩ := h
  exact ⟨(List.getElem?_eq_some_iff.1 ha).1, (List.getElem?_eq_some_iff.1 hb).1⟩

/-! ### Names kept apart -/

/-- A table that gives its name occurs once. -/
theorem eq_of_namedByTable (hi : layout.sources[i]? = some a) (hj : layout.sources[j]? = some b)
    (hnamed : namedByTable layout a = true) (hsame : Text.sameName b.table a.table = true) :
    i = j := by
  have htwice : ∀ {k l : Nat} {c d : LayoutSource}, k < l → layout.sources[k]? = some c →
      layout.sources[l]? = some d → Text.sameName c.table a.table = true →
      Text.sameName d.table a.table = true → False := by
    intro k l c d hkl hk hl hc hd
    have hfirst : c ∈ layout.sources.take l :=
      mem_of_getElem? (i := k) (by rw [getElem?_take_of_lt hkl, hk])
    have hsecond : d ∈ layout.sources.drop l :=
      mem_of_getElem? (i := 0) (by rw [getElem?_drop, Nat.add_zero, hl])
    have hone : 0 < ((layout.sources.take l).filter
        fun other => Text.sameName other.table a.table).length :=
      length_pos_of_mem (mem_filter.2 ⟨hfirst, hc⟩)
    have htwo : 0 < ((layout.sources.drop l).filter
        fun other => Text.sameName other.table a.table).length :=
      length_pos_of_mem (mem_filter.2 ⟨hsecond, hd⟩)
    simp only [namedByTable, Bool.not_eq_true', Bool.or_eq_false_iff,
      decide_eq_false_iff_not] at hnamed
    rw [← take_append_drop l layout.sources, filter_append, length_append] at hnamed
    omega
  rcases Nat.lt_trichotomy i j with hlt | heq | hgt
  · exact (htwice hlt hi hj (Text.sameName_self _) hsame).elim
  · exact heq
  · exact (htwice hgt hj hi hsame (Text.sameName_self _)).elim

theorem eq_of_visible (hvisible : layout.VisiblyDistinct) (hi : layout.sources[i]? = some a)
    (hj : layout.sources[j]? = some b) (hsame : a.visible = b.visible) : i = j := by
  obtain ⟨hilt, rfl⟩ := List.getElem?_eq_some_iff.1 hi
  obtain ⟨hjlt, rfl⟩ := List.getElem?_eq_some_iff.1 hj
  have hpairwise := pairwise_iff_getElem.1 hvisible
  rcases Nat.lt_trichotomy i j with hlt | heq | hgt
  · have hne := hpairwise i j hilt hjlt hlt
    rw [hsame, Text.sameName_self] at hne
    cases hne
  · exact heq
  · have hne := hpairwise j i hjlt hilt hgt
    rw [hsame, Text.sameName_self] at hne
    cases hne

/-- Two relations have the same name only if the names of their tables clash. -/
theorem clash_of_relationName_eq (hvisible : layout.VisiblyDistinct)
    (hi : i < layout.sources.length) (hj : j < layout.sources.length) (hne : i ≠ j)
    (hname : relationName layout i = relationName layout j) :
    Clash layout i j ∨ Clash layout j i := by
  have ha := getElem?_eq_getElem hi
  have hb := getElem?_eq_getElem hj
  rw [relationName_eq ha, relationName_eq hb] at hname
  cases hfirst : namedByTable layout layout.sources[i] <;>
    cases hsecond : namedByTable layout layout.sources[j] <;>
    simp only [hfirst, hsecond, Bool.false_eq_true, if_true, if_false] at hname
  case false.false => exact absurd (eq_of_visible hvisible ha hb hname) hne
  case false.true => exact .inr ⟨_, _, hb, ha, hsecond, hfirst, hname.symm⟩
  case true.false => exact .inl ⟨_, _, ha, hb, hfirst, hsecond, hname⟩
  case true.true =>
    have hsame : Text.sameName layout.sources[j].table layout.sources[i].table = true := by
      rw [hname, Text.sameName_self]
    exact absurd (eq_of_namedByTable ha hb hfirst hsame) hne

/-! ### Relations by name -/

/-- The relations that a result has under the name of the relation of a table. -/
theorem existsUnique_named_iff {child : Nat} (hchild : contributes columns child = true) :
    (∃! named, named ∈ (decompose columns layout foreignKeys).relations ∧
        named.name = relationName layout child) ↔
      ∀ other, contributes columns other = true →
        relationName layout other = relationName layout child → other = child := by
  have hkeys := keysOf_groupKeys columns
  have hkey : ∀ source, contributes columns source = true →
      ∃ key, (source, key) ∈ groupKeys columns := fun source hsource => by
    obtain ⟨⟨_, key⟩, hmem, rfl⟩ := mem_map.1 (hkeys.mem_map.2 hsource)
    exact ⟨key, hmem⟩
  rw [relations_decompose]
  constructor
  · rintro ⟨named, -, hunique⟩ other hother hname
    obtain ⟨key, hmem⟩ := hkey child hchild
    obtain ⟨otherKey, hotherMem⟩ := hkey other hother
    have hsame : relationAt columns layout foreignKeys (other, otherKey) =
        relationAt columns layout foreignKeys (child, key) :=
      (hunique _ ⟨mem_map_of_mem hotherMem, hname⟩).trans
        (hunique _ ⟨mem_map_of_mem hmem, rfl⟩).symm
    -- the first column of a relation tells its table
    have hgroupKey : otherKey = key := congrArg Relation.groupKey hsame
    subst hgroupKey
    exact eq_of_mem_indicesFrom (mem_of_mem_head? ((hkeys.mem _ _).1 hotherMem))
      (mem_of_mem_head? ((hkeys.mem _ _).1 hmem))
  · intro hapart
    obtain ⟨key, hmem⟩ := hkey child hchild
    refine ⟨_, ⟨mem_map_of_mem hmem, rfl⟩, ?_⟩
    rintro _ ⟨hnamed, hname⟩
    obtain ⟨⟨other, otherKey⟩, hotherMem, rfl⟩ := mem_map.1 hnamed
    have hsource : other = child :=
      hapart other (hkeys.mem_map.1 (mem_map_of_mem hotherMem)) hname
    subst hsource
    rw [inj_on_of_nodup_map hkeys.nodup hotherMem hmem rfl]

/-- The entries of a result name the relations of the tables that have parents. -/
theorem namesRelations_iff : (decompose columns layout foreignKeys).NamesRelations ↔
    ∀ parent child, contributes columns child = true →
      Refers layout foreignKeys (contributes columns) parent child →
      ∀ other, contributes columns other = true →
        relationName layout other = relationName layout child → other = child := by
  constructor
  · intro hnames parent child hchild hrefers
    obtain ⟨⟨_, cardinality⟩, hparent, rfl⟩ := mem_map.1 hrefers
    have hcontributes := (mem_tablesOf_parents.1 hrefers).1
    obtain ⟨table, hmem, htable⟩ :=
      mem_map.1 ((keysOf_groupKeys columns).mem_map.2 hcontributes)
    refine (existsUnique_named_iff hchild).1
      (hnames (relationAt columns layout foreignKeys table) ?_ _ cardinality ?_)
    · rw [relations_decompose]
      exact mem_map_of_mem hmem
    · exact mem_entries.2 (.inr ⟨child, hchild, cardinality, htable ▸ hparent, rfl⟩)
  · intro hapart relation hrelation name cardinality hentry
    rw [relations_decompose] at hrelation
    obtain ⟨table, htable, rfl⟩ := mem_map.1 hrelation
    rcases mem_entries.1 hentry with ⟨_, _, _, _, heq⟩ | ⟨child, hchild, _, hparent, heq⟩
    · cases heq
    · cases heq
      exact (existsUnique_named_iff hchild).2
        (hapart table.1 child hchild (mem_map_of_mem hparent))

/-- Relations of different tables have different names exactly if no names clash. An entry that
refers to a relation names one relation exactly if the name of its table does not clash with that of
a table that contributes. -/
theorem relationName_injective_iff (hvisible : layout.VisiblyDistinct) :
    ((∀ i j, i < layout.sources.length → j < layout.sources.length →
        relationName layout i = relationName layout j → i = j) ↔ ∀ i j, ¬Clash layout i j) ∧
    ∀ columns foreignKeys, layout.Covers columns →
      ((decompose columns layout foreignKeys).NamesRelations ↔
        ∀ parent child other, contributes columns child = true → contributes columns other = true →
          Refers layout foreignKeys (contributes columns) parent child →
          ¬Clash layout child other ∧ ¬Clash layout other child) := by
  have hsame : ∀ {i j}, Clash layout i j ∨ Clash layout j i →
      i ≠ j ∧ relationName layout i = relationName layout j := by
    rintro i j (h | h)
    · exact ⟨h.ne, h.relationName_eq⟩
    · exact ⟨h.ne.symm, h.relationName_eq.symm⟩
  refine ⟨⟨fun hinjective i j hclash => ?_, fun hclash i j hi hj hname => ?_⟩,
    fun columns foreignKeys hcovers => namesRelations_iff.trans ⟨?_, ?_⟩⟩
  · exact hclash.ne (hinjective i j hclash.lt.1 hclash.lt.2 hclash.relationName_eq)
  · refine Classical.byContradiction fun hne => ?_
    rcases clash_of_relationName_eq hvisible hi hj hne hname with h | h
    · exact hclash i j h
    · exact hclash j i h
  · intro hapart parent child other hchild hother hrefers
    have hnot : ¬(Clash layout child other ∨ Clash layout other child) := fun h =>
      (hsame h).1 (hapart parent child hchild hrefers other hother (hsame h).2.symm).symm
    exact not_or.1 hnot
  · intro hclash parent child hchild hrefers other hother hname
    have hlt : ∀ source, contributes columns source = true → source < layout.sources.length := by
      intro source hsource
      obtain ⟨column, hcolumn, hfrom⟩ := List.any_eq_true.1 hsource
      obtain ⟨origin, horigin, rfl⟩ := ResultColumn.comesFrom_iff.1 hfrom
      exact hcovers column hcolumn origin horigin
    have hnot := not_or.2 (hclash parent child other hchild hother hrefers)
    refine Classical.byContradiction fun hne => hnot ?_
    exact clash_of_relationName_eq hvisible (hlt child hchild) (hlt other hother) (Ne.symm hne)
      hname.symm

/-- Tables that are joined to the first one by their keys, each under its name and the name it is
visible under. -/
def joinedToFirst (tables : List (String × String)) : Layout where
  sources := tables.map fun (table, visible) => ⟨visible, table, false, [("id", .primary)], ""⟩
  links := (List.range tables.length).tail.map fun child => ⟨child, "id", 0, "id"⟩
  items := []
  conjuncts := []

/-- One result column of each table. -/
def columnOfEach (layout : Layout) : List ResultColumn :=
  layout.sources.zipIdx.map fun (source, index) =>
    ⟨"id", .single .int, true, some ⟨index, source.table, source.visible, "id"⟩, "id"⟩

theorem covers_columnOfEach (layout : Layout) : layout.Covers (columnOfEach layout) := by
  intro column hcolumn origin horigin
  obtain ⟨⟨source, index⟩, hmem, rfl⟩ := mem_map.1 hcolumn
  cases horigin
  exact (List.getElem?_eq_some_iff.1 (List.mem_zipIdx_iff_getElem?.1 hmem)).1

/-- Whether no names clash. -/
def isClashFree (layout : Layout) : Bool :=
  layout.sources.all fun a => layout.sources.all fun b =>
    !(namedByTable layout a && !namedByTable layout b && a.table == b.visible)

theorem not_clash_of_isClashFree (h : isClashFree layout = true) (i j : Nat) :
    ¬Clash layout i j := by
  rintro ⟨a, b, ha, hb, hfirst, hsecond, hname⟩
  have hpair := all_eq_true.1 (all_eq_true.1 h a (mem_of_getElem? ha)) b
    (mem_of_getElem? hb)
  simp [hfirst, hsecond, hname] at hpair

/-- In `FROM a AS b JOIN b AS a JOIN c AS x JOIN c AS y` the first two tables keep their names and
the others have those they are visible under, so that each entry names one relation. -/
theorem relationName_injective_iff_swapped :
    let layout := joinedToFirst [("a", "b"), ("b", "a"), ("c", "x"), ("c", "y")]
    layout.VisiblyDistinct ∧ layout.Covers (columnOfEach layout) ∧
      (∀ i j, i < layout.sources.length → j < layout.sources.length →
        relationName layout i = relationName layout j → i = j) ∧
      Refers layout [] (contributes (columnOfEach layout)) 0 3 ∧
      (decompose (columnOfEach layout) layout []).NamesRelations := by
  intro layout
  have hvisible : layout.VisiblyDistinct := by
    unfold Layout.VisiblyDistinct
    decide +kernel
  have hrefers : Refers layout [] (contributes (columnOfEach layout)) 0 3 := by
    unfold Refers
    decide +kernel
  have hfree : ∀ i j, ¬Clash layout i j := not_clash_of_isClashFree (by decide +kernel)
  have hcovers := covers_columnOfEach layout
  obtain ⟨hinjective, hnames⟩ := relationName_injective_iff hvisible
  exact ⟨hvisible, hcovers, hinjective.2 hfree, hrefers, (hnames _ _ hcovers).2
    fun _ child other _ _ _ => ⟨hfree child other, hfree other child⟩⟩

/-- In `FROM a AS x JOIN a AS b JOIN b AS y` the first table occurs twice, so that its second
occurrence has the name it is visible under; the last table occurs once, and its own name is the
same. -/
theorem alias_takes_table_name :
    let layout := joinedToFirst [("a", "x"), ("a", "b"), ("b", "y")]
    layout.VisiblyDistinct ∧ layout.Covers (columnOfEach layout) ∧
      relationName layout 1 = relationName layout 2 ∧
      (decompose (columnOfEach layout) layout []).relations.map Relation.name = ["x", "b", "b"] ∧
      ¬(decompose (columnOfEach layout) layout []).NamesRelations := by
  intro layout
  have hvisible : layout.VisiblyDistinct := by
    unfold Layout.VisiblyDistinct
    decide +kernel
  have hname : relationName layout 1 = relationName layout 2 := by decide +kernel
  have hrefers : Refers layout [] (contributes (columnOfEach layout)) 0 1 := by
    unfold Refers
    decide +kernel
  refine ⟨hvisible, covers_columnOfEach layout, hname, by decide +kernel, fun hnames => ?_⟩
  cases namesRelations_iff.1 hnames 0 1 rfl hrefers 2 rfl hname.symm

end Nested

end SqlSignature

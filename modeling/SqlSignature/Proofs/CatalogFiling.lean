import SqlSignature.Proofs.CatalogHistory
import SqlSignature.Proofs.Ensures
/-!
# SqlSignature.Proofs.CatalogFiling

Where a catalog keeps its columns. The columns of a list end up in the tables that their file names
tell, in order (`Catalog.filed_ofColumns`). A file name is put together from a schema and a table
with a point in between, so it does not tell the two apart if there are points in them: the table
`b.c` of the schema `a` and the table `c` of the schema `a.b` are filed under one name.
`Catalog.kept_apart_iff` says that this is all that can go wrong. The document of a catalog lists
the columns table by table, so a catalog that is made from the document files them as before
(`Catalog.ofDocument_toDocument`).
-/

open List

namespace SqlSignature

namespace Catalog

variable {c c' : Catalog} {column : Column} {columns : List Column} {tables tables' : List Table}

/-! ### Columns by the names of their files -/

/-- The columns of the table that is filed under a name. -/
def filed (tables : List Table) (file : String) : List Column :=
  ((tables.find? (isFiledUnder · file)).map Table.columns).getD []

theorem Entered.filed (h : Entered column tables tables') (file : String) :
    filed tables' file = filed tables file ++ if column.file = file then [column] else [] := by
  unfold Catalog.filed
  cases h with
  | opened hnew =>
    rw [find?_append]
    by_cases hfile : column.file = file
    · subst hfile
      simp [find?_new hnew, isFiledUnder_iff]
    · have hother : isFiledUnder (.ofColumn column) file = false := isFiledUnder_eq_false.2 hfile
      simp [hfile, hother]
  | @extended before behind t hbefore hfiled hnew =>
    by_cases hfile : column.file = file
    · subst hfile
      rw [find?_filed hbefore hfiled,
        find?_filed hbefore (show (t.push column).file = _ from hfiled)]
      simp
    · have hother : isFiledUnder t file = false :=
        isFiledUnder_eq_false.2 fun h => hfile (hfiled.symm.trans h)
      have hpushed : isFiledUnder (t.push column) file = false := hother
      simp [hfile, hother, hpushed]

theorem changed_eq_ok {change : Change Unit} :
    c.changed change = .ok c' ↔ change c = .ok () c' := by
  unfold changed
  cases change c with
  | ok u c₁ => simp
  | error e c₁ => simp

theorem filed_forM {u : PUnit} (h : columns.forM enterColumn c = .ok u c') (file : String) :
    filed c'.tables file = filed c.tables file ++ columns.filter (·.file = file) := by
  induction columns generalizing c with
  | nil =>
    cases h
    simp
  | cons column rest ih =>
    obtain ⟨_, c₁, henter, hrest⟩ := bind_eq_ok.1 h
    obtain ⟨tables, hentered, rfl⟩ := enterColumn_eq_ok.1 henter
    rw [ih hrest, hentered.filed, append_assoc, filter_cons]
    by_cases hfile : column.file = file <;> simp [hfile]

/-- The columns of a list are filed by the names of their tables, in order. -/
theorem filed_ofColumns (h : ofColumns columns = .ok c) (file : String) :
    filed c.tables file = columns.filter (·.file = file) :=
  filed_forM (changed_eq_ok.1 h) file

/-! ### Names with points -/

/-- Whether the point before a table lies inside the schema of another, to the right of the point
before the table of that one: `a.b` and `c` against `a` and `b.c`. -/
def Straddles (schema table schema' table' : String) : Prop :=
  ∃ middle, Text.lower schema = Text.lower schema' ++ "." ++ middle ∧
    Text.lower table' = middle ++ "." ++ Text.lower table

/-- A text that goes on with a point, after one that may end earlier. -/
theorem eq_or_exists_middle {a b a' b' : String} {rest : List Char}
    (ha : a'.toList = a.toList ++ rest) (hb : '.' :: b.toList = rest ++ '.' :: b'.toList) :
    (a = a' ∧ b = b') ∨ ∃ middle, a' = a ++ "." ++ middle ∧ b = middle ++ "." ++ b' := by
  cases rest with
  | nil =>
    left
    rw [append_nil] at ha
    exact ⟨(String.toList_injective ha).symm, String.toList_injective (List.cons.inj hb).2⟩
  | cons point middle =>
    right
    obtain ⟨rfl, hb⟩ := List.cons.inj hb
    refine ⟨String.ofList middle, String.toList_injective ?_, String.toList_injective ?_⟩
    · simpa using ha
    · simpa using hb

/-- Texts that are put together with a point in between. -/
theorem append_point_eq_iff {a b a' b' : String} : a ++ "." ++ b = a' ++ "." ++ b' ↔
    (a = a' ∧ b = b') ∨ (∃ middle, a = a' ++ "." ++ middle ∧ b' = middle ++ "." ++ b) ∨
      ∃ middle, a' = a ++ "." ++ middle ∧ b = middle ++ "." ++ b' := by
  constructor
  · intro h
    have hlist : a.toList ++ '.' :: b.toList = a'.toList ++ '.' :: b'.toList := by
      simpa using congrArg String.toList h
    rcases append_eq_append_iff.1 hlist with ⟨rest, ha, hb⟩ | ⟨rest, ha, hb⟩
    · exact (eq_or_exists_middle ha hb).imp_right .inr
    · exact (eq_or_exists_middle ha hb).imp (fun h => ⟨h.1.symm, h.2.symm⟩) .inl
  · rintro (⟨rfl, rfl⟩ | ⟨middle, rfl, rfl⟩ | ⟨middle, rfl, rfl⟩)
    · rfl
    · simp [String.append_assoc]
    · simp [String.append_assoc]

/-- Whether points in the names of two tables stand so that both are filed under one name. -/
def Confused (schema table schema' table' : String) : Prop :=
  Straddles schema table schema' table' ∨ Straddles schema' table' schema table

variable {schema : String} {keys : List ForeignKey}

/-- Tables that are filed under one name have the same names, or are confused. -/
theorem fileName_eq_iff {table schema' table' : String} :
    fileName schema table = fileName schema' table' ↔
      (Text.sameName schema schema' ∧ Text.sameName table table') ∨
        Confused schema table schema' table' := by
  rw [Text.sameName_iff, Text.sameName_iff]
  exact append_point_eq_iff

theorem Straddles.lower_ne {table schema' table' : String}
    (h : Straddles schema table schema' table') : Text.lower schema ≠ Text.lower schema' := by
  obtain ⟨middle, hschema, -⟩ := h
  rw [hschema]
  intro heq
  have hlength := congrArg String.length heq
  rw [String.length_append, String.length_append, show ".".length = 1 from rfl] at hlength
  omega

/-- Whether a column is one of a table, by the names of the schema and of the table. -/
def isColumnOf (schema table : String) (column : Column) : Bool :=
  Text.sameName column.schema schema && Text.sameName column.table table

theorem Confused.not_isColumnOf {table : String}
    (h : Confused column.schema column.table schema table) :
    isColumnOf schema table column = false := by
  have hschema : Text.lower column.schema ≠ Text.lower schema := by
    rcases h with h | h
    · exact h.lower_ne
    · exact h.lower_ne.symm
  simp [isColumnOf, Text.sameName, hschema]

/-- A table that was named in a list of columns has the columns that are filed under its names. -/
theorem exists_table (h : ofColumns columns = .ok c) {d : Column} (hd : d ∈ columns) :
    ∃ t, c.table? (some d.schema) d.table = some t ∧
      t.columns = columns.filter (·.file = d.file) := by
  have hfiled := filed_ofColumns h d.file
  unfold filed at hfiled
  rw [← table?_column] at hfiled
  cases hfound : c.table? (some d.schema) d.table with
  | some t =>
    rw [hfound] at hfiled
    exact ⟨t, rfl, hfiled⟩
  | none =>
    rw [hfound] at hfiled
    have hmem : d ∈ columns.filter (·.file = d.file) := mem_filter.2 ⟨hd, by simp⟩
    rw [← hfiled] at hmem
    cases hmem

/-- **When a catalog keeps tables apart.** A table that a list of columns names has exactly the
columns of the list with the names of the table and its schema, in order, if and only if no other
table of the list is confused with it. -/
theorem kept_apart_iff (h : ofColumns columns = .ok c) {d : Column} (hd : d ∈ columns) :
    (∃ t, c.table? (some d.schema) d.table = some t ∧
      t.columns = columns.filter (isColumnOf d.schema d.table)) ↔
    ∀ e ∈ columns, ¬Confused e.schema e.table d.schema d.table := by
  obtain ⟨t, ht, hcolumns⟩ := exists_table h hd
  constructor
  · rintro ⟨_, ht', hfilter⟩ e he hconfused
    obtain rfl := Option.some.inj (ht.symm.trans ht')
    have hfile : e.file = d.file := fileName_eq_iff.2 (.inr hconfused)
    have hmem : e ∈ t.columns := by
      rw [hcolumns]
      exact List.mem_filter.2 ⟨he, by simpa using hfile⟩
    rw [hfilter] at hmem
    exact Bool.false_ne_true (hconfused.not_isColumnOf.symm.trans (List.mem_filter.1 hmem).2)
  · intro hapart
    refine ⟨t, ht, hcolumns.trans (List.filter_congr fun e he => ?_)⟩
    have hiff : e.file = d.file ↔ isColumnOf d.schema d.table e = true := by
      rw [isColumnOf, Bool.and_eq_true]
      exact fileName_eq_iff.trans (or_iff_left (hapart e he))
    rw [Bool.eq_iff_iff, decide_eq_true_iff, hiff]

/-- The columns of two tables `t` in turns, with a point in the name of one schema. -/
theorem kept_apart_iff_schemas :
    let columns :=
      [integerColumn "a" "t" "x", integerColumn "a.b" "t" "x", integerColumn "a" "t" "y"]
    ∃ c t, ofColumns columns = .ok c ∧ c.table? (some "a") "t" = some t ∧
      t.columns = [integerColumn "a" "t" "x", integerColumn "a" "t" "y"] := by
  intro columns
  have hok : ofColumns columns = .ok ⟨[⟨"a", "t", [integerColumn "a" "t" "x",
      integerColumn "a" "t" "y"]⟩, ⟨"a.b", "t", [integerColumn "a.b" "t" "x"]⟩], []⟩ :=
    eq_ok_of_toOption (by decide +kernel)
  have hfiles : ∀ e ∈ columns, e.file = fileName "a" "t" → isColumnOf "a" "t" e = true := by
    decide +kernel
  have hapart : ∀ e ∈ columns, ¬Confused e.schema e.table "a" "t" := fun e he hconfused =>
    Bool.false_ne_true
      (hconfused.not_isColumnOf.symm.trans (hfiles e he (fileName_eq_iff.2 (.inr hconfused))))
  obtain ⟨t, ht, hcolumns⟩ :=
    (kept_apart_iff hok (d := integerColumn "a" "t" "x") (.head _)).2 hapart
  exact ⟨_, t, hok, ht, hcolumns.trans (by decide +kernel)⟩

/-- The table `c` of the schema `a.b` also has the column of the table `b.c` of the schema `a`. -/
theorem point_in_name_merges :
    let columns := [integerColumn "a.b" "c" "x", integerColumn "a" "b.c" "y"]
    ∃ c, ofColumns columns = .ok c ∧ (c.table? (some "a.b") "c").map Table.columns = some columns ∧
      ¬∃ t, c.table? (some "a.b") "c" = some t ∧
        t.columns = columns.filter (isColumnOf "a.b" "c") := by
  intro columns
  have hok : ofColumns columns = .ok ⟨[⟨"a.b", "c", columns⟩], []⟩ :=
    eq_ok_of_toOption (by decide +kernel)
  have hmerged : (Catalog.table? ⟨[⟨"a.b", "c", columns⟩], []⟩ (some "a.b") "c").map Table.columns =
      some columns := by
    decide +kernel
  refine ⟨_, hok, hmerged, ?_⟩
  rintro ⟨t, ht, hcolumns⟩
  rw [ht, Option.map_some, hcolumns] at hmerged
  exact absurd (congrArg (Option.map List.length) hmerged) (by decide +kernel)

/-! ### Loading a catalog again -/

/-- The rest of the columns of the last table. -/
theorem forM_rest (keys : List ForeignKey) {before : List Table} {t : Table} {rest : List Column}
    (hbefore : ∀ b ∈ before, b.file ≠ t.file) (hfiled : ∀ d ∈ rest, d.file = t.file)
    (hdistinct : (t.columns ++ rest).Pairwise fun a b => Text.sameName a.name b.name = false) :
    rest.forM enterColumn ⟨before ++ [t], keys⟩ =
      .ok () ⟨before ++ [{ t with columns := t.columns ++ rest }], keys⟩ := by
  induction rest generalizing t with
  | nil => simp [pure, EStateM.pure]
  | cons d rest ih =>
    obtain ⟨hfile, hfiled⟩ := forall_mem_cons.1 hfiled
    have hnew : t.column? d.name = none := by
      refine Table.column?_eq_none.2 fun a ha => ?_
      exact (pairwise_append.1 hdistinct).2.2 a ha d mem_cons_self
    have hentered : Entered d (before ++ [t]) (before ++ [t.push d]) :=
      .extended (fun b hb => hfile ▸ hbefore b hb) hfile.symm hnew
    refine bind_eq_ok.2 ⟨(), _, enterColumn_eq_ok.2 ⟨_, hentered, rfl⟩, ?_⟩
    rw [show t.columns ++ d :: rest = (t.push d).columns ++ rest by simp]
    exact ih hbefore hfiled (by simpa using hdistinct)

/-- The columns of a table open the table again, with the names that it had. -/
theorem forM_table {before : List Table} {t : Table} (ht : t.Sound)
    (hbefore : ∀ b ∈ before, b.file ≠ t.file) :
    t.columns.forM enterColumn ⟨before, keys⟩ = .ok () ⟨before ++ [t], keys⟩ := by
  obtain ⟨first, rest, hcolumns, hschema, hname⟩ := ht.headed
  have hfiled := ht.filed
  have hdistinct := ht.distinct
  have hfile : (Table.ofColumn first).file = t.file := by
    rw [Table.file_ofColumn, hfiled first (by simp [hcolumns])]
  have hrest := forM_rest keys (fun b hb => hfile ▸ hbefore b hb)
    (fun d hd => hfile ▸ hfiled d (hcolumns ▸ mem_cons_of_mem _ hd))
    (by simpa [hcolumns] using hdistinct)
  have hback : { Table.ofColumn first with columns := [first] ++ rest } = t := by
    obtain ⟨schema, name, columns⟩ := t
    subst hcolumns hschema hname
    rfl
  rw [Table.columns_ofColumn, hback] at hrest
  have hnew : ∀ b ∈ before, b.file ≠ first.file := fun b hb heq => hbefore b hb (heq.trans hfile)
  rw [hcolumns]
  exact bind_eq_ok.2 ⟨(), _, enterColumn_new hnew, hrest⟩

/-- Tables come back in order. -/
theorem forM_tables (before : List Table) (hsound : ∀ t ∈ tables, t.Sound)
    (hapart : ((before ++ tables).map Table.file).Nodup) :
    (tables.flatMap Table.columns).forM enterColumn ⟨before, keys⟩ =
      .ok () ⟨before ++ tables, keys⟩ := by
  induction tables generalizing before with
  | nil => simp [pure, EStateM.pure]
  | cons t tables ih =>
    obtain ⟨ht, htables⟩ := forall_mem_cons.1 hsound
    have hbefore : ∀ b ∈ before, b.file ≠ t.file := by
      intro b hb heq
      rw [map_append, nodup_append] at hapart
      exact hapart.2.2 b.file (mem_map_of_mem hb) t.file (by simp) heq
    have happend : (t.columns ++ tables.flatMap Table.columns).forM enterColumn =
        t.columns.forM enterColumn >>= fun _ => (tables.flatMap Table.columns).forM enterColumn :=
      forM_append
    rw [flatMap_cons, happend, append_cons]
    exact bind_eq_ok.2 ⟨(), _, forM_table ht hbefore, ih _ htables (by simpa using hapart)⟩

/-- Foreign keys come back in order, if what they speak of is there. -/
theorem forM_foreignKeys (hkeys : ∀ fk ∈ keys,
    (c.endpoint? fk.table fk.column).isSome ∧ (c.endpoint? fk.refTable fk.refColumn).isSome) :
    keys.forM enterForeignKey c = .ok () { c with foreignKeys := c.foreignKeys ++ keys } := by
  induction keys generalizing c with
  | nil => simp [pure, EStateM.pure]
  | cons fk keys ih =>
    obtain ⟨hfk, hkeys⟩ := forall_mem_cons.1 hkeys
    refine bind_eq_ok.2 ⟨(), { c with foreignKeys := c.foreignKeys ++ [fk] }, ?_, ?_⟩
    · rw [enterForeignKey_eq, if_pos hfk]
    · rw [append_cons c.foreignKeys fk keys]
      exact ih (c := { c with foreignKeys := c.foreignKeys ++ [fk] }) hkeys

/-- A catalog that was built by additions can be loaded again. -/
theorem Sound.reload (h : c.Sound) : ofDocument c.toDocument = .ok c := by
  have hcolumns : ofColumns c.toDocument.columns = .ok ⟨c.tables, []⟩ :=
    changed_eq_ok.2 (forM_tables [] h.tables h.apart)
  have hkeys := forM_foreignKeys (c := ⟨c.tables, []⟩) h.references
  rw [ofDocument, hcolumns]
  exact changed_eq_ok.2 hkeys

theorem Sound.forM {α : Type} (addition : α → Addition) {u : PUnit} {as : List α} (h : c.Sound)
    (hrun : as.forM (fun a => (addition a).enter) c = .ok u c') : c'.Sound := by
  induction as generalizing c with
  | nil =>
    cases hrun
    exact h
  | cons a as ih =>
    obtain ⟨_, c₁, hfirst, hrest⟩ := bind_eq_ok.1 hrun
    exact ih (after_of_ok hfirst ▸ h.after (addition a)) hrest

theorem sound_ofDocument {d : Document} (h : ofDocument d = .ok c) : c.Sound := by
  unfold ofDocument at h
  cases hcolumns : ofColumns d.columns with
  | error e =>
    rw [hcolumns] at h
    cases h
  | ok first =>
    rw [hcolumns] at h
    have hfirst : first.Sound := sound_empty.forM .column (changed_eq_ok.1 hcolumns)
    exact hfirst.forM .foreignKey (changed_eq_ok.1 h)

/-- **A catalog is loaded again from its document.** The document lists the columns table by table,
so the columns may come in another order than in the document that the catalog was loaded from.
Still the same tables, columns and foreign keys come back in the same order. -/
theorem ofDocument_toDocument {d : Document} (h : ofDocument d = .ok c) :
    ∃ reloaded, ofDocument c.toDocument = .ok reloaded ∧ reloaded = c ∧
      reloaded.toDocument = c.toDocument :=
  ⟨c, (sound_ofDocument h).reload, rfl, rfl⟩

/-- Columns of two tables in turns, which the document of the catalog lists in another order. -/
theorem ofDocument_toDocument_turns :
    let d : Document := ⟨[integerColumn "" "t" "x", integerColumn "a" "u" "x",
      integerColumn "" "t" "y"], [⟨"t", "y", "u", "x"⟩, ⟨"u", "x", "t", "x"⟩]⟩
    ∃ c reloaded, ofDocument d = .ok c ∧ c.toDocument ≠ d ∧
      ofDocument c.toDocument = .ok reloaded ∧ reloaded = c := by
  intro d
  have hok : ofDocument d = .ok ⟨[⟨"", "t", [integerColumn "" "t" "x", integerColumn "" "t" "y"]⟩,
      ⟨"a", "u", [integerColumn "a" "u" "x"]⟩], [⟨"t", "y", "u", "x"⟩, ⟨"u", "x", "t", "x"⟩]⟩ :=
    eq_ok_of_toOption (by decide +kernel)
  obtain ⟨reloaded, hreloaded, heq, -⟩ := ofDocument_toDocument hok
  exact ⟨_, reloaded, hok, by decide +kernel, hreloaded, heq⟩

end Catalog

end SqlSignature

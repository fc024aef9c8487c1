import SqlSignature.Catalog
/-!
# SqlSignature.Proofs.CatalogHistory

What holds of a catalog after any number of additions, of which some may have been refused
(`Catalog.additions_sound`). The table of a column is opened before the name of the column is
compared with those in the table; still a column that is refused leaves no trace, since a table that
has just been opened has no columns to compare with.
-/

open List

namespace SqlSignature

/-- The name under which the table of a column is filed. -/
def Column.file (c : Column) : String := Catalog.fileName c.schema c.table

namespace Table

/-- The name under which a table is filed. -/
def file (t : Table) : String := Catalog.fileName t.schema t.name

/-- The table that a column opens. -/
def ofColumn (c : Column) : Table := { schema := c.schema, name := c.table, columns := [c] }

/-- The table with another column at the end. -/
def push (t : Table) (c : Column) : Table := { t with columns := t.columns ++ [c] }

@[simp] theorem file_ofColumn (c : Column) : (ofColumn c).file = c.file := rfl

@[simp] theorem columns_ofColumn (c : Column) : (ofColumn c).columns = [c] := rfl

@[simp] theorem file_push (t : Table) (c : Column) : (t.push c).file = t.file := rfl

@[simp] theorem name_push (t : Table) (c : Column) : (t.push c).name = t.name := rfl

@[simp] theorem columns_push (t : Table) (c : Column) : (t.push c).columns = t.columns ++ [c] := rfl

theorem column?_eq_none {t : Table} {name : String} :
    t.column? name = none ↔ ∀ c ∈ t.columns, Text.sameName c.name name = false := by
  simp [column?]

/-- A table that was built column by column: the first column gave the table its names, all belong
to the table, and no two have one name. -/
structure Sound (t : Table) : Prop where
  headed : ∃ first rest, t.columns = first :: rest ∧ t.schema = first.schema ∧ t.name = first.table
  filed : ∀ c ∈ t.columns, c.file = t.file
  distinct : t.columns.Pairwise fun a b => Text.sameName a.name b.name = false

theorem sound_ofColumn (c : Column) : (ofColumn c).Sound where
  headed := ⟨c, [], rfl, rfl, rfl⟩
  filed := by simp
  distinct := pairwise_singleton _ _

theorem Sound.push {t : Table} {c : Column} (h : t.Sound) (hfile : t.file = c.file)
    (hnew : t.column? c.name = none) : (t.push c).Sound where
  headed := by
    obtain ⟨first, rest, hcolumns, hschema, hname⟩ := h.headed
    exact ⟨first, rest ++ [c], by simp [hcolumns], hschema, hname⟩
  filed := forall_mem_append.2 ⟨h.filed, by simp [file_push, hfile]⟩
  distinct := by
    rw [columns_push, pairwise_append]
    refine ⟨h.distinct, pairwise_singleton _ _, ?_⟩
    intro a ha b hb
    rw [mem_singleton.1 hb]
    exact column?_eq_none.1 hnew a ha

end Table

namespace Catalog

variable {c c' : Catalog} {column : Column} {tables tables' before behind : List Table} {t : Table}
  {file : String}

/-! ### Entering a column -/

theorem isFiledUnder_iff : isFiledUnder t file = true ↔ t.file = file := by
  simp [isFiledUnder, Table.file]

theorem isFiledUnder_eq_false : isFiledUnder t file = false ↔ t.file ≠ file := by
  rw [← Bool.not_eq_true, isFiledUnder_iff]

/-- Either no table is filed under a name, or there is a first one. -/
theorem new_or_filed (tables : List Table) (file : String) :
    (∀ t ∈ tables, t.file ≠ file) ∨ ∃ before t behind, tables = before ++ t :: behind ∧
      (∀ b ∈ before, b.file ≠ file) ∧ t.file = file := by
  cases hfind : tables.find? (isFiledUnder · file) with
  | none =>
    left
    simpa [isFiledUnder_eq_false] using hfind
  | some t =>
    right
    obtain ⟨hfile, before, behind, htables, hbefore⟩ := find?_eq_some_iff_append.1 hfind
    refine ⟨before, t, behind, htables, ?_, isFiledUnder_iff.1 hfile⟩
    simpa [isFiledUnder_eq_false] using hbefore

theorem find?_new (hnew : ∀ t ∈ tables, t.file ≠ file) :
    tables.find? (isFiledUnder · file) = none := by
  simpa [isFiledUnder_eq_false] using hnew

theorem find?_filed (hbefore : ∀ b ∈ before, b.file ≠ file) (hfile : t.file = file) :
    (before ++ t :: behind).find? (isFiledUnder · file) = some t := by
  refine find?_eq_some_iff_append.2 ⟨isFiledUnder_iff.2 hfile, before, behind, rfl, ?_⟩
  simpa [isFiledUnder_eq_false] using hbefore

theorem putColumn_filed (hbefore : ∀ b ∈ before, b.file ≠ file) (hfile : t.file = file) :
    putColumn file column (before ++ t :: behind) = before ++ t.push column :: behind := by
  induction before with
  | nil => simp [putColumn, isFiledUnder_iff.2 hfile, Table.push]
  | cons b before ih =>
    obtain ⟨hb, hbefore⟩ := forall_mem_cons.1 hbefore
    simp [putColumn, isFiledUnder_eq_false.2 hb, ih hbefore]

theorem table?_column (c : Catalog) (column : Column) :
    c.table? (some column.schema) column.table = c.tables.find? (isFiledUnder · column.file) := rfl

/-- The first column of a table opens the table. -/
theorem enterColumn_new (hnew : ∀ t ∈ c.tables, t.file ≠ column.file) :
    enterColumn column c = .ok () { c with tables := c.tables ++ [.ofColumn column] } := by
  let opened : Table := { schema := column.schema, name := column.table, columns := [] }
  have hopen : openTable column.schema column.table c =
      { c with tables := c.tables ++ [opened] } := by
    simp [openTable, table?_column, find?_new hnew, opened]
  have hname : ({ c with tables := c.tables ++ [opened] } : Catalog).namesake? column = none := by
    rw [namesake?, table?_column, find?_filed (t := opened) hnew rfl]
    rfl
  show (if ((openTable column.schema column.table c).namesake? column).isSome then _ else _ :
    Change Unit) (openTable column.schema column.table c) = _
  rw [hopen, hname]
  show EStateM.Result.ok ()
    { c with tables := putColumn column.file column (c.tables ++ [opened]) } = _
  rw [putColumn_filed hnew rfl]
  rfl

section

variable (htables : c.tables = before ++ t :: behind)
  (hbefore : ∀ b ∈ before, b.file ≠ column.file) (hfile : t.file = column.file)

include htables hbefore hfile

theorem namesake?_filed : c.namesake? column = t.column? column.name := by
  rw [namesake?, table?_column, htables, find?_filed hbefore hfile]
  rfl

/-- A column goes to the end of its table, unless the table has one of that name. -/
theorem enterColumn_filed :
    enterColumn column c =
      if (c.namesake? column).isSome then .error (.duplicateColumn column.table column.name) c
      else .ok () { c with tables := before ++ t.push column :: behind } := by
  have hopen : openTable column.schema column.table c = c := by
    simp [openTable, table?_column, htables, find?_filed hbefore hfile]
  show (if ((openTable column.schema column.table c).namesake? column).isSome then _ else _ :
    Change Unit) (openTable column.schema column.table c) = _
  rw [hopen]
  cases (c.namesake? column).isSome with
  | true => rfl
  | false =>
    show EStateM.Result.ok () { c with tables := putColumn column.file column c.tables } = _
    rw [htables, putColumn_filed hbefore hfile]
    rfl

end

/-- What a column that is accepted does to the tables. -/
inductive Entered (column : Column) : List Table → List Table → Prop
  | opened {tables : List Table} (hnew : ∀ t ∈ tables, t.file ≠ column.file) :
    Entered column tables (tables ++ [.ofColumn column])
  | extended {before behind : List Table} {t : Table} (hbefore : ∀ b ∈ before, b.file ≠ column.file)
    (hfile : t.file = column.file) (hnew : t.column? column.name = none) :
    Entered column (before ++ t :: behind) (before ++ t.push column :: behind)

theorem enterColumn_eq_ok {u : Unit} : enterColumn column c = .ok u c' ↔
    ∃ tables, Entered column c.tables tables ∧ c' = { c with tables } := by
  constructor
  · intro h
    rcases new_or_filed c.tables column.file with
      hnew | ⟨before, t, behind, htables, hbefore, hfile⟩
    · rw [enterColumn_new hnew] at h
      cases h
      exact ⟨_, .opened hnew, rfl⟩
    · rw [enterColumn_filed htables hbefore hfile, namesake?_filed htables hbefore hfile] at h
      split at h
      · cases h
      next hname =>
        cases h
        exact ⟨_, htables ▸ .extended hbefore hfile (by simpa using hname), rfl⟩
  · rintro ⟨tables, hentered, rfl⟩
    cases c with
    | mk old keys =>
      cases hentered with
      | opened hnew => exact enterColumn_new hnew
      | extended hbefore hfile hnew =>
        rw [enterColumn_filed rfl hbefore hfile, namesake?_filed rfl hbefore hfile, hnew]
        rfl

/-- A column is refused if its table has one of that name. It leaves no trace then. -/
theorem enterColumn_eq_error {e : CatalogError} : enterColumn column c = .error e c' ↔
    (c.namesake? column).isSome ∧ e = .duplicateColumn column.table column.name ∧ c' = c := by
  rcases new_or_filed c.tables column.file with hnew | ⟨before, t, behind, htables, hbefore, hfile⟩
  · simp [enterColumn_new hnew, namesake?, table?_column, find?_new hnew]
  · rw [enterColumn_filed htables hbefore hfile]
    split
    next hname => simp [hname, eq_comm]
    next hname => simp [hname]

/-! ### Entering a foreign key -/

theorem enterForeignKey_eq (fk : ForeignKey) (c : Catalog) : enterForeignKey fk c =
    if (c.endpoint? fk.table fk.column).isSome ∧ (c.endpoint? fk.refTable fk.refColumn).isSome then
      .ok () { c with foreignKeys := c.foreignKeys ++ [fk] }
    else .error (.invalidReference fk) c := by
  unfold enterForeignKey
  show (if !_ || !_ then _ else _ : Change Unit) c = _
  cases (c.endpoint? fk.table fk.column).isSome <;>
    cases (c.endpoint? fk.refTable fk.refColumn).isSome <;> rfl

/-! ### What additions keep -/

section

variable (h : Entered column tables tables')

include h

/-- The first table with a name stays the first, and its columns stay at its beginning. -/
theorem Entered.find?_name {name : String}
    (hfound : tables.find? (fun t => Text.sameName t.name name) = some t) :
    ∃ t', tables'.find? (fun t => Text.sameName t.name name) = some t' ∧
      t.columns <+: t'.columns := by
  cases h with
  | opened hnew =>
    refine ⟨t, ?_, prefix_rfl⟩
    rw [find?_append, hfound, Option.some_or]
  | @extended before behind extended hbefore hfile hnew =>
    rw [find?_append, find?_cons] at hfound ⊢
    rw [Table.name_push]
    cases hearlier : before.find? fun t => Text.sameName t.name name with
    | some found =>
      rw [hearlier] at hfound
      exact ⟨t, hfound, prefix_rfl⟩
    | none =>
      rw [hearlier, Option.none_or] at hfound
      rw [Option.none_or]
      cases hsame : Text.sameName extended.name name with
      | true =>
        rw [hsame] at hfound
        cases hfound
        exact ⟨_, rfl, prefix_append _ _⟩
      | false =>
        rw [hsame] at hfound
        exact ⟨t, hfound, prefix_rfl⟩

theorem Entered.sound (hsound : ∀ t ∈ tables, t.Sound) :
    ∀ t ∈ tables', t.Sound := by
  cases h with
  | opened hnew =>
    exact forall_mem_append.2
      ⟨hsound, forall_mem_singleton.2 (Table.sound_ofColumn column)⟩
  | extended hbefore hfile hnew =>
    obtain ⟨hearlier, hextended, hlater⟩ :=
      (forall_mem_append.1 hsound).imp_right forall_mem_cons.1
    exact forall_mem_append.2
      ⟨hearlier, forall_mem_cons.2 ⟨hextended.push hfile hnew, hlater⟩⟩

theorem Entered.apart
    (hapart : (tables.map Table.file).Nodup) : (tables'.map Table.file).Nodup := by
  cases h with
  | opened hnew =>
    simpa [nodup_append, hapart] using hnew
  | extended hbefore hfile hnew =>
    simpa using hapart

end

/-- What names lead to does not change. -/
theorem endpoint?_of_entered {table name : String} {found : Column}
    (h : Entered column c.tables c'.tables) (hfound : c.endpoint? table name = some found) :
    c'.endpoint? table name = some found := by
  obtain ⟨t, ht, hcolumn⟩ := Option.bind_eq_some_iff.1 hfound
  obtain ⟨t', ht', hbegins⟩ := h.find?_name ht
  exact Option.bind_eq_some_iff.2 ⟨t', ht', hbegins.find?_eq_some hcolumn⟩

/-- A catalog that was built by additions. -/
structure Sound (c : Catalog) : Prop where
  tables : ∀ t ∈ c.tables, t.Sound
  apart : (c.tables.map Table.file).Nodup
  references : ∀ fk ∈ c.foreignKeys,
    (c.endpoint? fk.table fk.column).isSome ∧ (c.endpoint? fk.refTable fk.refColumn).isSome

theorem sound_empty : empty.Sound where
  tables := by simp [empty]
  apart := by simp [empty]
  references := by simp [empty]

theorem Sound.entered (h : c.Sound) (hentered : Entered column c.tables tables) :
    Sound { c with tables } := by
  refine ⟨hentered.sound h.tables, hentered.apart h.apart, ?_⟩
  have hkept : ∀ table name, (c.endpoint? table name).isSome →
      (Catalog.endpoint? { c with tables } table name).isSome := by
    intro table name hsome
    obtain ⟨found, hfound⟩ := Option.isSome_iff_exists.1 hsome
    rw [endpoint?_of_entered hentered hfound, Option.isSome_some]
  intro fk hfk
  exact (h.references fk hfk).imp (hkept _ _) (hkept _ _)

theorem Sound.addKey {fk : ForeignKey} (h : c.Sound)
    (hcolumn : (c.endpoint? fk.table fk.column).isSome)
    (href : (c.endpoint? fk.refTable fk.refColumn).isSome) :
    Sound { c with foreignKeys := c.foreignKeys ++ [fk] } :=
  ⟨h.tables, h.apart,
    forall_mem_append.2 ⟨h.references, forall_mem_singleton.2 ⟨hcolumn, href⟩⟩⟩

end Catalog

/-! ### Histories -/

/-- Something that is added to a catalog. -/
inductive Addition where
  | column (column : Column)
  | foreignKey (fk : ForeignKey)

def Addition.enter : Addition → Catalog.Change Unit
  | column c => Catalog.enterColumn c
  | foreignKey fk => Catalog.enterForeignKey fk

/-- Why a catalog can refuse an addition: its table has a column of that name, or a column that a
foreign key speaks of is not there. -/
def Addition.Clashes (c : Catalog) : Addition → Prop
  | .column added => (c.namesake? added).isSome
  | .foreignKey fk =>
    ¬((c.endpoint? fk.table fk.column).isSome ∧ (c.endpoint? fk.refTable fk.refColumn).isSome)

namespace Catalog

/-- The catalog after an addition, whether that was accepted or refused. -/
def after (c : Catalog) (a : Addition) : Catalog :=
  match a.enter c with
  | .ok _ c' => c'
  | .error _ c' => c'

/-- The catalog after some additions. -/
def afterAll (c : Catalog) (additions : List Addition) : Catalog := additions.foldl after c

variable {c c' : Catalog} {a : Addition}

/-- An addition is refused if it clashes with what is there. It leaves no trace then. -/
theorem enter_eq_error : (∃ e, a.enter c = .error e c') ↔ a.Clashes c ∧ c' = c := by
  cases a with
  | column column => simp [Addition.enter, Addition.Clashes, enterColumn_eq_error]
  | foreignKey fk =>
    rw [Addition.enter, Addition.Clashes, enterForeignKey_eq]
    split
    next hknown =>
      constructor
      · rintro ⟨e, hrun⟩
        cases hrun
      · exact fun h => absurd hknown h.1
    next hunknown =>
      constructor
      · rintro ⟨e, hrun⟩
        cases hrun
        exact ⟨hunknown, rfl⟩
      · rintro ⟨-, rfl⟩
        exact ⟨_, rfl⟩

theorem after_of_ok {u : Unit} (h : a.enter c = .ok u c') : c.after a = c' := by
  rw [after, h]

/-- All that an addition can do. -/
theorem after_cases (c : Catalog) (a : Addition) :
    c.after a = c ∨
    (∃ column tables, a = .column column ∧ Entered column c.tables tables ∧
      c.after a = { c with tables }) ∨
    ∃ fk, a = .foreignKey fk ∧ (c.endpoint? fk.table fk.column).isSome ∧
      (c.endpoint? fk.refTable fk.refColumn).isSome ∧
      c.after a = { c with foreignKeys := c.foreignKeys ++ [fk] } := by
  unfold after
  cases hrun : a.enter c with
  | error e c' =>
    exact .inl (enter_eq_error.1 ⟨e, hrun⟩).2
  | ok u c' =>
    right
    cases a with
    | column column =>
      obtain ⟨tables, hentered, rfl⟩ := enterColumn_eq_ok.1 hrun
      exact .inl ⟨column, tables, rfl, hentered, rfl⟩
    | foreignKey fk =>
      rw [Addition.enter, enterForeignKey_eq] at hrun
      split at hrun
      next hknown =>
        cases hrun
        exact .inr ⟨fk, rfl, hknown.1, hknown.2, rfl⟩
      next => cases hrun

theorem Sound.after (h : c.Sound) (a : Addition) : (c.after a).Sound := by
  obtain heq | ⟨column, tables, -, hentered, heq⟩ | ⟨fk, -, hcolumn, href, heq⟩ :=
    after_cases c a
  · rw [heq]
    exact h
  · rw [heq]
    exact h.entered hentered
  · rw [heq]
    exact h.addKey hcolumn href

theorem Sound.afterAll (h : c.Sound) (additions : List Addition) :
    (c.afterAll additions).Sound := by
  induction additions generalizing c with
  | nil => exact h
  | cons a rest ih => exact ih (h.after a)

theorem endpoint?_after {table name : String} {found : Column}
    (hfound : c.endpoint? table name = some found) (a : Addition) :
    (c.after a).endpoint? table name = some found := by
  obtain heq | ⟨column, tables, -, hentered, heq⟩ | ⟨fk, -, -, -, heq⟩ := after_cases c a
  · rw [heq, hfound]
  · rw [heq]
    exact endpoint?_of_entered hentered hfound
  · rw [heq]
    exact hfound

/-- Later additions do not change what names lead to. -/
theorem endpoint?_afterAll {table name : String} {found : Column}
    (hfound : c.endpoint? table name = some found) (additions : List Addition) :
    (c.afterAll additions).endpoint? table name = some found := by
  induction additions generalizing c with
  | nil => exact hfound
  | cons a rest ih => exact ih (endpoint?_after hfound a)

/-- **A catalog after any additions.** Every table has a column, no two columns of a table have one
name, and each foreign key leads from a column to a column, which stay the same whatever is added
later. An addition is refused if and only if it clashes with what is there, and leaves the tables
and the foreign keys as they were then. -/
theorem additions_sound (additions : List Addition) :
    let c := empty.afterAll additions
    (∀ t ∈ c.tables, t.columns ≠ [] ∧
      t.columns.Pairwise fun a b => Text.sameName a.name b.name = false) ∧
    (∀ fk ∈ c.foreignKeys, ∃ column ref, ∀ later,
      (c.afterAll later).endpoint? fk.table fk.column = some column ∧
      (c.afterAll later).endpoint? fk.refTable fk.refColumn = some ref) ∧
    ∀ (a : Addition) (c' : Catalog), (∃ e, a.enter c = .error e c') ↔ a.Clashes c ∧ c' = c := by
  intro c
  have hsound : c.Sound := sound_empty.afterAll additions
  refine ⟨fun t ht => ?_, fun fk hfk => ?_, fun a c' => enter_eq_error⟩
  · obtain ⟨first, rest, hcolumns, -, -⟩ := (hsound.tables t ht).headed
    exact ⟨by simp [hcolumns], (hsound.tables t ht).distinct⟩
  · obtain ⟨hcolumn, href⟩ := hsound.references fk hfk
    obtain ⟨column, hcolumn⟩ := Option.isSome_iff_exists.1 hcolumn
    obtain ⟨ref, href⟩ := Option.isSome_iff_exists.1 href
    exact ⟨column, ref, fun later =>
      ⟨endpoint?_afterAll hcolumn later, endpoint?_afterAll href later⟩⟩

/-- A column of integers that can be null. -/
def integerColumn (schema table name : String) : Column :=
  { schema, table, name, type := .int, notNull := false, key := .none, preset := none }

/-- A history in which a foreign key that starts nowhere is refused. -/
def usersAndPosts : List Addition :=
  [.column (integerColumn "" "users" "id"), .column (integerColumn "" "posts" "author"),
    .foreignKey ⟨"posts", "writer", "users", "id"⟩, .foreignKey ⟨"posts", "author", "users", "id"⟩]

/-- A second column `id` of users is refused and changes nothing. The foreign key that was accepted
leads to the same columns when another table of users has been added. -/
theorem additions_sound_refused :
    (empty.afterAll usersAndPosts).foreignKeys = [⟨"posts", "author", "users", "id"⟩] ∧
    (∀ t ∈ (empty.afterAll usersAndPosts).tables, t.columns ≠ []) ∧
    (∃ column, ((empty.afterAll usersAndPosts).afterAll
      [.column (integerColumn "old" "users" "name")]).endpoint? "users" "id" = some column) ∧
    ∃ e, (Addition.column (integerColumn "" "users" "id")).enter (empty.afterAll usersAndPosts) =
      .error e (empty.afterAll usersAndPosts) := by
  have hkey : (empty.afterAll usersAndPosts).foreignKeys =
      [⟨"posts", "author", "users", "id"⟩] := by
    decide +kernel
  have hname : ((empty.afterAll usersAndPosts).namesake?
      (integerColumn "" "users" "id")).isSome = true := by
    decide +kernel
  obtain ⟨htables, hkeys, hrefused⟩ := additions_sound usersAndPosts
  obtain ⟨_, ref, hends⟩ := hkeys _ (by rw [hkey]; exact List.mem_singleton_self _)
  exact ⟨hkey, fun t ht => (htables t ht).1, ⟨ref, (hends _).2⟩, (hrefused _ _).2 ⟨hname, rfl⟩⟩

end Catalog

end SqlSignature

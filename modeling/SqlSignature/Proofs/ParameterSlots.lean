import Mathlib.Data.List.Sort
import SqlSignature.Describe
import SqlSignature.Proofs.GrammarBuilt
import SqlSignature.Proofs.NodeReferences
import SqlSignature.Proofs.WalkFrame
/-!
# SqlSignature.Proofs.ParameterSlots

Which bound values of a modification are reported. The analysis reports the bound values among the
descendants of the values it stores and of the filter, each once. It reports no bound value of the
tables of an update, of the values of a row that have no column, or of the sort keys and the
separator of a call. With these, every bound value of the statement is accounted for.
-/

open List

namespace SqlSignature

open SqlSignature.Expr StatementKind

/-! ### Nodes that are reported and nodes that are not -/

/-- How many values of a row an insertion stores. -/
def Insertion.width (i : Insertion) (catalog : Catalog) : Nat :=
  if i.columns.isEmpty then
    ((catalog.table? i.table.schema i.table.name).map fun t => t.columns.length).getD 0
  else i.columns.length

/-- The nodes of the rows of an insertion that are stored in a number of columns. -/
def InsertSource.reached (width : Nat) : InsertSource → List Expr
  | .values rows => rows.flatMap fun row => (row.take width).flatMap Expr.descendants
  | .query q => q.descendants

namespace StatementKind

/-- The nodes whose bound values the analysis of a modification looks for. -/
def reached (catalog : Catalog) : StatementKind → List Expr
  | .select _ => []
  | .insert i =>
    i.source.reached (i.width catalog) ++ i.onDuplicate.flatMap fun a => a.value.descendants
  | .update u =>
    (u.assignments.flatMap fun a => a.value.descendants) ++ u.filter.toList.flatMap Expr.descendants
  | .delete d => d.filter.toList.flatMap Expr.descendants

/-- The nodes that the analysis of a modification passes over: values for which there is no column,
and the tables of an update. -/
def passedOver (catalog : Catalog) : StatementKind → List Expr
  | .select _ | .delete _ => []
  | .insert i =>
    match i.source with
    | .values rows => rows.flatMap fun row => (row.drop (i.width catalog)).flatMap Expr.nodes
    | .query _ => []
  | .update u => TableRef.nodesList u.tables

/-- The bound values that the analysis of a modification loses. -/
def lostOrdinals (kind : StatementKind) (catalog : Catalog) : List Nat :=
  (kind.passedOver catalog ++ (kind.reached catalog).flatMap Expr.extraNodes).filterMap
    Expr.ordinal?

/-- Whether a statement changes rows. -/
def isModification : StatementKind → Bool
  | .select _ => false
  | .insert _ | .update _ | .delete _ => true

/-- The analysis of a modification. -/
def modification? (kind : StatementKind) (input : AnalysisInput) :
    Option (Analysis ModificationShape) :=
  match kind with
  | .select _ => none
  | .insert i => some (Analysis.walkInsertion input i)
  | .update u => some (Analysis.walkUpdate input u)
  | .delete d => some (Analysis.walkDeletion input d)

end StatementKind

section Count

variable (p : Expr → Bool)

theorem Expr.countP_flatMap_nodes (es : List Expr) :
    (es.flatMap Expr.nodes).countP p =
      (Expr.withExtras (es.flatMap Expr.descendants)).countP p := by
  rw [withExtras_flatMap]
  exact (List.Perm.flatMap_left _ fun e _ => e.nodes_perm).countP_eq p

theorem Assignment.countP_flatMap_nodes (as : List Assignment) :
    (as.flatMap Assignment.nodes).countP p =
      (Expr.withExtras (as.flatMap fun a => a.value.descendants)).countP p := by
  rw [withExtras_flatMap]
  exact (List.Perm.flatMap_left _ fun a _ => a.value.nodes_perm).countP_eq p

/-- The nodes of rows are those of the values that are stored, and of the others. -/
theorem countP_rows (width : Nat) (rows : List (List Expr)) :
    (rows.flatMap fun row => row.flatMap Expr.nodes).countP p =
      (Expr.withExtras
        (rows.flatMap fun row => (row.take width).flatMap Expr.descendants)).countP p +
      (rows.flatMap fun row => (row.drop width).flatMap Expr.nodes).countP p := by
  induction rows with
  | nil => rfl
  | cons row rows ih =>
    have hrow : (row.flatMap Expr.nodes).countP p =
        ((row.take width).flatMap Expr.nodes).countP p +
          ((row.drop width).flatMap Expr.nodes).countP p := by
      rw [← countP_append, ← flatMap_append, take_append_drop]
    rw [countP_flatMap_nodes p (row.take width)] at hrow
    simp only [flatMap_cons, countP_append, withExtras_append]
    omega

/-- The nodes of a modification are those it reaches with what stands aside of them, and those it
passes over. -/
theorem StatementKind.countP_nodes (kind : StatementKind) (catalog : Catalog)
    (h : kind.isModification = true) :
    kind.nodes.countP p =
      (Expr.withExtras (kind.reached catalog)).countP p + (kind.passedOver catalog).countP p := by
  cases kind with
  | select q => cases h
  | insert i =>
    have hduplicate := Assignment.countP_flatMap_nodes p i.onDuplicate
    cases hsource : i.source with
    | values rows =>
      have hrows := countP_rows p (i.width catalog) rows
      simp only [nodes, reached, passedOver, InsertSource.nodes, InsertSource.reached, hsource,
        withExtras_append, countP_append]
      omega
    | query q =>
      have hquery := (query_nodes_perm q).countP_eq p
      simp only [nodes, reached, passedOver, InsertSource.nodes, InsertSource.reached, hsource,
        withExtras_append, countP_append, countP_nil]
      omega
  | update u =>
    have hassignments := Assignment.countP_flatMap_nodes p u.assignments
    have hfilter := countP_flatMap_nodes p u.filter.toList
    simp only [nodes, reached, passedOver, nodesOption_eq, withExtras_append,
      countP_append]
    omega
  | delete d =>
    have hfilter := countP_flatMap_nodes p d.filter.toList
    simp only [nodes, reached, passedOver, nodesOption_eq, countP_nil]
    omega

end Count

section

variable {text : String} {statement : Statement} (hparse : Statement.parse text = .ok statement)
  (hkind : statement.kind.isModification = true) (catalog : Catalog)

include hparse hkind

/-- Every bound value of a modification that was read is reached or lost, and only once. -/
theorem StatementKind.count_ordinals (i : Nat) :
    ((statement.kind.reached catalog).filterMap Expr.ordinal?).count i +
      (statement.kind.lostOrdinals catalog).count i =
        if i < statement.placeholders then 1 else 0 := by
  have hall : (statement.kind.nodes.filterMap Expr.ordinal?).count i =
      if i < statement.placeholders then 1 else 0 := by
    rw [(Statement.ordinals_perm hparse).count_eq, nodup_range.count]
    simp only [mem_range]
  have hnodes := statement.kind.countP_nodes (fun e => e.ordinal? == some i) catalog hkind
  have hextras := (withExtras_perm (statement.kind.reached catalog)).countP_eq
    (fun e => e.ordinal? == some i)
  rw [count_filterMap] at hall ⊢
  rw [lostOrdinals, count_filterMap]
  simp only [countP_append] at hextras ⊢
  omega

theorem StatementKind.nodup_reached :
    ((statement.kind.reached catalog).filterMap Expr.ordinal?).Nodup := by
  refine nodup_iff_count_le_one.2 fun i => ?_
  have hcount := count_ordinals hparse hkind catalog i
  split at hcount <;> omega

end

/-! ### What is reported -/

namespace Slots

/-- The bound values that are used. -/
def ordinals (slots : Slots) : List Nat :=
  (slots.data ++ slots.parameters).map ParameterSlot.ordinal

theorem ordinals_append (a b : Slots) : (a ++ b).ordinals.Perm (a.ordinals ++ b.ordinals) := by
  have happend : a ++ b =
      { data := a.data ++ b.data, parameters := a.parameters ++ b.parameters } := rfl
  simp only [ordinals, happend, map_append, append_assoc]
  refine List.Perm.append_left _ ?_
  exact perm_append_comm_assoc ..

/-- Stored uses are named by what is bound there or by a column, the others not at all. -/
structure Labelled (slots : Slots) (input : AnalysisInput) : Prop where
  data : ∀ slot ∈ slots.data, ∃ column, slot.name = some ((input.name? slot.ordinal).getD column)
  parameters : ∀ slot ∈ slots.parameters, slot.name = none

theorem Labelled.append {a b : Slots} {input : AnalysisInput} (ha : a.Labelled input)
    (hb : b.Labelled input) : (a ++ b).Labelled input :=
  ⟨fun slot h => (mem_append.1 h).elim (ha.data slot) (hb.data slot),
    fun slot h => (mem_append.1 h).elim (ha.parameters slot) (hb.parameters slot)⟩

end Slots

/-- A list without repetitions has no repetitions to erase. -/
theorem eraseReps_of_nodup {l : List Nat} (h : l.Nodup) : l.eraseReps = l := by
  have loop : ∀ (l : List Nat) (a : Nat) (acc : List Nat), (a :: l).Nodup →
      List.eraseRepsBy.loop (· == ·) a l acc = acc.reverse ++ a :: l := by
    intro l
    induction l with
    | nil => intro a acc _; simp [List.eraseRepsBy.loop]
    | cons b l ih =>
      intro a acc hnodup
      obtain ⟨hnot, hrest⟩ := nodup_cons.1 hnodup
      have hne : (a == b) = false := by
        rw [beq_eq_false_iff_ne]
        rintro rfl
        exact hnot mem_cons_self
      rw [List.eraseRepsBy.loop, hne]
      simpa using ih b (a :: acc) hrest
  cases l with
  | nil => rfl
  | cons a l => exact loop l a [] h

namespace Analysis

/-- A step that succeeds reports bound values, each once if they are different, under names that
come from their places. -/
def Reports (input : AnalysisInput) (step : Analysis Slots) (ordinals : List Nat) : Prop :=
  Ensures (fun _ => True) step fun slots _ =>
    slots.Labelled input ∧ (ordinals.Nodup → slots.ordinals.Perm ordinals)

variable {input : AnalysisInput} {ordinals : List Nat}

/-- After any step. -/
theorem Reports.after {α : Type} {first : Analysis α} {step : α → Analysis Slots}
    (h : ∀ a, Reports input (step a) ordinals) : Reports input (first >>= step) ordinals :=
  Ensures.bind (Q := fun _ _ => True) (fun _ _ _ _ _ => trivial) h

theorem Reports.none : Reports input (pure {}) [] :=
  Ensures.pure fun _ _ => ⟨⟨nofun, nofun⟩, fun _ => .refl _⟩

/-- Stored uses. -/
theorem Reports.stored (target : Target) {used : List Nat} (notNull : Nat → Bool)
    (h : ordinals.Nodup → used.Perm ordinals) :
    Reports input (pure { data := used.map fun ordinal =>
      { ordinal, name := some (storedName input target ordinal), notNull := notNull ordinal } })
      ordinals := by
  refine Ensures.pure fun _ _ => ⟨⟨?_, nofun⟩, fun hnodup => ?_⟩
  · intro slot hslot
    obtain ⟨ordinal, -, rfl⟩ := mem_map.1 hslot
    exact ⟨target.name, rfl⟩
  · simpa [Slots.ordinals, Function.comp_def] using h hnodup

/-- Uses under their own names. -/
theorem Reports.parameters {used : List Nat} (h : ordinals.Nodup → used.Perm ordinals) :
    Reports input (do let s ← get; return { parameters := used.map (parameterSlot s) })
      ordinals := by
  refine .after fun s => Ensures.pure fun _ _ => ⟨⟨nofun, ?_⟩, fun hnodup => ?_⟩
  · intro slot hslot
    obtain ⟨ordinal, -, rfl⟩ := mem_map.1 hslot
    rfl
  · simpa [Slots.ordinals, parameterSlot, Function.comp_def] using h hnodup

theorem Reports.append {first second : Analysis Slots} {as bs : List Nat}
    (ha : Reports input first as) (hb : Reports input second bs) :
    Reports input (do let slots ← first; return slots ++ (← second)) (as ++ bs) := by
  refine Ensures.bind ha fun slots => ?_
  rintro s both s' ⟨hnamed, hslots⟩ hrun
  obtain ⟨others, t, hothers, hpure⟩ := bind_eq_ok.1 hrun
  cases hpure
  obtain ⟨hnamed', hothers⟩ := hb trivial hothers
  refine ⟨hnamed.append hnamed', fun hnodup => ?_⟩
  obtain ⟨has, hbs, -⟩ := nodup_append.1 hnodup
  exact (Slots.ordinals_append slots others).trans ((hslots has).append (hothers hbs))

theorem ordinals_perm_descendants (e : Expr) :
    e.ordinals.Perm (e.descendants.filterMap Expr.ordinal?) :=
  mergeSort_perm ..

theorem descendants_of_ordinal {e : Expr} {ordinal : Nat} (h : e.ordinal? = some ordinal) :
    e.descendants.filterMap Expr.ordinal? = [ordinal] := by
  obtain ⟨id, span, form⟩ := e
  cases form with
  | placeholder o => cases h; rfl
  | _ => cases h

/-- A value reports the bound values among its descendants. -/
theorem reports_assignValue (target : Target) (value : Expr) :
    Reports input (assignValue input target value)
      (value.descendants.filterMap Expr.ordinal?) := by
  refine .after fun var => ?_
  cases hordinal : value.ordinal? with
  | some ordinal =>
    rw [descendants_of_ordinal hordinal]
    exact .after fun _ =>
      .stored target (fun _ => storedNotNull input target) fun _ => .refl [ordinal]
  | none =>
    have hparameters : Reports input _ _ := Reports.parameters fun _ =>
      ordinals_perm_descendants value
    refine .after fun _ => ?_
    dsimp only
    split
    · exact hparameters
    · exact .after fun _ => hparameters

/-- A row reports the bound values of as many values as there are columns. -/
theorem reports_assignRow (targets : List Target) (values : List Expr) :
    Reports input (assignRow input targets values)
      (((values.take targets.length).flatMap Expr.descendants).filterMap Expr.ordinal?) := by
  induction targets generalizing values with
  | nil => exact .none
  | cons target targets ih =>
    cases values with
    | nil => exact .none
    | cons value values =>
      rw [length_cons, take_succ_cons, flatMap_cons, filterMap_append]
      exact (reports_assignValue target value).append (ih values)

theorem reports_assignRows (targets : List Target) (rows : List (List Expr)) :
    Reports input (assignRows input targets rows)
      ((rows.flatMap fun row => (row.take targets.length).flatMap Expr.descendants).filterMap
        Expr.ordinal?) := by
  induction rows with
  | nil => exact .none
  | cons row rows ih =>
    rw [flatMap_cons, filterMap_append]
    exact (reports_assignRow targets row).append ih

theorem reports_assignDuplicates (as : List Assignment) :
    Reports input (assignDuplicates input as)
      ((as.flatMap fun a => a.value.descendants).filterMap Expr.ordinal?) := by
  induction as with
  | nil => exact .none
  | cons a as ih =>
    rw [flatMap_cons, filterMap_append]
    exact .after fun target => (reports_assignValue target a.value).append ih

theorem reports_updateColumns (as : List Assignment) :
    Reports input (updateColumns input as)
      ((as.flatMap fun a => a.value.descendants).filterMap Expr.ordinal?) := by
  induction as with
  | nil => exact .none
  | cons a as ih =>
    rw [flatMap_cons, filterMap_append]
    refine Reports.append (.after fun target => ?_) ih
    cases hordinal : a.value.ordinal? with
    | some ordinal => exact reports_assignValue target a.value
    | none =>
      exact .after fun var => .after fun _ => .after fun s =>
        .stored target (fun ordinal => s.parameterNotNull ordinal && storedNotNull input target)
          fun _ => ordinals_perm_descendants a.value

theorem reports_walkFilter (filter : Option Expr) :
    Reports input (walkFilter input filter)
      ((filter.toList.flatMap Expr.descendants).filterMap Expr.ordinal?) := by
  cases filter with
  | none => exact .none
  | some filter =>
    rw [Option.toList_some, flatMap_singleton]
    exact .after fun _ => .parameters fun _ => ordinals_perm_descendants filter

/-! ### Statements -/

/-- As many columns as the table has. -/
theorem length_addColumns (columns : List Column) :
    Ensures (fun _ => True) (addColumns columns) fun found _ => found.length = columns.length := by
  induction columns with
  | nil => exact .pure fun _ _ => rfl
  | cons column columns ih =>
    refine Ensures.bind (Q := fun _ _ => True) (fun _ _ _ _ _ => trivial) fun var =>
      Ensures.bind (Q := fun _ _ => True) (fun _ _ _ _ _ => trivial) fun _ => ih.bind fun others =>
        .pure fun _ h => ?_
    rw [length_cons, length_cons, h]

theorem length_namedTargets {source : Source} {names : List String} {targets : List Target}
    (h : namedTargets source names = .ok targets) : targets.length = names.length := by
  induction names generalizing targets with
  | nil => cases h; rfl
  | cons name names ih =>
    rw [namedTargets] at h
    split at h
    · cases hrest : namedTargets source names with
      | error e => rw [hrest] at h; cases h
      | ok rest =>
        rw [hrest] at h
        cases h
        rw [length_cons, length_cons, ih hrest]
    · cases h

/-- An insertion has as many columns as it names, or as its table has. -/
theorem length_insertionTargets (i : Insertion) :
    Ensures (fun _ => True) (do
      let source ← tableSource input i.table.schema i.table.name i.table.label
      let _ ← pushSource source
      ofExcept (insertionTargets source i.columns))
      fun targets _ => targets.length = i.width input.catalog := by
  refine Ensures.bind (Q := fun source _ => source.columns.length =
    ((input.catalog.table? i.table.schema i.table.name).map fun t => t.columns.length).getD 0) ?_
    fun source => Ensures.bind (Q := fun _ _ => source.columns.length =
      ((input.catalog.table? i.table.schema i.table.name).map fun t => t.columns.length).getD 0)
      (fun _ _ _ h _ => h) fun _ => ?_
  · unfold tableSource
    split
    next => exact .throw _
    next table htable =>
      refine (length_addColumns table.columns).bind fun columns => .pure fun _ h => ?_
      rw [htable]
      exact h
  · intro s targets s' hlength hrun
    cases htargets : insertionTargets source i.columns with
    | error e => rw [htargets] at hrun; cases hrun
    | ok found =>
      rw [htargets] at hrun
      cases hrun
      unfold insertionTargets at htargets
      unfold Insertion.width
      split at htargets
      next hempty =>
        cases htargets
        rw [if_pos hempty, length_map, hlength]
      next hnamed => rw [if_neg hnamed, length_namedTargets htargets]

theorem reports_assignSource (targets : List Target) (source : InsertSource) :
    Reports input (assignSource input targets source)
      ((source.reached targets.length).filterMap Expr.ordinal?) := by
  cases source with
  | values rows => exact reports_assignRows targets rows
  | query q =>
    refine .after fun shape => .after fun _ => .parameters fun hnodup => ?_
    have hsorted := mergeSort_perm (q.descendants.filterMap Expr.ordinal?) (· ≤ ·)
    have herase : queryOrdinals q = (q.descendants.filterMap Expr.ordinal?).mergeSort :=
      eraseReps_of_nodup (hsorted.nodup_iff.2 hnodup)
    rwa [herase]

/-- A modification reports the bound values it reaches. -/
theorem reports_modification {kind : StatementKind} {step : Analysis ModificationShape}
    (hstep : kind.modification? input = some step) :
    Ensures (fun _ => True) step fun shape _ => shape.slots.Labelled input ∧
      (((kind.reached input.catalog).filterMap Expr.ordinal?).Nodup →
        shape.slots.ordinals.Perm ((kind.reached input.catalog).filterMap Expr.ordinal?)) := by
  have shaped : ∀ {ordinals : List Nat} {body : Analysis Slots} {type : StatementType}
      {merge : MergeRule}, Reports input body ordinals → Ensures (fun _ => True) (do
        let found ← inScope {} body
        return { type, slots := found.1, merge } : Analysis ModificationShape)
        fun shape _ => shape.slots.Labelled input ∧
          (ordinals.Nodup → shape.slots.ordinals.Perm ordinals) :=
    fun h => (ensures_inScope h).bind fun found => .pure fun _ hfound => hfound
  cases kind with
  | select q => cases hstep
  | insert i =>
    cases hstep
    rw [StatementKind.reached, filterMap_append]
    refine shaped fun s slots s' _ hrun => ?_
    obtain ⟨source, t, hsource, hrun⟩ := bind_eq_ok.1 hrun
    obtain ⟨index, u, hindex, hrun⟩ := bind_eq_ok.1 hrun
    obtain ⟨targets, v, htargets, hrun⟩ := bind_eq_ok.1 hrun
    have hlength : targets.length = i.width input.catalog :=
      length_insertionTargets i trivial (bind_eq_ok.2 ⟨source, t, hsource,
        bind_eq_ok.2 ⟨index, u, hindex, htargets⟩⟩)
    rw [← hlength]
    exact (reports_assignSource targets i.source).append
      (reports_assignDuplicates i.onDuplicate) trivial hrun
  | update u =>
    cases hstep
    refine shaped (.after fun _ => .after fun _ => ?_)
    rw [StatementKind.reached, filterMap_append]
    exact (reports_updateColumns u.assignments).append (reports_walkFilter u.filter)
  | delete d =>
    cases hstep
    exact shaped (.after fun _ => reports_walkFilter d.filter)

end Analysis

namespace Statement

/-- What the walk of a modification finds, and the state after it. -/
def modification? (statement : Statement) (input : AnalysisInput) :
    Option (ModificationShape × AnalysisState) :=
  (statement.kind.modification? input).bind fun step =>
    match step (.initial input statement.placeholders) with
    | .ok shape s => some (shape, s)
    | .error _ _ => none

/-- The analysis of a modification that succeeds is a walk, after which the types are solved and
the uses of bound values are reported. -/
theorem modification?_of_analyze {statement : Statement} {input : AnalysisInput}
    {result : AnalysisResult} (hkind : statement.kind.isModification = true)
    (h : statement.analyze input = .ok result) :
    ∃ shape s, statement.modification? input = some (shape, s) ∧
      result = Report.ofModification input (Report.solve input s) shape := by
  have walked : ∀ step, statement.kind.modification? input = some step →
      statement.report input step (Report.ofModification input) = .ok result →
      ∃ shape s, statement.modification? input = some (shape, s) ∧
        result = Report.ofModification input (Report.solve input s) shape := by
    intro step hstep hreport
    unfold report at hreport
    split at hreport
    next shape s hrun =>
      cases hreport
      refine ⟨shape, s, ?_, rfl⟩
      rw [modification?, hstep, Option.bind_some, hrun]
    next => cases hreport
  unfold analyze at h
  cases hk : statement.kind with
  | select q => rw [hk] at hkind; cases hkind
  | insert | update | delete => rw [hk] at h; exact walked _ (by rw [hk]; rfl) h

/-- The uses of bound values and the lost ones make up the bound values of a statement. -/
theorem count_slots {text : String} {statement : Statement} {input : AnalysisInput}
    {shape : ModificationShape} {s : AnalysisState} (hparse : parse text = .ok statement)
    (hkind : statement.kind.isModification = true)
    (hshape : statement.modification? input = some (shape, s)) (i : Nat) :
    shape.slots.ordinals.count i + (statement.kind.lostOrdinals input.catalog).count i =
      if i < statement.placeholders then 1 else 0 := by
  obtain ⟨step, hstep, hrun⟩ := Option.bind_eq_some_iff.1 hshape
  have hnodup := nodup_reached hparse hkind input.catalog
  split at hrun
  next found t hfound =>
    cases hrun
    rw [((Analysis.reports_modification hstep trivial hfound).2 hnodup).count_eq]
    exact count_ordinals hparse hkind input.catalog i
  next => cases hrun

/-- **Uses of bound values.** In a modification that is analysed, every bound value has one use,
unless it is lost, and then it has none; so each has one use exactly if none is lost. -/
theorem modification_slots {text : String} {statement : Statement} {input : AnalysisInput}
    {result : AnalysisResult} (hparse : parse text = .ok statement)
    (hkind : statement.kind.isModification = true)
    (hanalyze : statement.analyze input = .ok result) :
    ∃ shape s, statement.modification? input = some (shape, s) ∧
      result = Report.ofModification input (Report.solve input s) shape ∧
      (∀ i < statement.placeholders, shape.slots.ordinals.count i =
        if i ∈ statement.kind.lostOrdinals input.catalog then 0 else 1) ∧
      ((∀ i < statement.placeholders, shape.slots.ordinals.count i = 1) ↔
        statement.kind.lostOrdinals input.catalog = []) := by
  obtain ⟨shape, s, hshape, hresult⟩ := modification?_of_analyze hkind hanalyze
  have hcount := count_slots hparse hkind hshape
  have heach : ∀ i < statement.placeholders, shape.slots.ordinals.count i =
      if i ∈ statement.kind.lostOrdinals input.catalog then 0 else 1 := by
    intro i hi
    have hone := hcount i
    rw [if_pos hi] at hone
    split
    next hlost =>
      have := List.count_pos_iff.2 hlost
      omega
    next hkept =>
      rw [List.count_eq_zero_of_not_mem hkept] at hone
      exact hone
  refine ⟨shape, s, hshape, hresult, heach, fun hone => ?_, fun hnone i hi => ?_⟩
  · refine List.eq_nil_iff_forall_not_mem.2 fun i hlost => ?_
    have hsum := hcount i
    have hpos := List.count_pos_iff.2 hlost
    split at hsum
    next hi =>
      have := hone i hi
      omega
    next => omega
  · rw [heach i hi, hnone]
    rfl

/-- Two tables with a column of integers each. -/
def twoTables : Catalog :=
  { tables := [⟨"", "t", [⟨"", "t", "x", .int, true, .none, none⟩]⟩,
      ⟨"", "u", [⟨"", "u", "y", .int, true, .none, none⟩]⟩]
    foreignKeys := [] }

/-- Whether a text is read and analysed, and what is found passes a test. -/
def isAnalyzed (text : String) (input : AnalysisInput)
    (test : Statement → AnalysisResult → Bool) : Bool :=
  isRead text fun statement => (statement.analyze input).toOption.any (test statement)

theorem exists_of_isAnalyzed {text : String} {input : AnalysisInput}
    {test : Statement → AnalysisResult → Bool} (h : isAnalyzed text input test = true) :
    ∃ statement result, parse text = .ok statement ∧ statement.analyze input = .ok result ∧
      test statement result = true := by
  obtain ⟨statement, hparse, htest⟩ := exists_of_isRead h
  cases hanalyze : statement.analyze input with
  | error e => rw [hanalyze] at htest; cases htest
  | ok result => rw [hanalyze] at htest; exact ⟨statement, result, hparse, hanalyze, htest⟩

/-- Each of the three bound values of an insertion has one use: as data, inside of a value that is
computed, and in the assignment for a row that is there already. -/
theorem modification_slots_insert :
    let text := "INSERT INTO t (x) VALUES (?), (? + 1) ON DUPLICATE KEY UPDATE x = ?"
    let input := (BoundText.ofText text).analysisInput twoTables {} none
    ∃ statement result shape s, parse text = .ok statement ∧
      statement.kind.isModification = true ∧ statement.analyze input = .ok result ∧
      statement.modification? input = some (shape, s) ∧ statement.placeholders = 3 ∧
      ∀ i < 3, shape.slots.ordinals.count i = 1 := by
  intro text input
  have hread : isAnalyzed text input (fun statement _ => statement.kind.isModification &&
      statement.placeholders == 3 && statement.kind.lostOrdinals twoTables == []) = true := by
    decide +kernel
  obtain ⟨statement, result, hparse, hanalyze, htest⟩ := exists_of_isAnalyzed hread
  simp only [Bool.and_eq_true, beq_iff_eq] at htest
  obtain ⟨⟨hkind, hplaceholders⟩, hlost⟩ := htest
  obtain ⟨shape, s, hshape, -, -, hiff⟩ := modification_slots hparse hkind hanalyze
  exact ⟨statement, result, shape, s, hparse, hkind, hanalyze, hshape, hplaceholders,
    hplaceholders ▸ hiff.2 hlost⟩

/-- A bound value in the condition of a join is lost. -/
theorem joined_value_lost :
    let text := "UPDATE t JOIN u ON u.y = ? SET x = 1"
    let input := (BoundText.ofText text).analysisInput twoTables {} none
    ∃ statement result shape s, parse text = .ok statement ∧
      statement.kind.isModification = true ∧ statement.analyze input = .ok result ∧
      statement.modification? input = some (shape, s) ∧ statement.placeholders = 1 ∧
      shape.slots.ordinals.count 0 = 0 := by
  intro text input
  have hread : isAnalyzed text input (fun statement _ => statement.kind.isModification &&
      statement.placeholders == 1 &&
        (statement.modification? input).any fun found => found.1.slots.ordinals == []) = true := by
    decide +kernel
  obtain ⟨statement, result, hparse, hanalyze, htest⟩ := exists_of_isAnalyzed hread
  simp only [Bool.and_eq_true, beq_iff_eq, Option.any_eq_true] at htest
  obtain ⟨⟨hkind, hplaceholders⟩, ⟨shape, s⟩, hshape, hslots⟩ := htest
  exact ⟨statement, result, shape, s, hparse, hkind, hanalyze, hshape, hplaceholders,
    by rw [hslots]; rfl⟩

end Statement

end SqlSignature

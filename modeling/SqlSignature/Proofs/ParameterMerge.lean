import SqlSignature.Proofs.ParameterSlots
/-!
# SqlSignature.Proofs.ParameterMerge

Which uses of bound values are reported as one. Merging goes by the names under which uses are
reported, and these come from three places: the name that the bound value is written with, the
column that it is stored in, and the position of the use. Uses of different bound values are merged
exactly if merging is on and these names are equal (`Report.folds_iff`). So bound values are merged
only by the names they are written with exactly if no use without such a name is reported under a
name that is taken (`Statement.merges_by_name_iff`).

To speak of the uses that a report is made of, the report is built once more with the positions of
the uses beside it (`Report.folded`); what it reports is the same (`Report.map_parameter_folded`).
-/

open List

namespace SqlSignature

namespace Report

/-! ### Reports with their uses -/

/-- The report of uses of bound values, with the positions of the uses. -/
structure Folded where
  positions : List Nat
  parameter : Parameter
  deriving Repr, DecidableEq

/-- Adds a use of a bound value to those before it, and notes where it went. -/
def foldInto (rule : MergeRule) (found : List Folded) (use : Folded) : List Folded :=
  if found.any (·.parameter.name == use.parameter.name) then
    found.map fun a =>
      if a.parameter.name == use.parameter.name then
        { positions := a.positions ++ use.positions
          parameter := mergePair rule a.parameter use.parameter }
      else a
  else found ++ [use]

/-- Whether uses with one name are merged. -/
def merges (input : AnalysisInput) (rule : MergeRule) : Bool := rule ≠ .keep && input.hasNames

/-- The report of uses of bound values, with the positions of the uses. -/
def folded (input : AnalysisInput) (s : AnalysisState) (rule : MergeRule)
    (slots : List ParameterSlot) : List Folded :=
  let all := (slots.mapIdx (parameter input s)).mapIdx fun i p => ⟨[i], p⟩
  if merges input rule then all.foldl (foldInto rule) [] else all

/-- Two uses, by their positions, are reported as one. -/
def Folds (input : AnalysisInput) (s : AnalysisState) (rule : MergeRule)
    (slots : List ParameterSlot) (i j : Nat) : Prop :=
  ∃ f ∈ folded input s rule slots, i ∈ f.positions ∧ j ∈ f.positions

instance (input : AnalysisInput) (s : AnalysisState) (rule : MergeRule)
    (slots : List ParameterSlot) (i j : Nat) : Decidable (Folds input s rule slots i j) :=
  inferInstanceAs (Decidable (∃ f ∈ _, _))

theorem map_parameter_foldInto (rule : MergeRule) (found : List Folded) (use : Folded) :
    (foldInto rule found use).map Folded.parameter =
      mergeInto rule (found.map Folded.parameter) use.parameter := by
  have hany : (found.map Folded.parameter).any (·.name == use.parameter.name) =
      found.any (·.parameter.name == use.parameter.name) := any_map
  unfold foldInto mergeInto
  rw [hany]
  split
  · rw [map_map, map_map]
    refine map_congr_left fun a _ => ?_
    show Folded.parameter (if _ then _ else _) = if _ then _ else _
    split <;> rfl
  · rw [map_append, map_singleton]

/-- Noting the uses does not change the report. -/
theorem map_parameter_folded (input : AnalysisInput) (s : AnalysisState) (rule : MergeRule)
    (slots : List ParameterSlot) :
    (folded input s rule slots).map Folded.parameter = parameters input s rule slots := by
  have hfold : ∀ (uses : List Folded) (found : List Folded),
      (uses.foldl (foldInto rule) found).map Folded.parameter =
        (uses.map Folded.parameter).foldl (mergeInto rule) (found.map Folded.parameter) := by
    intro uses
    induction uses with
    | nil => exact fun found => rfl
    | cons use uses ih =>
      intro found
      rw [foldl_cons, ih, map_parameter_foldInto, map_cons, foldl_cons]
  have hall : ∀ all : List Parameter,
      (all.mapIdx fun i p => (⟨[i], p⟩ : Folded)).map Folded.parameter = all := by
    intro all
    refine ext_getElem? fun i => ?_
    rw [getElem?_map, getElem?_mapIdx, Option.map_map]
    exact Option.map_id_apply
  unfold folded parameters merges
  dsimp only
  split
  · rw [hfold, hall]
    rfl
  · exact hall _

/-! ### Uses under one name -/

/-- The reports of uses with these names: each is made of all the uses with its name. -/
structure Collects (names : List String) (found : List Folded) : Prop where
  positions : ∀ f ∈ found, ∀ i, i ∈ f.positions ↔ names[i]? = some f.parameter.name
  complete : ∀ name ∈ names, ∃ f ∈ found, f.parameter.name = name

variable {names : List String} {found : List Folded}

theorem getElem?_concat_iff {name other : String} {i : Nat} :
    (names ++ [name])[i]? = some other ↔
      names[i]? = some other ∨ i = names.length ∧ name = other := by
  rcases Nat.lt_trichotomy i names.length with hlt | rfl | hgt
  · rw [getElem?_append_left hlt]
    exact ⟨.inl, fun h => h.resolve_right fun heq => Nat.ne_of_lt hlt heq.1⟩
  · rw [getElem?_concat_length]
    simp
  · have hne : i ≠ names.length := Nat.ne_of_gt hgt
    simp [getElem?_eq_none (Nat.le_of_lt hgt), getElem?_append_right (Nat.le_of_lt hgt),
      hne, Nat.sub_ne_zero_of_lt hgt]

/-- The next use goes to the report with its name, or starts a new one. -/
theorem Collects.foldInto (h : Collects names found) (rule : MergeRule) (p : Parameter) :
    Collects (names ++ [p.name]) (foldInto rule found ⟨[names.length], p⟩) := by
  unfold Report.foldInto
  split
  next hany =>
    refine ⟨?_, ?_⟩
    · intro f hf i
      obtain ⟨a, ha, rfl⟩ := mem_map.1 hf
      split
      next hname =>
        have hname : a.parameter.name = p.name := beq_iff_eq.1 hname
        show i ∈ a.positions ++ [names.length] ↔ (names ++ [p.name])[i]? = some a.parameter.name
        rw [mem_append, mem_singleton, h.positions a ha, getElem?_concat_iff]
        simp [hname]
      next hname =>
        have hne : p.name ≠ a.parameter.name := fun heq => hname (beq_iff_eq.2 heq.symm)
        rw [h.positions a ha, getElem?_concat_iff]
        simp [hne]
    · -- merging leaves the names as they are
      have hkept : ∀ a ∈ found, ∃ f ∈ found.map fun a =>
          if a.parameter.name == p.name then
            ⟨a.positions ++ [names.length], mergePair rule a.parameter p⟩
          else a, f.parameter.name = a.parameter.name := by
        intro a ha
        refine ⟨_, mem_map_of_mem ha, ?_⟩
        split <;> rfl
      intro name hmem
      obtain ⟨a, ha, rfl⟩ : ∃ a ∈ found, a.parameter.name = name := by
        rcases mem_append.1 hmem with hold | hnew
        · exact h.complete name hold
        · obtain ⟨a, ha, heq⟩ := any_eq_true.1 hany
          exact ⟨a, ha, (beq_iff_eq.1 heq).trans (mem_singleton.1 hnew).symm⟩
      exact hkept a ha
  next hnone =>
    have hfresh : ∀ f ∈ found, f.parameter.name ≠ p.name := by
      intro f hf heq
      exact hnone (any_eq_true.2 ⟨f, hf, beq_iff_eq.2 heq⟩)
    have hunused : p.name ∉ names := by
      intro hmem
      obtain ⟨f, hf, heq⟩ := h.complete _ hmem
      exact hfresh f hf heq
    refine ⟨?_, ?_⟩
    · intro f hf i
      rw [getElem?_concat_iff]
      rcases mem_append.1 hf with hf | hf
      · have hne : p.name ≠ f.parameter.name := fun heq => hfresh f hf heq.symm
        rw [h.positions f hf]
        simp [hne]
      · rw [mem_singleton.1 hf]
        have hnone : names[i]? ≠ some p.name := fun heq => hunused (mem_of_getElem? heq)
        simp [hnone]
    · intro name hmem
      rcases mem_append.1 hmem with hold | hnew
      · obtain ⟨f, hf, heq⟩ := h.complete name hold
        exact ⟨f, mem_append_left _ hf, heq⟩
      · exact ⟨_, mem_append_right _ (mem_singleton_self _),
          (mem_singleton.1 hnew).symm⟩

/-- After all uses, each report is made of the uses with its name. -/
theorem collects_foldl (rule : MergeRule) (uses : List Parameter) :
    Collects (uses.map Parameter.name)
      ((uses.mapIdx fun i p => (⟨[i], p⟩ : Folded)).foldl (foldInto rule) []) := by
  induction uses using List.reverseRecOn with
  | nil => exact ⟨nofun, nofun⟩
  | append_singleton uses p ih =>
    rw [mapIdx_concat, foldl_append, map_append]
    simpa using ih.foldInto rule p

/-- Uses are reported as one exactly if they are merged and have one name. -/
theorem folds_iff {input : AnalysisInput} {s : AnalysisState} {slots : List ParameterSlot}
    {i j : Nat} {a b : ParameterSlot} (ha : slots[i]? = some a) (hb : slots[j]? = some b)
    (hne : i ≠ j) : Folds input s rule slots i j ↔
      merges input rule = true ∧ (parameter input s i a).name = (parameter input s j b).name := by
  have hname : ∀ {k : Nat} {c : ParameterSlot}, slots[k]? = some c →
      ((slots.mapIdx (parameter input s)).map Parameter.name)[k]? =
        some (parameter input s k c).name := by
    intro k c hc
    rw [getElem?_map, getElem?_mapIdx, hc]
    rfl
  unfold Folds folded
  dsimp only
  split
  next hmerges =>
    have hcollects := collects_foldl rule (slots.mapIdx (parameter input s))
    constructor
    · rintro ⟨f, hf, hi, hj⟩
      rw [hcollects.positions f hf, hname ha] at hi
      rw [hcollects.positions f hf, hname hb] at hj
      exact ⟨hmerges, Option.some.inj (hi.trans hj.symm)⟩
    · rintro ⟨-, heq⟩
      obtain ⟨f, hf, hfname⟩ := hcollects.complete _ (mem_of_getElem? (hname ha))
      refine ⟨f, hf, ?_, ?_⟩
      · rw [hcollects.positions f hf, hname ha, hfname]
      · rw [hcollects.positions f hf, hname hb, hfname, heq]
  next hmerges =>
    -- what is not merged is made of one use
    refine iff_of_false ?_ fun h => hmerges h.1
    rintro ⟨f, hf, hi, hj⟩
    obtain ⟨k, hk, rfl⟩ := mem_mapIdx.1 hf
    exact hne ((mem_singleton.1 hi).trans (mem_singleton.1 hj).symm)

end Report

/-! ### Names of uses -/

namespace ParameterSlot

/-- The name under which a use is reported if its bound value is written without a name: that of
the column it is stored in, or one with the position. -/
def placeName (slot : ParameterSlot) (position : Nat) : String :=
  slot.name.getD ("param" ++ toString (position + 1))

end ParameterSlot

/-- A list of uses of bound values, and how it is merged. -/
structure UseList where
  rule : MergeRule
  slots : List ParameterSlot

namespace UseList

variable (list : UseList) (input : AnalysisInput)

/-- Uses of different bound values are reported as one only if the bound values are written with one
name. -/
def MergesByName (s : AnalysisState) : Prop :=
  ∀ (i j : Nat) (a b : ParameterSlot), list.slots[i]? = some a → list.slots[j]? = some b →
    a.ordinal ≠ b.ordinal → Report.Folds input s list.rule list.slots i j →
      ∃ name, input.name? a.ordinal = some name ∧ input.name? b.ordinal = some name

/-- A use of a bound value without a name is reported under a name that is taken: another value
is written with that name, or has no name either and is stored in a column of the same name. -/
def Collides : Prop :=
  ∃ a ∈ list.slots.zipIdx, ∃ b ∈ list.slots, a.1.ordinal ≠ b.ordinal ∧
    input.name? a.1.ordinal = none ∧
      (input.name? b.ordinal = some (a.1.placeName a.2) ∨
        input.name? b.ordinal = none ∧ b.name = some (a.1.placeName a.2))

instance : Decidable (list.Collides input) := inferInstanceAs (Decidable (∃ a ∈ _, ∃ b ∈ _, _))

/-- The names of uses come from their places in one way: all are stored in columns, or none is. -/
inductive Labelled : Prop
  | byPosition (h : ∀ slot ∈ list.slots, slot.name = none)
  | byColumn (h : ∀ slot ∈ list.slots, ∃ column,
      slot.name = some ((input.name? slot.ordinal).getD column))

variable {list input}

/-- A use is reported under the name of its bound value, or under that of its place. -/
theorem Labelled.name_eq (h : list.Labelled input) {s : AnalysisState} {i : Nat}
    {slot : ParameterSlot} (hslot : slot ∈ list.slots) :
    (Report.parameter input s i slot).name =
      (input.name? slot.ordinal).getD (slot.placeName i) := by
  show slot.name.getD _ = _
  unfold ParameterSlot.placeName Report.parameterName
  cases h with
  | byPosition h => rw [h slot hslot, Option.getD_none, Option.getD_none]
  | byColumn h =>
    obtain ⟨column, hname⟩ := h slot hslot
    rw [hname, Option.getD_some, Option.getD_some]
    cases input.name? slot.ordinal <;> rfl

/-- Two places give one name only if they are one, or name a column both. -/
theorem Labelled.placeName_eq (h : list.Labelled input) {i j : Nat} {a b : ParameterSlot}
    (ha : a ∈ list.slots) (hb : b ∈ list.slots) (heq : a.placeName i = b.placeName j) :
    i = j ∨ b.name = some (a.placeName i) := by
  cases h with
  | byPosition h =>
    left
    unfold ParameterSlot.placeName at heq
    rw [h a ha, h b hb, Option.getD_none, Option.getD_none] at heq
    have hchars := congrArg String.toList heq
    rw [String.toList_append, String.toList_append] at hchars
    have hdigits : Nat.toDigits 10 (i + 1) = Nat.toDigits 10 (j + 1) := by
      simpa [Nat.toList_repr] using append_cancel_left hchars
    have hnumber := congrArg (Nat.ofDigitChars 10 · 0) hdigits
    simp only [Nat.ofDigitChars_ten_toDigits] at hnumber
    omega
  | byColumn h =>
    right
    obtain ⟨column, hname⟩ := h b hb
    rw [heq, ParameterSlot.placeName, hname, Option.getD_some]

/-- Bound values are merged only by the names they are written with exactly if nothing is merged, or
no name that comes from a place is taken. -/
theorem mergesByName_iff (h : list.Labelled input) (s : AnalysisState) :
    list.MergesByName input s ↔ (Report.merges input list.rule = true → ¬list.Collides input) := by
  constructor
  · rintro hmerges hrule ⟨⟨a, i⟩, ha, b, hb, hne, hunnamed, htaken⟩
    have ha := mem_zipIdx_iff_getElem?.1 ha
    obtain ⟨j, hb⟩ := mem_iff_getElem?.1 hb
    have hij : i ≠ j := by
      rintro rfl
      rw [ha] at hb
      exact hne (congrArg ParameterSlot.ordinal (Option.some.inj hb))
    have hequal : (Report.parameter input s i a).name = (Report.parameter input s j b).name := by
      rw [h.name_eq (mem_of_getElem? ha), h.name_eq (mem_of_getElem? hb), hunnamed,
        Option.getD_none]
      rcases htaken with hnamed | ⟨hnone, hcolumn⟩
      · rw [hnamed, Option.getD_some]
      · rw [hnone, Option.getD_none, ParameterSlot.placeName, ParameterSlot.placeName, hcolumn,
          Option.getD_some, ParameterSlot.placeName]
    obtain ⟨name, hname, -⟩ :=
      hmerges i j a b ha hb hne ((Report.folds_iff ha hb hij).2 ⟨hrule, hequal⟩)
    rw [hunnamed] at hname
    cases hname
  · intro hfree i j a b ha hb hne hfolds
    have hij : i ≠ j := by
      rintro rfl
      rw [ha] at hb
      exact hne (congrArg ParameterSlot.ordinal (Option.some.inj hb))
    obtain ⟨hrule, hequal⟩ := (Report.folds_iff ha hb hij).1 hfolds
    have hclear := hfree hrule
    rw [h.name_eq (mem_of_getElem? ha), h.name_eq (mem_of_getElem? hb)] at hequal
    cases hnameA : input.name? a.ordinal with
    | some name =>
      rw [hnameA, Option.getD_some] at hequal
      cases hnameB : input.name? b.ordinal with
      | some other =>
        rw [hnameB, Option.getD_some] at hequal
        exact ⟨name, rfl, congrArg some hequal.symm⟩
      | none =>
        rw [hnameB, Option.getD_none] at hequal
        exact absurd ⟨(b, j), mem_zipIdx_iff_getElem?.2 hb, a, mem_of_getElem? ha,
          hne.symm, hnameB, .inl (hequal ▸ hnameA)⟩ hclear
    | none =>
      rw [hnameA, Option.getD_none] at hequal
      cases hnameB : input.name? b.ordinal with
      | some other =>
        rw [hnameB, Option.getD_some] at hequal
        exact absurd ⟨(a, i), mem_zipIdx_iff_getElem?.2 ha, b, mem_of_getElem? hb, hne,
          hnameA, .inl (hequal ▸ hnameB)⟩ hclear
      | none =>
        rw [hnameB, Option.getD_none] at hequal
        rcases h.placeName_eq (mem_of_getElem? ha) (mem_of_getElem? hb) hequal with
          heq | hcolumn
        · exact absurd heq hij
        · exact absurd ⟨(a, i), mem_zipIdx_iff_getElem?.2 ha, b, mem_of_getElem? hb, hne,
            hnameA, .inr ⟨hnameB, hcolumn⟩⟩ hclear

/-- What is reported for a list of uses. -/
def report (list : UseList) (input : AnalysisInput) (s : AnalysisState) : List Parameter :=
  Report.parameters input s list.rule list.slots

end UseList

/-! ### Statements -/

/-- The uses of bound values that the report of a statement is made of, and the state, with types
solved, in which they are reported. -/
structure ReportedUses where
  state : AnalysisState
  parameters : UseList
  data : Option UseList

namespace ReportedUses

/-- The lists of uses, each of which is merged on its own. -/
def lists (uses : ReportedUses) : List UseList := uses.parameters :: uses.data.toList

/-- The uses of a query: every bound value once. -/
def ofQuery (s : AnalysisState) : ReportedUses :=
  { state := s, data := none
    parameters := ⟨.any, (List.range s.parameters.size).map (Analysis.parameterSlot s)⟩ }

/-- The uses of a modification. -/
def ofModification (s : AnalysisState) (shape : ModificationShape) : ReportedUses :=
  { state := s
    data := if shape.type = .delete then none else some ⟨.all, shape.slots.data⟩
    parameters := ⟨shape.merge, shape.slots.parameters⟩ }

end ReportedUses

namespace Statement

/-- The uses of bound values in a statement that is analysed. -/
def uses? (statement : Statement) (input : AnalysisInput) : Option ReportedUses :=
  match statement.kind with
  | .select q =>
    match Analysis.walkQuery input q (.initial input statement.placeholders) with
    | .ok _ s => some (.ofQuery (Report.solve input s))
    | .error _ _ => none
  | _ => (statement.modification? input).map fun (shape, s) =>
    .ofModification (Report.solve input s) shape

/-- A statement that is analysed has uses, from which its lists are reported. -/
theorem uses?_of_analyze {statement : Statement} {input : AnalysisInput} {result : AnalysisResult}
    (h : statement.analyze input = .ok result) :
    ∃ uses, statement.uses? input = some uses ∧
      result.signature.parameters = uses.parameters.report input uses.state ∧
      result.signature.data = uses.data.map (·.report input uses.state) ∧
      ∀ list ∈ uses.lists, list.Labelled input := by
  cases hkind : statement.kind.isModification with
  | false =>
    cases hk : statement.kind with
    | select q =>
      simp only [analyze, hk, report] at h
      split at h
      next shape s hrun =>
        cases h
        have huses : statement.uses? input = some (.ofQuery (Report.solve input s)) := by
          simp only [uses?, hk, hrun]
        refine ⟨_, huses, rfl, rfl, ?_⟩
        intro list hlist
        rw [mem_singleton.1 hlist]
        refine .byPosition fun slot hslot => ?_
        obtain ⟨ordinal, -, rfl⟩ := mem_map.1 hslot
        rfl
      next => cases h
    | insert | update | delete => rw [hk] at hkind; cases hkind
  | true =>
    obtain ⟨shape, s, hshape, rfl⟩ := modification?_of_analyze hkind h
    have huses : statement.uses? input =
        some (.ofModification (Report.solve input s) shape) := by
      unfold uses?
      rw [hshape]
      split
      next q hk => rw [hk] at hkind; cases hkind
      next => rfl
    obtain ⟨step, hstep, hrun⟩ := Option.bind_eq_some_iff.1 hshape
    split at hrun
    next found t hfound =>
      cases hrun
      obtain ⟨⟨hdata, hparameters⟩, -⟩ := Analysis.reports_modification hstep trivial hfound
      refine ⟨_, huses, rfl, ?_, ?_⟩
      · show (if _ then _ else _) = Option.map _ (if _ then _ else _)
        split <;> rfl
      · intro list hlist
        rcases mem_cons.1 hlist with rfl | hlist
        · exact .byPosition hparameters
        · unfold ReportedUses.ofModification at hlist
          dsimp only at hlist
          split at hlist
          · cases hlist
          · rw [mem_singleton.1 hlist]
            exact .byColumn hdata
    next => cases hrun

/-- **Merging by names.** In each list that is reported for a statement, uses of different bound
values are reported as one only if both are written with one name, exactly if uses are not merged in
that list, or no bound value without a name is reported under a name that is taken. What is reported
is what the uses are folded into. -/
theorem merges_by_name_iff {statement : Statement} {input : AnalysisInput}
    {result : AnalysisResult} (hanalyze : statement.analyze input = .ok result) :
    ∃ uses, statement.uses? input = some uses ∧
      result.signature.parameters = uses.parameters.report input uses.state ∧
      result.signature.data = uses.data.map (·.report input uses.state) ∧
      ∀ list ∈ uses.lists,
        (Report.folded input uses.state list.rule list.slots).map Report.Folded.parameter =
          list.report input uses.state ∧
        (list.MergesByName input uses.state ↔
          (Report.merges input list.rule = true → ¬list.Collides input)) := by
  obtain ⟨uses, huses, hparameters, hdata, hlabelled⟩ := uses?_of_analyze hanalyze
  exact ⟨uses, huses, hparameters, hdata, fun list hlist =>
    ⟨Report.map_parameter_folded input uses.state list.rule list.slots,
      UseList.mergesByName_iff (hlabelled list hlist) uses.state⟩⟩

/-- One name is written twice and merged; the bound value between them is reported on its own. -/
theorem merges_by_name_iff_repeated :
    let text := "SELECT x FROM t WHERE x = :a AND x > ? AND x < :a"
    let input := (BoundText.ofText text).analysisInput twoTables {} none
    ∃ statement result uses, parse (BoundText.ofText text).text = .ok statement ∧
      statement.analyze input = .ok result ∧ statement.uses? input = some uses ∧
      result.signature.parameters.map Parameter.name = ["a", "param2"] ∧
      uses.parameters.MergesByName input uses.state := by
  intro text input
  have hread : isAnalyzed (BoundText.ofText text).text input (fun statement result =>
      result.signature.parameters.map Parameter.name == ["a", "param2"] &&
      (statement.uses? input).any fun uses => !uses.parameters.Collides input) = true := by
    decide +kernel
  obtain ⟨statement, result, hparse, hanalyze, htest⟩ := exists_of_isAnalyzed hread
  obtain ⟨hnames, hclear⟩ := Bool.and_eq_true_iff.1 htest
  obtain ⟨uses, huses, -, -, hmerges⟩ := merges_by_name_iff hanalyze
  rw [huses] at hclear
  refine ⟨statement, result, uses, hparse, hanalyze, huses, beq_iff_eq.1 hnames, ?_⟩
  exact (hmerges _ List.mem_cons_self).2.2 fun _ => by simpa using hclear

/-- A bound value without a name goes missing: it is merged with one written with the name of
its position. -/
theorem name_of_position_merges :
    let text := "SELECT x FROM t WHERE x = :param2 AND x > ?"
    let input := (BoundText.ofText text).analysisInput twoTables {} none
    ∃ statement result uses, parse (BoundText.ofText text).text = .ok statement ∧
      statement.analyze input = .ok result ∧ statement.uses? input = some uses ∧
      input.names = [some "param2", none] ∧
      result.signature.parameters.map Parameter.name = ["param2"] ∧
      ¬uses.parameters.MergesByName input uses.state := by
  intro text input
  have hread : isAnalyzed (BoundText.ofText text).text input (fun statement result =>
      result.signature.parameters.map Parameter.name == ["param2"] &&
      (statement.uses? input).any fun uses =>
        uses.parameters.slots.map ParameterSlot.ordinal == [0, 1] &&
          Report.Folds input uses.state uses.parameters.rule uses.parameters.slots 0 1) = true := by
    decide +kernel
  have hnames : input.names = [some "param2", none] := by decide +kernel
  obtain ⟨statement, result, hparse, hanalyze, htest⟩ := exists_of_isAnalyzed hread
  obtain ⟨hreported, hfolded⟩ := Bool.and_eq_true_iff.1 htest
  obtain ⟨uses, huses, -⟩ := uses?_of_analyze hanalyze
  rw [huses] at hfolded
  simp only [Option.any_some, Bool.and_eq_true, beq_iff_eq, decide_eq_true_eq] at hfolded
  obtain ⟨hordinals, hfolds⟩ := hfolded
  refine ⟨statement, result, uses, hparse, hanalyze, huses, hnames, beq_iff_eq.1 hreported, ?_⟩
  intro hmerges
  obtain ⟨a, b, hslots⟩ : ∃ a b, uses.parameters.slots = [a, b] :=
    List.length_eq_two.1 (by rw [← List.length_map, hordinals]; rfl)
  rw [hslots] at hordinals
  obtain ⟨ha, hb⟩ : a.ordinal = 0 ∧ b.ordinal = 1 := by simpa using hordinals
  obtain ⟨name, -, hname⟩ := hmerges 0 1 a b (by rw [hslots]; rfl) (by rw [hslots]; rfl)
    (by rw [ha, hb]; decide) hfolds
  rw [hb, AnalysisInput.name?, hnames] at hname
  cases hname

end Statement

end SqlSignature

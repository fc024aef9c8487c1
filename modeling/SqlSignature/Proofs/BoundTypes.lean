import SqlSignature.Proofs.DeclaredColumns
import SqlSignature.Proofs.OrderedWalk
import SqlSignature.Proofs.ParameterMerge
/-!
# SqlSignature.Proofs.BoundTypes

No bound value is reported with the type of `NULL`. The variables of bound values are free, and the
constraints of a statement that was read are ordered, so solving gives them other types
(`Solver.resolved_ne_null`). Merging uses reports the type of one of them.
-/

open List

namespace SqlSignature

namespace Report

/-- Every type that is reported is that of a use. -/
theorem type_mem_of_mem_parameters {input : AnalysisInput} {s : AnalysisState} {rule : MergeRule}
    {slots : List ParameterSlot} {p : Parameter} (h : p ∈ parameters input s rule slots) :
    p.type ∈ (slots.mapIdx (parameter input s)).map Parameter.type := by
  have hmerge : ∀ {found : List Parameter} {q : Parameter},
      ∀ p ∈ mergeInto rule found q, p.type ∈ (found ++ [q]).map Parameter.type := by
    intro found q p hp
    unfold mergeInto at hp
    split at hp
    · obtain ⟨a, ha, rfl⟩ := List.mem_map.1 hp
      have htype : (if a.name == q.name then mergePair rule a q else a).type = a.type := by
        split <;> rfl
      rw [htype]
      exact mem_map_of_mem (mem_append_left _ ha)
    · exact mem_map_of_mem hp
  have hfold : ∀ (uses found : List Parameter), ∀ p ∈ uses.foldl (mergeInto rule) found,
      p.type ∈ (found ++ uses).map Parameter.type := by
    intro uses
    induction uses with
    | nil =>
      intro found p hp
      rw [append_nil]
      exact mem_map_of_mem hp
    | cons use uses ih =>
      intro found p hp
      obtain ⟨q, hq, htype⟩ := List.mem_map.1 (ih _ p hp)
      rw [← htype, append_cons, map_append, mem_append]
      rcases List.mem_append.1 hq with hq | hq
      · exact .inl (hmerge q hq)
      · exact .inr (mem_map_of_mem hq)
  unfold parameters at h
  dsimp only at h
  split at h
  · exact hfold _ [] p h
  · exact mem_map_of_mem h

/-- A use is reported with the type of its bound value, or with none that is known. -/
theorem parameter_type_ne_null {input : AnalysisInput} {s : AnalysisState}
    (h : ∀ facts ∈ s.parameters.toList, s.solver.resolved facts.var ≠ .null) (i : Nat)
    (slot : ParameterSlot) : (parameter input s i slot).type ≠ .single .null := by
  intro hnull
  have hresolved : (s.parameters[slot.ordinal]?.map fun facts =>
      s.solver.resolved facts.var).getD .unknown = .null := ColumnType.single.inj hnull
  cases hfacts : s.parameters[slot.ordinal]? with
  | none => rw [hfacts] at hresolved; cases hresolved
  | some facts =>
    rw [hfacts] at hresolved
    exact h facts (Array.mem_toList_iff.2 (Array.mem_of_getElem? hfacts)) hresolved

end Report

namespace Statement

open Analysis

variable {text : String} {statement : Statement} {input : AnalysisInput} {result : AnalysisResult}

/-- The uses of bound values are reported in the state after the walk, with types solved. -/
theorem walked_of_uses? {uses : ReportedUses} (h : statement.uses? input = some uses) :
    ∃ s, statement.walked input = .ok s ∧ uses.state = Report.solve input s := by
  have hmodification : ∀ {step : Analysis ModificationShape},
      statement.kind.modification? input = some step →
      (statement.modification? input).map (fun found =>
        ReportedUses.ofModification (Report.solve input found.2) found.1) = some uses →
      ∃ s, stateAfter step (.initial input statement.placeholders) = .ok s ∧
        uses.state = Report.solve input s := by
    intro step hstep hsome
    obtain ⟨⟨shape, s⟩, hfound, rfl⟩ := Option.map_eq_some_iff.1 hsome
    rw [modification?, hstep, Option.bind_some] at hfound
    unfold stateAfter
    split at hfound
    next found t hrun =>
      cases hfound
      exact ⟨s, by simp only [hrun], rfl⟩
    next => cases hfound
  unfold uses? at h
  unfold walked
  cases hkind : statement.kind with
  | select q =>
    simp only [hkind] at h
    unfold stateAfter
    split at h
    next shape s hrun =>
      cases h
      exact ⟨s, by simp only [hrun], rfl⟩
    next => cases h
  | insert | update | delete => rw [hkind] at h; exact hmodification (by rw [hkind]; rfl) h

/-- Solving gives no bound value the type of `NULL`. -/
theorem resolved_parameter_ne_null {s : AnalysisState} (hparse : parse text = .ok statement)
    (hwalked : statement.walked input = .ok s)
    (hdefault : input.config.defaultParameterType ≠ .null) {facts : ParameterFacts}
    (hfacts : facts ∈ s.parameters.toList) :
    (Report.solve input s).solver.resolved facts.var ≠ .null := by
  have htraced := traced_of_walked hparse hwalked
  have hparam : facts.var ∈ (statement.setting input).params := by
    rw [← htraced.params_eq]
    exact mem_map_of_mem hfacts
  obtain ⟨hlt, hfree⟩ := htraced.params_free facts.var hparam
  exact Solver.resolved_ne_null (htraced.sane (fresh_of_walked hwalked))
    (orderly_of_walked (nodup_ids hparse) hwalked).ordered hdefault hlt hfree

/-- **Bound values are not null literals.** If the default type is not the type of `NULL`, then no
bound value is reported with that type, whatever it is compared with or combined with. -/
theorem bound_types_ne_null (hparse : parse text = .ok statement)
    (hanalyze : statement.analyze input = .ok result)
    (hdefault : input.config.defaultParameterType ≠ .null) :
    ∀ p ∈ result.signature.parameters ++ result.signature.data.getD [], p.type ≠ .single .null := by
  obtain ⟨uses, huses, hparameters, hdata, -⟩ := uses?_of_analyze hanalyze
  obtain ⟨s, hwalked, hstate⟩ := walked_of_uses? huses
  have hlist : ∀ list : UseList, ∀ p ∈ list.report input uses.state, p.type ≠ .single .null := by
    intro list p hp
    obtain ⟨use, huse, htype⟩ := List.mem_map.1 (Report.type_mem_of_mem_parameters hp)
    obtain ⟨i, hi, rfl⟩ := List.mem_mapIdx.1 huse
    rw [← htype]
    refine Report.parameter_type_ne_null ?_ i _
    rw [hstate]
    exact fun facts hfacts => resolved_parameter_ne_null hparse hwalked hdefault hfacts
  intro p hp
  rcases List.mem_append.1 hp with hp | hp
  · rw [hparameters] at hp
    exact hlist uses.parameters p hp
  · rw [hdata] at hp
    cases hfound : uses.data with
    | none => rw [hfound] at hp; cases hp
    | some list =>
      rw [hfound] at hp
      exact hlist list p hp

/-- Bound values that are compared with a `NULL` and that stand beside one. -/
theorem bound_types_ne_null_choice :
    let text := "SELECT x FROM t WHERE x = CASE WHEN -? = NULL THEN ? ELSE NULL END"
    let input := (BoundText.ofText text).analysisInput twoTables {} none
    ∃ statement result, parse text = .ok statement ∧ statement.analyze input = .ok result ∧
      input.config.defaultParameterType ≠ .null ∧ result.signature.parameters.length = 2 ∧
      ∀ p ∈ result.signature.parameters ++ result.signature.data.getD [],
        p.type ≠ .single .null := by
  intro text input
  have hread : isAnalyzed text input
      (fun _ result => result.signature.parameters.length == 2) = true := by
    decide +kernel
  obtain ⟨statement, result, hparse, hanalyze, htest⟩ := exists_of_isAnalyzed hread
  have hdefault : input.config.defaultParameterType ≠ .null := nofun
  exact ⟨statement, result, hparse, hanalyze, hdefault, beq_iff_eq.1 htest,
    bound_types_ne_null hparse hanalyze hdefault⟩

end Statement

end SqlSignature

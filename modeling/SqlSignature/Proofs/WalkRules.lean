import SqlSignature.Proofs.WalkSteps
/-!
# SqlSignature.Proofs.WalkRules

What the rules for expressions do to a state that has met a trace. They add constraints between
variables that are known, and give types to the variables of expressions only. `Analysis.Learns`
says this of a step: it needs some variables, meets a trace, and gives out variables. A comparison
of a bound value with a column name is the exception: it is met as a use of the bound value
(`Analysis.gives_comparison`), whose variable need not be known.
-/

open List

namespace SqlSignature

namespace Analysis

/-! ### Steps -/

section

variable (Γ : Setting) (frames : Frames)

/-- A step that meets a trace. It needs variables that belong to expressions and variables that are
known, and gives out variables that are known. -/
def Learns {α : Type} (owns needs : List TypeVar) (u : Trace) (step : Analysis α)
    (out : α → List TypeVar) : Prop :=
  ∀ ⦃t s a s'⦄, Traced Γ s frames t → (∀ v ∈ owns, Owned s v) →
    (∀ v ∈ needs, Known Γ s t v) → step s = .ok a s' →
      Meets Γ frames (t ++ u) s s' ∧
        ∀ v ∈ out a, Known Γ s' (t ++ u) v

end

variable {Γ : Setting} {frames : Frames}
  {t u u' : Trace} {s s' : AnalysisState} {v w : TypeVar} {e : Expr}
  {owns needs vars : List TypeVar} {T : SqlType} {α β : Type}

namespace Learns

variable {step : Analysis α} {next : α → Analysis β} {out : α → List TypeVar}
  {out' : β → List TypeVar}

theorem bind (h : Learns Γ frames owns needs u step out)
    (hnext : ∀ a, Learns Γ frames owns (needs ++ out a) u' (next a) out') :
    Learns Γ frames owns needs (u ++ u') (step >>= next) out' := by
  intro t s b s' ht howns hneeds hrun
  obtain ⟨a, s₁, hstep, hrun⟩ := bind_eq_ok.1 hrun
  obtain ⟨hfirst, hout⟩ := h ht howns hneeds hstep
  obtain ⟨hrest, hknown⟩ := hnext a hfirst.traced
    (fun v hv => hfirst.grown.owners v (howns v hv))
    (forall_mem_append.2 ⟨fun v hv => (hneeds v hv).after hfirst.grown, hout⟩) hrun
  rw [← Trace.append_assoc]
  exact ⟨hfirst.trans hrest, hknown⟩

/-- A step that meets nothing comes last. -/
theorem last (h : Learns Γ frames owns needs u step out)
    (hnext : ∀ a, Learns Γ frames owns (needs ++ out a) {} (next a) out') :
    Learns Γ frames owns needs u (step >>= next) out' :=
  Trace.append_empty u ▸ h.bind hnext

/-- What a step that needs nothing does. -/
theorem run (h : Learns Γ frames [] [] u step out) {a : α}
    (ht : Traced Γ s frames t) (hrun : step s = .ok a s') :
    Meets Γ frames (t ++ u) s s' ∧
      ∀ v ∈ out a, Known Γ s' (t ++ u) v :=
  h ht nofun nofun hrun

/-- What a step that needs nothing and gives out its result does. -/
theorem gives {step : Analysis TypeVar} (h : Learns Γ frames [] [] u step fun v => [v])
    (ht : Traced Γ s frames t) (hrun : step s = .ok v s') : Gives Γ frames (t ++ u) s v s' :=
  ⟨(h.run ht hrun).1, (h.run ht hrun).2 v mem_cons_self⟩

end Learns

/-- A step that meets and gives out nothing comes first. -/
theorem Learns.then {step : Analysis α} {next : α → Analysis β} {out : β → List TypeVar}
    (h : Learns Γ frames owns needs {} step fun _ => [])
    (hnext : ∀ a, Learns Γ frames owns needs u (next a) out) :
    Learns Γ frames owns needs u (step >>= next) out :=
  show Learns Γ frames owns needs ({} ++ u) (step >>= next) out from
    h.bind fun a => (append_nil needs).symm ▸ hnext a

variable {step : Analysis TypeVar} {out : α → List TypeVar}

theorem learns_of_gives (h : ∀ ⦃t s v s'⦄, Traced Γ s frames t → step s = .ok v s' →
      Gives Γ frames (t ++ u) s v s') :
    Learns Γ frames owns needs u step fun v => [v] :=
  fun _ _ _ _ ht _ _ hrun =>
    have hgives := h ht hrun
    ⟨hgives.toMeets, forall_mem_singleton.2 hgives.known⟩

theorem learns_pure {a : α} (h : out a ⊆ owns ++ needs) :
    Learns Γ frames owns needs {} (pure a) out := by
  intro t s _ s' ht howns hneeds hrun
  cases hrun
  rw [Trace.append_empty]
  refine ⟨ht.meets_refl, fun v hv => ?_⟩
  rcases mem_append.1 (h hv) with hv | hv
  · exact ht.known_of_owned (howns v hv)
  · exact hneeds v hv

theorem learns_get {next : AnalysisState → Analysis α}
    (h : ∀ s, Learns Γ frames owns needs u (next s) out) :
    Learns Γ frames owns needs u (get >>= next) out :=
  fun _ s _ _ ht howns hneeds hrun => h s ht howns hneeds hrun

/-! ### Constraints -/

theorem learns_constrain {d : Constraint} (hvars : d.vars ⊆ owns ++ needs)
    (hgiven : ∀ v, d.given? = some v → v ∈ owns) :
    Learns Γ frames owns needs {} (constrain d) fun _ => [] := by
  intro t s _ s' ht howns hneeds hrun
  cases hrun
  rw [Trace.append_empty]
  refine ⟨ht.add (fun v hv => ?_) fun v hv => howns v (hgiven v hv), nofun⟩
  rcases mem_append.1 (hvars hv) with hv | hv
  · exact ht.known_of_owned (howns v hv)
  · exact hneeds v hv

theorem learns_fix (hv : v ∈ owns) : Learns Γ frames owns needs {} (fix v T) fun _ => [] :=
  learns_constrain (cons_subset.2 ⟨mem_append_left _ hv, nil_subset _⟩)
    fun _ hw => Option.some.inj hw ▸ hv

theorem learns_expect (hv : v ∈ needs) : Learns Γ frames owns needs {} (expect v T) fun _ => [] :=
  learns_constrain (cons_subset.2 ⟨mem_append_right _ hv, nil_subset _⟩) nofun

theorem learns_equate (hv : v ∈ needs) (hw : w ∈ needs) :
    Learns Γ frames owns needs {} (equate v w) fun _ => [] :=
  learns_constrain (subset_append_of_subset_right _ (cons_subset.2
    ⟨hv, cons_subset.2 ⟨hw, nil_subset _⟩⟩)) nofun

theorem learns_derive {rule : DeriveRule} (hv : v ∈ owns) (hvars : vars ⊆ needs) :
    Learns Γ frames owns needs {} (constrain (.derive v rule vars))
      fun _ => [] :=
  learns_constrain (cons_subset.2 ⟨mem_append_left _ hv,
    subset_append_of_subset_right _ hvars⟩) fun _ hw => Option.some.inj hw ▸ hv

theorem learns_widen (hv : v ∈ owns) (hvars : vars ⊆ needs) :
    Learns Γ frames owns needs {} (constrain (.widen v vars)) fun _ => [] :=
  learns_constrain (cons_subset.2 ⟨mem_append_left _ hv,
    subset_append_of_subset_right _ hvars⟩) fun _ hw => Option.some.inj hw ▸ hv

/-! ### Notes on bound values -/

/-- Notes about a bound value leave its variable. -/
theorem learns_modifyParameter {i : Nat} {f : ParameterFacts → ParameterFacts}
    (hf : ∀ p, (f p).var = p.var) :
    Learns Γ frames owns needs {}
      (modify fun s => { s with parameters := s.parameters.modify i f } : Analysis PUnit)
      fun _ => [] := by
  intro t s _ s' ht _ _ hrun
  cases hrun
  rw [Trace.append_empty]
  refine ⟨ht.note rfl rfl rfl rfl (ext_getElem? fun k => ?_) ht.typeSets, nofun⟩
  rw [getElem?_map, getElem?_map, Array.getElem?_toList, Array.getElem?_toList,
    Array.getElem?_modify]
  split
  · rw [Option.map_map]
    exact congrArg (Option.map · s.parameters[k]?) (funext hf)
  · rfl

theorem Speaks.learns {step step' : Analysis Unit} (h : Speaks id needs step step') :
    Learns Γ frames owns needs {} step fun _ => [] := by
  induction h with
  | done => exact learns_pure (nil_subset _)
  | expect _ hv => exact learns_expect hv
  | equate hv hw => exact learns_equate hv hw
  | note _ hg => exact learns_modifyParameter hg
  | bind _ _ ih ihNext => exact ih.then fun _ => ihNext

/-! ### Rules -/

/-- A node that is neither a column name nor a bound value. -/
def Plain (Γ : Setting) (e : Expr) : Prop :=
  e.ordinal? = none ∧ Γ.isColumn e.id = false

/-- The variable of a node belongs to it from then on. -/
theorem learns_varOf (he : Plain Γ e) {next : TypeVar → Analysis α}
    (h : ∀ v, Learns Γ frames (v :: owns) needs u (next v) out) :
    Learns Γ frames owns needs u (varOf e >>= next) out := by
  intro t s a s' ht howns hneeds hrun
  obtain ⟨v, s₁, hvar, hrun⟩ := bind_eq_ok.1 hrun
  obtain ⟨hmeets, howned⟩ := meets_varOf ht he.1 he.2 hvar
  obtain ⟨hrest, hknown⟩ := h v hmeets.traced
    (forall_mem_cons.2 ⟨howned, fun w hw => hmeets.grown.owners w (howns w hw)⟩)
    (fun w hw => (hneeds w hw).in_state hmeets.grown) hrun
  exact ⟨hmeets.trans hrest, hknown⟩

/-- The variable of a node is given out in the end. -/
theorem Learns.give {step : Analysis Unit}
    (h : Learns Γ frames (v :: owns) needs {} step fun _ => []) :
    Learns Γ frames (v :: owns) needs {} (step >>= fun _ => pure v)
      fun v => [v] :=
  h.then fun _ => learns_pure (cons_subset.2 ⟨mem_cons_self, nil_subset _⟩)

theorem learns_fixed (he : Plain Γ e) : Learns Γ frames owns needs {} (fixed e T) fun v => [v] :=
  learns_varOf he fun _ => (learns_fix mem_cons_self).give

theorem learns_widened (he : Plain Γ e) (hvars : vars ⊆ needs) :
    Learns Γ frames owns needs {} (widened e vars) fun v => [v] :=
  learns_varOf he fun _ => (learns_widen mem_cons_self hvars).give

variable {left right : TypeVar}

/-- A bound value is compared with a column name. -/
theorem gives_comparison {op : BinaryOp} {p : TypeVar} {use : Use}
    (h : Traced Γ s frames t) (he : Plain Γ e)
    (hop : op.isComparison = true) (hp : Γ.params[use.ordinal]? = some p)
    (hw : Known Γ s t w) (hused : UsedFor Γ s use w)
    (hsides : (left = p ∧ right = w) ∨ (left = w ∧ right = p))
    (hrun : binaryRule e op left right s = .ok v s') :
    Gives Γ frames (t ++ { uses := [use] }) s v s' := by
  obtain ⟨var, s₁, hvar, hrun⟩ := bind_eq_ok.1 hrun
  obtain ⟨hmeets, howned⟩ := meets_varOf h he.1 he.2 hvar
  have hrule : BinaryRule.of op = .comparison := by
    cases op <;> first | rfl | cases hop
  rw [hrule] at hrun
  obtain ⟨_, s₂, hequate, hfix⟩ := bind_eq_ok.1 hrun
  cases hequate
  have hd : Constraint.equal left right = .equal p w ∨
      Constraint.equal left right = .equal w p := by
    rcases hsides with ⟨rfl, rfl⟩ | ⟨rfl, rfl⟩
    · exact .inl rfl
    · exact .inr rfl
  have huse := hmeets.traced.addUse hp (hw.in_state hmeets.grown) (hused.after hmeets.grown) hd
  have hgive : Learns Γ frames [var] [] {}
      (fix var .tinyInt >>= fun _ => pure var) fun v => [v] :=
    (learns_fix mem_cons_self).give
  obtain ⟨hfixed, hknown⟩ := hgive huse.traced
    (forall_mem_singleton.2 (huse.grown.owners _ howned)) nofun hfix
  rw [Trace.append_empty] at hfixed hknown
  exact ⟨(hmeets.trans huse).trans hfixed, hknown v mem_cons_self⟩

/-! ### All rules -/

theorem learns_askResolver (hcolumn : Γ.isColumn e.id = false) (hv : v ∈ owns) :
    Learns Γ frames owns needs {} (askResolver Γ.input e v) fun _ => [] := by
  unfold askResolver
  split
  · exact learns_fix hv
  refine learns_get fun s => ?_
  refine Learns.then ?_ fun _ => ?_
  · intro t s _ s' ht _ _ hrun
    cases hrun
    rw [Trace.append_empty]
    exact ⟨ht.note rfl rfl rfl rfl rfl ht.typeSets, nofun⟩
  split
  · refine (learns_fix hv).then fun _ => ?_
    split
    · intro t s _ s' ht _ _ hrun
      cases hrun
      rw [Trace.append_empty]
      exact ⟨ht.note rfl rfl rfl rfl rfl (forall_mem_cons.2 ⟨hcolumn, ht.typeSets⟩), nofun⟩
    · exact learns_pure (nil_subset _)
  · exact learns_fix hv

theorem Settling.learns {step' : Analysis TypeVar} (hcolumn : Γ.isColumn e.id = false)
    (h : Settling id needs Γ.input e v step step') :
    Learns Γ frames (v :: owns) needs {} step fun v => [v] := by
  induction h with
  | fix => exact (learns_fix mem_cons_self).give
  | derive _ hargs => exact (learns_derive mem_cons_self hargs).give
  | widen hargs => exact (learns_widen mem_cons_self hargs).give
  | ask => exact (learns_askResolver hcolumn mem_cons_self).give
  | after hspeaks _ ih => exact hspeaks.learns.then fun _ => ih

theorem IsRule.learns {step' : Analysis TypeVar} (h : IsRule id needs Γ.input e step step')
    (he : Plain Γ e) : Learns Γ frames owns needs {} step fun v => [v] := by
  cases h with
  | intro h => exact learns_varOf he fun var => (h var).learns he.2

end Analysis

end SqlSignature

import SqlSignature.Analysis.Modification
/-!
# SqlSignature.Proofs.RuleSteps

What a rule for an expression does. It asks for the variable of the expression, speaks of the
variables of the operands (`Analysis.Speaks`), and last gives the variable a type
(`Analysis.Settling`). What holds of all such steps holds of all rules (`Analysis.IsRule`). Two runs
of a rule are taken together, the second one with renamed variables.
-/

namespace SqlSignature

namespace Analysis

section

variable (f : TypeVar → TypeVar) (vars : List TypeVar)

/-- Two steps that speak of variables without giving them a type, and note things about bound
values. -/
inductive Speaks : Analysis Unit → Analysis Unit → Prop
  | done : Speaks (pure ()) (pure ())
  | expect {v : TypeVar} (type : SqlType) (hv : v ∈ vars) :
      Speaks (expect v type) (expect (f v) type)
  | equate {v w : TypeVar} (hv : v ∈ vars) (hw : w ∈ vars) :
      Speaks (equate v w) (equate (f v) (f w))
  | note (ordinal : Nat) {g : ParameterFacts → ParameterFacts} (hg : ∀ p, (g p).var = p.var) :
      Speaks (modify fun s => { s with parameters := s.parameters.modify ordinal g })
        (modify fun s => { s with parameters := s.parameters.modify ordinal g })
  | bind {step step' next next' : Analysis Unit} : Speaks step step' → Speaks next next' →
      Speaks (step >>= fun _ => next) (step' >>= fun _ => next')

variable (input : AnalysisInput) (e : Expr)

/-- Two steps that give the variable of an expression a type, and then give it back. -/
inductive Settling (var : TypeVar) : Analysis TypeVar → Analysis TypeVar → Prop
  | fix (type : SqlType) :
      Settling var (fix var type >>= fun _ => pure var) (fix (f var) type >>= fun _ => pure (f var))
  | derive (rule : DeriveRule) {args : List TypeVar} (hargs : args ⊆ vars) :
      Settling var (constrain (.derive var rule args) >>= fun _ => pure var)
        (constrain (.derive (f var) rule (args.map f)) >>= fun _ => pure (f var))
  | widen {args : List TypeVar} (hargs : args ⊆ vars) :
      Settling var (constrain (.widen var args) >>= fun _ => pure var)
        (constrain (.widen (f var) (args.map f)) >>= fun _ => pure (f var))
  | ask :
      Settling var (askResolver input e var >>= fun _ => pure var)
        (askResolver input e (f var) >>= fun _ => pure (f var))
  | after {step step' : Analysis Unit} {next next' : Analysis TypeVar} :
      Speaks f vars step step' → Settling var next next' →
        Settling var (step >>= fun _ => next) (step' >>= fun _ => next')

/-- Two runs of a rule for an expression. -/
inductive IsRule : Analysis TypeVar → Analysis TypeVar → Prop
  | intro {next next' : TypeVar → Analysis TypeVar}
      (h : ∀ var, Settling f vars input e var (next var) (next' (f var))) :
      IsRule (varOf e >>= next) (varOf e >>= next')

end

variable {f : TypeVar → TypeVar} {vars args : List TypeVar}

/-! ### Operands -/

theorem speaks_expectAll (type : SqlType) (hargs : args ⊆ vars) :
    Speaks f vars (expectAll type args) (expectAll type (args.map f)) := by
  induction args with
  | nil => exact .done
  | cons v rest ih =>
    obtain ⟨hv, hrest⟩ := List.cons_subset.1 hargs
    exact .bind (.expect type hv) (ih hrest)

theorem speaks_equateAll {v : TypeVar} (hv : v ∈ vars) (hargs : args ⊆ vars) :
    Speaks f vars (equateAll v args) (equateAll (f v) (args.map f)) := by
  induction args with
  | nil => exact .done
  | cons w rest ih =>
    obtain ⟨hw, hrest⟩ := List.cons_subset.1 hargs
    exact .bind (.equate hv hw) (ih hrest)

theorem speaks_expectArgs (rule : ArgRule) (position : Nat) (hargs : args ⊆ vars) :
    Speaks f vars (expectArgs rule position args) (expectArgs rule position (args.map f)) := by
  induction args generalizing position with
  | nil => exact .done
  | cons v rest ih =>
    obtain ⟨hv, hrest⟩ := List.cons_subset.1 hargs
    rw [List.map_cons]
    unfold expectArgs
    cases rule.expected position with
    | some type => exact .bind (.expect type hv) (ih _ hrest)
    | none => exact ih _ hrest

/-! ### Bound values -/

theorem speaks_markNullable (ordinal : Nat) :
    Speaks f vars (markNullable ordinal) (markNullable ordinal) :=
  .note ordinal fun _ => rfl

theorem speaks_markNullableExpr (e : Expr) :
    Speaks f vars (markNullableExpr e) (markNullableExpr e) := by
  unfold markNullableExpr
  split
  · exact speaks_markNullable _
  · exact .done

theorem speaks_markNullableAll (es : List Expr) :
    Speaks f vars (markNullableAll es) (markNullableAll es) := by
  induction es with
  | nil => exact .done
  | cons e rest ih => exact .bind (speaks_markNullableExpr e) ih

theorem speaks_markNullableOrdinals (ordinals : List Nat) :
    Speaks f vars (markNullableOrdinals ordinals) (markNullableOrdinals ordinals) := by
  induction ordinals with
  | nil => exact .done
  | cons ordinal rest ih => exact .bind (speaks_markNullable ordinal) ih

theorem speaks_markList (e : Expr) : Speaks f vars (markList e) (markList e) := by
  unfold markList
  split
  · exact .bind (speaks_markNullable _) (.note _ fun _ => rfl)
  · exact .done

/-! ### Rules -/

variable {input : AnalysisInput} {e : Expr} {v left right : TypeVar}

theorem isRule_shiftRule (position : Nat) (hargs : [left, right] ⊆ vars) :
    IsRule f vars input e (shiftRule e position left right)
      (shiftRule e position (f left) (f right)) :=
  .intro fun _ => .derive _ hargs

theorem isRule_unaryRule (op : UnaryOp) (hargs : [v] ⊆ vars) :
    IsRule f vars input e (unaryRule e op v) (unaryRule e op (f v)) := by
  have hv : v ∈ vars := hargs List.mem_cons_self
  refine .intro fun var => ?_
  cases op with
  | minus | plus => exact .after (.expect _ hv) (.derive _ hargs)
  | bitNot => exact .after (.expect _ hv) (.fix _)
  | not => exact .fix _

theorem isRule_binaryRule (op : BinaryOp) (hargs : [left, right] ⊆ vars) :
    IsRule f vars input e (binaryRule e op left right) (binaryRule e op (f left) (f right)) := by
  refine .intro fun var => ?_
  cases BinaryRule.of op with
  | typed operands value => exact .after (speaks_expectAll _ hargs) (.fix _)
  | numeric rule => exact .after (speaks_expectAll _ hargs) (.derive _ hargs)
  | comparison =>
    obtain ⟨hleft, hright⟩ := List.cons_subset.1 hargs
    exact .after (.equate hleft (hright List.mem_cons_self)) (.fix _)
  | logical => exact .fix _

theorem settling_applyReturn {var : TypeVar} (rule : ReturnRule) (hargs : args ⊆ vars) :
    Settling f vars input e var (applyReturn var rule args >>= fun _ => pure var)
      (applyReturn (f var) rule (args.map f) >>= fun _ => pure (f var)) := by
  cases rule with
  | fixed type => exact .fix type
  | sameAsArg position =>
    unfold applyReturn
    rw [List.length_map]
    dsimp only
    split
    · exact .derive _ hargs
    · exact .fix _
  | widen => exact .widen hargs
  | widenFrom position =>
    unfold applyReturn
    dsimp only
    rw [← List.map_drop]
    exact .widen fun v hv => hargs (List.mem_of_mem_drop hv)
  | sum => exact .derive _ hargs

theorem isRule_callRule (name : String) (es : List Expr) (hargs : args ⊆ vars) :
    IsRule f vars input e (callRule input e name es args)
      (callRule input e name es (args.map f)) := by
  refine .intro fun var => ?_
  split
  · exact .ask
  next signature _ =>
    refine .after (speaks_expectArgs _ _ hargs) ?_
    split
    · exact .after (speaks_markNullableAll es) (settling_applyReturn _ hargs)
    · exact settling_applyReturn _ hargs

end Analysis

end SqlSignature

import SqlSignature.Expr.NullRejection
import SqlSignature.Proofs.Evaluation
/-!
# SqlSignature.Proofs.NullRejection

What `Expr.nullRejected` is worth. In a row for which a predicate is true, every column that it
lists is not null, with two exceptions: `NOT BETWEEN` can be true because of one bound alone, while
the other is null, and `NOT IN` is true of a null when there is nothing to compare it with. The
columns listed for these two reasons are the `Expr.unwarranted` ones; all others can be relied on.
-/

open List

namespace SqlSignature

open Interpretation

variable {V : Type} {I : Interpretation V} {ν : Valuation V}

/-! ### Null goes through operands -/

/-- The null of a column at the outside of an operand makes the operand null. -/
theorem Expr.eval_eq_none_of_mem_strictColumns {e c : Expr} (hc : c ∈ e.strictColumns)
    (hn : c.eval I ν = none) : e.eval I ν = none := by
  fun_induction Expr.strictColumns e with
  | case1 id span ref =>
    rw [← List.mem_singleton.mp hc]
    exact hn
  | case2 id span op left right hop ihl ihr =>
    have hstrict : op.propagatesNull := by rw [BinaryOp.propagatesNull, hop, Bool.true_or]
    simp only [Expr.eval, ExprForm.eval, I.binaryValue_eq_strict _ _ hstrict]
    rcases List.mem_append.mp hc with h | h
    · rw [ihl h, I.strict_none_left]
    · rw [ihr h, I.strict_none_right]
  | case3 | case4 => exact absurd hc not_mem_nil
  | case5 id span op operand hop ih =>
    cases op with
    | not => exact absurd rfl hop
    | minus | plus | bitNot => simp only [Expr.eval, ExprForm.eval, ih hc, Option.bind_none]
  | case6 => exact absurd hc not_mem_nil

/-- An operand that is not null has no null column at its outside. -/
theorem Expr.eval_ne_none_of_mem_strictColumns {e c : Expr} (hc : c ∈ e.strictColumns)
    (he : e.eval I ν ≠ none) : c.eval I ν ≠ none :=
  fun hn => he (Expr.eval_eq_none_of_mem_strictColumns hc hn)

/-- A true conjunction has true conjuncts. -/
theorem Expr.Holds.conjunct {e k : Expr} (h : e.Holds I ν) (hk : k ∈ e.conjuncts) :
    k.Holds I ν := by
  fun_induction Expr.conjuncts e with
  | case1 id span left right ihl ihr =>
    have hand : (I.truthOf (left.eval I ν)).and (I.truthOf (right.eval I ν)) = some true := by
      simpa [Expr.Holds, Expr.eval, ExprForm.eval, Interpretation.binaryValue] using h
    obtain ⟨hl, hr⟩ := Truth.and_eq_true.mp hand
    rcases List.mem_append.mp hk with hk | hk
    · exact ihl hl hk
    · exact ihr hr hk
  | case2 e => rwa [List.mem_singleton.mp hk]

/-! ### Columns listed without warrant -/

/-- The columns that a conjunct is said to reject the null of, although it can be true when they are
null: those of both bounds under `NOT BETWEEN`, and those of the operand of a `NOT IN` that compares
with nothing. -/
def Expr.unwarranted (I : Interpretation V) (k : Expr) : List Expr :=
  match k.form with
  | .between _ low high true => low.strictColumns ++ high.strictColumns
  | .inList operand [] true => operand.strictColumns
  | .inQuery operand query true =>
    match I.rows query with
    | [] => operand.strictColumns
    | _ :: _ => []
  | _ => []

theorem Expr.unwarranted_subset (k : Expr) : k.unwarranted I ⊆ k.rejectedByConjunct := by
  intro c hc
  unfold Expr.unwarranted at hc
  unfold Expr.rejectedByConjunct
  split at hc <;> simp_all only [not_mem_nil, append_assoc, mem_append, or_true]
  next => split at hc <;> simp_all

/-- A strict operator that gives a truth value has two operands that are not null. -/
theorem Interpretation.ne_none_of_strict {op : BinaryOp} {a b : Option V} {t : Bool}
    (h : I.truthOf (I.strict op a b) = some t) : a ≠ none ∧ b ≠ none := by
  constructor
  · rintro rfl
    simp at h
  · rintro rfl
    simp at h

/-- `BETWEEN` and `NOT BETWEEN` are true of values only. -/
theorem Interpretation.ne_none_of_within {a low high : Option V} {negated : Bool}
    (h : (I.within a low high).negate negated = some true) : a ≠ none := by
  rintro rfl
  simp [Interpretation.within, Truth.and] at h

/-- A true `BETWEEN` has compared the value with both bounds. -/
theorem Interpretation.bounds_of_within {a low high : Option V}
    (h : (I.within a low high).negate false = some true) : low ≠ none ∧ high ≠ none := by
  rw [Truth.negate_false] at h
  obtain ⟨hl, hh⟩ := Truth.and_eq_true.mp h
  exact ⟨(ne_none_of_strict hl).2, (ne_none_of_strict hh).2⟩

/-- `IN` is true of values only, and so is `NOT IN` when there is something to compare with. -/
theorem Interpretation.ne_none_of_member {a : Option V} {values : List (Option V)} {negated : Bool}
    (h : (I.member a values).negate negated = some true) (hv : negated = true → values ≠ []) :
    a ≠ none := by
  rintro rfl
  cases values with
  | nil =>
    cases negated with
    | true => exact hv rfl rfl
    | false => simp [Interpretation.member, Truth.any] at h
  | cons v rest =>
    rw [I.member_none (cons_ne_nil v rest)] at h
    simp at h

/-- `LIKE` and `NOT LIKE` are true only between values. -/
theorem Interpretation.ne_none_of_fits {a pattern : Option V} {escape : Option (Option V)}
    {negated : Bool} (h : (I.fits a pattern escape).negate negated = some true) :
    a ≠ none ∧ pattern ≠ none := by
  constructor
  · rintro rfl
    simp [Interpretation.fits] at h
  · rintro rfl
    cases a <;> simp [Interpretation.fits] at h

/-- In a true conjunct, a column that it rejects the null of is not null or unwarranted. -/
theorem Expr.Holds.rejected {k c : Expr} (h : k.Holds I ν) (hc : c ∈ k.rejectedByConjunct) :
    c ∈ k.unwarranted I ∨ c.eval I ν ≠ none := by
  obtain ⟨id, span, form⟩ := k
  cases form with
  | binary op left right =>
    simp only [Expr.rejectedByConjunct, Expr.form_node] at hc
    split at hc
    next hop =>
      have hstrict : op.propagatesNull := by rw [BinaryOp.propagatesNull, hop, Bool.or_true]
      have hv : I.truthOf (I.strict op (left.eval I ν) (right.eval I ν)) = some true := by
        rw [← I.binaryValue_eq_strict _ _ hstrict]
        exact h
      obtain ⟨hl, hr⟩ := ne_none_of_strict hv
      rcases List.mem_append.mp hc with hc | hc
      · exact Or.inr (eval_ne_none_of_mem_strictColumns hc hl)
      · exact Or.inr (eval_ne_none_of_mem_strictColumns hc hr)
    next => exact absurd hc not_mem_nil
  | between operand low high negated =>
    have hv : (I.within (operand.eval I ν) (low.eval I ν) (high.eval I ν)).negate negated =
        some true := by simpa [Holds, eval, ExprForm.eval] using h
    simp only [rejectedByConjunct, form_node, mem_append] at hc
    rcases hc with (hc | hc) | hc
    · exact Or.inr (eval_ne_none_of_mem_strictColumns hc (ne_none_of_within hv))
    -- Only under `NOT` can the predicate be true without a bound.
    all_goals cases negated with
      | true => exact Or.inl (by simp [unwarranted, hc])
      | false =>
        obtain ⟨hl, hh⟩ := bounds_of_within hv
        exact Or.inr (eval_ne_none_of_mem_strictColumns hc (by assumption))
  | inList operand list negated =>
    have hv : (I.member (operand.eval I ν) (evalList I ν list)).negate negated = some true := by
      simpa [Holds, eval, ExprForm.eval] using h
    simp only [rejectedByConjunct, form_node] at hc
    -- With nothing to compare with, `NOT IN` is true whatever its operand is.
    by_cases hempty : negated = true ∧ list = []
    · obtain ⟨rfl, rfl⟩ := hempty
      exact Or.inl hc
    · have hne : negated = true → evalList I ν list ≠ [] := fun hneg =>
        evalList_ne_nil fun hlist => hempty ⟨hneg, hlist⟩
      have hoperand := ne_none_of_member hv hne
      exact Or.inr (eval_ne_none_of_mem_strictColumns hc hoperand)
  | inQuery operand query negated =>
    have hv : (I.member (operand.eval I ν) (I.rows query)).negate negated = some true := by
      simpa [Holds, eval, ExprForm.eval] using h
    simp only [rejectedByConjunct, form_node] at hc
    by_cases hempty : negated = true ∧ I.rows query = []
    · obtain ⟨rfl, hrows⟩ := hempty
      exact Or.inl (by simpa [unwarranted, hrows] using hc)
    · have hne : negated = true → I.rows query ≠ [] := fun hneg hrows => hempty ⟨hneg, hrows⟩
      have hoperand := ne_none_of_member hv hne
      exact Or.inr (eval_ne_none_of_mem_strictColumns hc hoperand)
  | like operand pattern escape negated =>
    have hv : (I.fits (operand.eval I ν) (pattern.eval I ν) (evalOption I ν escape)).negate
        negated = some true := by simpa [Holds, eval, ExprForm.eval] using h
    obtain ⟨ho, hp⟩ := ne_none_of_fits hv
    simp only [rejectedByConjunct, form_node, mem_append] at hc
    rcases hc with hc | hc
    · exact Or.inr (eval_ne_none_of_mem_strictColumns hc ho)
    · exact Or.inr (eval_ne_none_of_mem_strictColumns hc hp)
  | isNull operand negated =>
    cases negated with
    | false => simp [rejectedByConjunct] at hc
    | true =>
      have hv : operand.eval I ν ≠ none := by
        intro hnone
        simp [Holds, eval, ExprForm.eval, hnone, Interpretation.truthOf, I.truth_ofBool] at h
      exact Or.inr (eval_ne_none_of_mem_strictColumns hc hv)
  | _ => exact absurd hc not_mem_nil

/-! ### The columns that can be relied on -/

/-- **Null rejection.** In a row for which a predicate is true, each column that a conjunct is said
to reject the null of is not null, unless it is unwarranted there. So they are all not null exactly
if the unwarranted ones among them are. -/
theorem Expr.nullRejected_present_iff (I : Interpretation V) (ν : Valuation V) (e : Expr)
    (h : e.Holds I ν) :
    (∀ k ∈ e.conjuncts, ∀ c ∈ k.rejectedByConjunct, c ∉ k.unwarranted I → c.eval I ν ≠ none) ∧
      ((∀ c ∈ e.nullRejected, c.eval I ν ≠ none) ↔
        ∀ k ∈ e.conjuncts, ∀ c ∈ k.unwarranted I, c.eval I ν ≠ none) := by
  refine ⟨fun k hk c hc hwarranted => ((h.conjunct hk).rejected hc).resolve_left hwarranted, ?_⟩
  constructor
  · intro hall k hk c hc
    exact hall c (List.mem_flatMap.mpr ⟨k, hk, k.unwarranted_subset hc⟩)
  · intro hunwarranted c hc
    obtain ⟨k, hk, hck⟩ := List.mem_flatMap.mp hc
    rcases (h.conjunct hk).rejected hck with hun | hne
    · exact hunwarranted k hk c hun
    · exact hne

/-! ### Whole numbers as values -/

/-- Expressions over whole numbers, with zero for false. -/
def wholeNumbers : Interpretation Int where
  truth n := n != 0
  ofBool b := if b then 1 else 0
  truth_ofBool b := by cases b <;> rfl
  constant
    | .int n => n
    | .bool true => 1
    | _ => 0
  unary
    | .minus, n => some (-n)
    | .bitNot, n => some (-n - 1)
    | _, n => some n
  binary
    | .add, m, n => some (m + n)
    | .sub, m, n => some (m - n)
    | .mul, m, n => some (m * n)
    | .eq, m, n => some (if m = n then 1 else 0)
    | .notEq, m, n => some (if m = n then 0 else 1)
    | .lt, m, n => some (if m < n then 1 else 0)
    | .ltEq, m, n => some (if m ≤ n then 1 else 0)
    | .gt, m, n => some (if n < m then 1 else 0)
    | .gtEq, m, n => some (if n ≤ m then 1 else 0)
    | _, _, _ => none
  concat _ _ := none
  like _ _ _ := none
  rows _ := []
  other _ := none

/-- The columns `a` and `b` of a row. -/
def rowOf (a b : Option Int) : Valuation Int where
  column ref := if ref.name = "a" then a else if ref.name = "b" then b else none
  placeholder _ := none

/-- The column `a`. -/
def columnA : Expr := .node 0 ⟨0, 1⟩ (.column ⟨none, none, "a"⟩)

/-- `a > 1 AND 5 NOT BETWEEN b AND 3` is true when `a` and `b` are 2, and they are both listed; the
first one is listed by a conjunct that warrants it. -/
theorem Expr.nullRejected_present_two :
    let e : Expr := .node 7 ⟨0, 31⟩ (.binary .and
      (.node 2 ⟨0, 5⟩ (.binary .gt columnA (.node 1 ⟨4, 5⟩ (.literal (.int 1)))))
      (.node 6 ⟨10, 31⟩ (.between (.node 3 ⟨10, 11⟩ (.literal (.int 5)))
        (.node 4 ⟨24, 25⟩ (.column ⟨none, none, "b"⟩))
        (.node 5 ⟨30, 31⟩ (.literal (.int 3))) true)))
    e.Holds wholeNumbers (rowOf (some 2) (some 2)) ∧
      columnA.eval wholeNumbers (rowOf (some 2) (some 2)) ≠ none ∧
      ((∀ c ∈ e.nullRejected, c.eval wholeNumbers (rowOf (some 2) (some 2)) ≠ none) ↔
        ∀ k ∈ e.conjuncts, ∀ c ∈ k.unwarranted wholeNumbers,
          c.eval wholeNumbers (rowOf (some 2) (some 2)) ≠ none) := by
  intro e
  obtain ⟨hpresent, hiff⟩ :=
    Expr.nullRejected_present_iff wholeNumbers (rowOf (some 2) (some 2)) e rfl
  exact ⟨rfl, hpresent _ List.mem_cons_self columnA List.mem_cons_self List.not_mem_nil, hiff⟩

/-- `5 NOT BETWEEN a AND 3` is true when `a` is null, and so is `a NOT IN (…)` with a query that
gives no rows; yet both list `a`. -/
theorem Expr.nullRejected_lists_null :
    let outside : Expr := .node 3 ⟨0, 21⟩ (.between (.node 1 ⟨0, 1⟩ (.literal (.int 5))) columnA
      (.node 2 ⟨20, 21⟩ (.literal (.int 3))) true)
    let absent : Expr := .node 1 ⟨0, 38⟩ (.inQuery columnA ⟨[], [], [], none, ⟨10, 37⟩⟩ true)
    (outside.Holds wholeNumbers (rowOf none none) ∧ absent.Holds wholeNumbers (rowOf none none)) ∧
      (columnA ∈ outside.nullRejected ∧ columnA ∈ absent.nullRejected) ∧
        columnA.eval wholeNumbers (rowOf none none) = none :=
  ⟨⟨rfl, rfl⟩, ⟨List.mem_cons_self, List.mem_cons_self⟩, rfl⟩

end SqlSignature

import SqlSignature.Expr.Nullability
import SqlSignature.Proofs.NullRejection
import SqlSignature.Proofs.TreeNodes
/-!
# SqlSignature.Proofs.LeafFacts

What is found out about an expression depends on its own nodes only: whether it is not null depends
on what is known of the columns among its nodes, and the columns that a predicate shows to be not
null are among its nodes.
-/

open List

namespace SqlSignature

/-! ### Not null -/

section

variable {facts facts' : NullFacts}

/-- The same is known of nodes, and of all bound values. -/
structure NullFacts.Agree (facts facts' : NullFacts) (nodes : List Expr) : Prop where
  column : ∀ n ∈ nodes, facts.column n.id = facts'.column n.id
  placeholder : facts.placeholder = facts'.placeholder

theorem NullFacts.Agree.mono {nodes fewer : List Expr} (h : facts.Agree facts' nodes)
    (hfewer : fewer ⊆ nodes) : facts.Agree facts' fewer :=
  ⟨fun n hn => h.column n (hfewer hn), h.placeholder⟩

mutual

theorem Expr.notNull_congr : ∀ e : Expr, facts.Agree facts' e.nodes →
    e.notNull facts = e.notNull facts'
  | .node id span form, h => by
    rw [Expr.notNull, Expr.notNull]
    exact ExprForm.notNull_congr id form (h.column (.node id span form) mem_cons_self)
      (h.mono (subset_cons_self _ _))

theorem ExprForm.notNull_congr (id : Nat) : ∀ form : ExprForm,
    facts.column id = facts'.column id → facts.Agree facts' form.nodes →
      form.notNull facts id = form.notNull facts' id
  | .literal _, _, _ => rfl
  | .column _, hid, _ => hid
  | .placeholder ordinal, _, h => congrFun h.placeholder ordinal
  | .unary _ operand, _, h | .cast operand _, _, h | .interval operand _, _, h =>
    operand.notNull_congr h
  | .binary op left right, _, h => by
    rw [ExprForm.notNull, left.notNull_congr (h.mono (subset_append_left _ _)),
      right.notNull_congr (h.mono (subset_append_right _ _)), ExprForm.notNull]
  | .isNull _ _, _, _ | .isTruth _ _ _, _, _ | .existence _, _, _ => rfl
  | .inQuery _ _ _, _, _ | .subquery _, _, _ => rfl
  | .inList operand list _, _, h => by
    rw [ExprForm.notNull, operand.notNull_congr (h.mono (subset_append_left _ _)),
      Expr.notNullList_congr list (h.mono (subset_append_right _ _)), ExprForm.notNull]
  | .between operand low high _, _, h => by
    rw [ExprForm.notNull, operand.notNull_congr (h.mono (by simp [ExprForm.nodes])),
      low.notNull_congr (h.mono (by simp [ExprForm.nodes])),
      high.notNull_congr (h.mono (by simp [ExprForm.nodes])), ExprForm.notNull]
  | .like operand pattern _ _, _, h => by
    rw [ExprForm.notNull, operand.notNull_congr (h.mono (by simp [ExprForm.nodes])),
      pattern.notNull_congr (h.mono (by simp [ExprForm.nodes])), ExprForm.notNull]
  | .choice _ branches otherwise, _, h => by
    rw [ExprForm.notNull, Branch.notNullAll_congr branches (h.mono (by simp [ExprForm.nodes])),
      Expr.notNullOption_congr otherwise (h.mono (by simp [ExprForm.nodes])), ExprForm.notNull]
  | .call _ args _ _ _, _, h => by
    rw [ExprForm.notNull, Expr.notNullList_congr args (h.mono (subset_append_left _ _)),
      ExprForm.notNull]

theorem Expr.notNullList_congr : ∀ es : List Expr, facts.Agree facts' (Expr.nodesList es) →
    Expr.notNullList facts es = Expr.notNullList facts' es
  | [], _ => rfl
  | e :: rest, h => by
    rw [Expr.notNullList, e.notNull_congr (h.mono (subset_append_left _ _)),
      Expr.notNullList_congr rest (h.mono (subset_append_right _ _)), Expr.notNullList]

theorem Expr.notNullOption_congr : ∀ e : Option Expr, facts.Agree facts' (Expr.nodesOption e) →
    Expr.notNullOption facts e = Expr.notNullOption facts' e
  | none, _ => rfl
  | some e, h => e.notNull_congr h

theorem Branch.notNullAll_congr : ∀ bs : List Branch,
    facts.Agree facts' (Branch.nodesList bs) →
      Branch.notNullAll facts bs = Branch.notNullAll facts' bs
  | [], _ => rfl
  | ⟨condition, result⟩ :: rest, h => by
    rw [Branch.notNullAll, result.notNull_congr (h.mono (by simp [Branch.nodesList])),
      Branch.notNullAll_congr rest (h.mono (subset_append_right _ _)), Branch.notNullAll]

end

end

/-! ### Columns that are shown to be not null -/

theorem Expr.nodes_conjunct_subset {e k : Expr} (hk : k ∈ e.conjuncts) : k.nodes ⊆ e.nodes := by
  fun_induction Expr.conjuncts e with
  | case1 id span left right ihleft ihright =>
    refine subset_cons_of_subset _ ?_
    rcases mem_append.1 hk with hk | hk
    · exact subset_append_of_subset_left _ (ihleft hk)
    · exact subset_append_of_subset_right _ (ihright hk)
  | case2 e _ => rw [mem_singleton.1 hk]; exact List.Subset.refl _

theorem Expr.strictColumns_subset_nodes (e : Expr) : e.strictColumns ⊆ e.nodes := by
  fun_induction Expr.strictColumns e with
  | case1 id span ref => exact cons_subset.2 ⟨mem_cons_self, nil_subset _⟩
  | case2 id span op left right _ ihleft ihright =>
    refine subset_cons_of_subset _ (append_subset.2 ⟨?_, ?_⟩)
    · exact subset_append_of_subset_left _ ihleft
    · exact subset_append_of_subset_right _ ihright
  | case5 id span op operand _ ih => exact subset_cons_of_subset _ ih
  | case3 | case4 | case6 => exact nil_subset _

theorem Expr.rejectedByConjunct_subset_nodes (e : Expr) : e.rejectedByConjunct ⊆ e.nodes := by
  obtain ⟨id, span, form⟩ := e
  refine List.Subset.trans ?_ (subset_cons_self _ form.nodes)
  have hstrict (e : Expr) {nodes : List Expr} (h : e.nodes ⊆ nodes) : e.strictColumns ⊆ nodes :=
    List.Subset.trans e.strictColumns_subset_nodes h
  cases form with
  | binary op left right =>
    unfold rejectedByConjunct
    dsimp only [Expr.form]
    split
    · exact append_subset.2 ⟨hstrict left (subset_append_left _ _),
        hstrict right (subset_append_right _ _)⟩
    · exact nil_subset _
  | between operand low high negated =>
    refine append_subset.2 ⟨append_subset.2 ⟨hstrict operand ?_, hstrict low ?_⟩,
      hstrict high ?_⟩ <;> simp [ExprForm.nodes]
  | inList operand list negated | inQuery operand query negated =>
    exact hstrict operand (subset_append_left _ _)
  | like operand pattern escape negated =>
    refine append_subset.2 ⟨hstrict operand ?_, hstrict pattern ?_⟩ <;> simp [ExprForm.nodes]
  | isNull operand negated =>
    cases negated with
    | false => exact nil_subset _
    | true => exact hstrict operand (List.Subset.refl _)
  | literal | column | placeholder | unary | isTruth | choice | call | cast | interval | existence
  | subquery => exact nil_subset _

/-- The columns that a predicate shows to be not null are among its nodes. -/
theorem Expr.nullRejected_subset_nodes (e : Expr) : e.nullRejected ⊆ e.nodes := by
  intro c hc
  obtain ⟨k, hk, hc⟩ := mem_flatMap.1 hc
  exact nodes_conjunct_subset hk (k.rejectedByConjunct_subset_nodes hc)

end SqlSignature

import SqlSignature.Proofs.ConjunctRuns
import SqlSignature.Proofs.NodeTable
/-!
# SqlSignature.Proofs.ConjunctPartition

The conjuncts of a predicate make it up: the columns of the predicate are those of its conjuncts,
and so are its bound values, in order (`Statement.conjuncts_partition`). Ordinals are sorted over
the whole predicate, queries inside of it included. That they are sorted conjunct by conjunct rests
on the order in which the parser builds nodes: all of the left operand before all of the right one.
-/

open List

namespace SqlSignature

namespace Statement

variable {text : String} {statement : Statement}

section

variable {id : Nat} {span : Span} {op : BinaryOp} {left right : Expr}

theorem mem_nodes_of_operand (he : .node id span (.binary op left right) ∈ statement.kind.nodes) :
    ∀ n ∈ left.nodes ++ right.nodes, n ∈ statement.kind.nodes :=
  fun _ hn => (nodes_subperm he).subset (mem_cons_of_mem _ hn)

variable (h : parse text = .ok statement)
  (he : .node id span (.binary op left right) ∈ statement.kind.nodes)

include h he

/-- The bound values of the left operand are numbered before those of the right one. -/
theorem ordinals_lt_of_operands : ∀ i ∈ left.ordinals, ∀ j ∈ right.ordinals, i < j := by
  obtain ⟨_, _, _, _, _, _, hbuilt, _⟩ := parse_built h
  have hmem : ∀ {e : Expr} {i : Nat}, i ∈ e.ordinals → ∃ n ∈ e.nodes, i ∈ n.ordinal? := by
    intro e i hi
    rw [Expr.ordinals, mem_mergeSort, mem_filterMap] at hi
    obtain ⟨n, hn, hi⟩ := hi
    exact ⟨n, e.descendants_subperm.subset hn, hi⟩
  intro i hi j hj
  obtain ⟨n, hn, hi⟩ := hmem hi
  obtain ⟨m, hm, hj⟩ := hmem hj
  have hlt := hbuilt.operands _ he op left right rfl n hn m hm
  exact hbuilt.numbered n (mem_nodes_of_operand he n (mem_append_left _ hn)) m
    (mem_nodes_of_operand he m (mem_append_right _ hm)) i hi j hj hlt

theorem ordinals_binary (hleft : left ∈ statement.kind.nodes)
    (hright : right ∈ statement.kind.nodes) :
    (Expr.node id span (.binary op left right)).ordinals = left.ordinals ++ right.ordinals := by
  have hperm : (Expr.node id span (.binary op left right)).ordinals.Perm
      (left.ordinals ++ right.ordinals) := by
    refine (mergeSort_perm _ _).trans ?_
    rw [Expr.descendants, ExprForm.descendants, filterMap_cons_none rfl, filterMap_append]
    exact (mergeSort_perm _ _).symm.append (mergeSort_perm _ _).symm
  -- both sides are in strict order
  refine hperm.eq_of_pairwise (fun _ _ _ _ hlt hgt => (Nat.lt_asymm hlt hgt).elim)
    (ordinals_pairwise h he) ?_
  exact pairwise_append.2 ⟨ordinals_pairwise h hleft, ordinals_pairwise h hright,
    ordinals_lt_of_operands h he⟩

end

theorem ordinals_conjuncts (h : parse text = .ok statement) {p : Expr}
    (hp : p ∈ statement.kind.nodes) : p.ordinals = p.conjuncts.flatMap Expr.ordinals := by
  fun_induction Expr.conjuncts p with
  | case1 id span left right ihleft ihright =>
    have hleft : left ∈ statement.kind.nodes :=
      mem_nodes_of_operand hp left (mem_append_left _ left.self_mem_nodes)
    have hright : right ∈ statement.kind.nodes :=
      mem_nodes_of_operand hp right (mem_append_right _ right.self_mem_nodes)
    rw [ordinals_binary h hp hleft hright, ihleft hleft, ihright hright, flatMap_append]
  | case2 p => rw [flatMap_singleton]

end Statement

theorem Expr.columns_conjuncts (p : Expr) : p.columns = p.conjuncts.flatMap Expr.columns := by
  fun_induction Expr.conjuncts p with
  | case1 id span left right ihleft ihright =>
    rw [flatMap_append, ← ihleft, ← ihright]
    rfl
  | case2 p => rw [flatMap_singleton]

/-- The conjuncts of a predicate of a statement that was read: there is one, none is an `AND`, and
one after the other they have the columns and the bound values of the predicate. -/
theorem Statement.conjuncts_partition {text : String} {statement : Statement}
    (h : parse text = .ok statement) :
    ∀ p ∈ statement.kind.nodes,
      p.conjuncts ≠ [] ∧
      (∀ q ∈ p.conjuncts, ∀ left right, q.form ≠ .binary .and left right) ∧
      p.columns = p.conjuncts.flatMap Expr.columns ∧
      p.ordinals = p.conjuncts.flatMap Expr.ordinals := by
  intro p hp
  refine ⟨p.conjuncts_ne_nil, fun q hq left right hform => ?_, p.columns_conjuncts,
    ordinals_conjuncts h hp⟩
  exact Expr.ne_and_of_mem_conjuncts hq (by rw [Expr.connective?, hform]; rfl)

/-- The last conjunct but one has a query with a bound value of its own inside of it. -/
theorem Statement.conjuncts_partition_query :
    let text :=
      "SELECT a FROM t WHERE (x = ? AND y IN (SELECT b FROM u WHERE c = ? AND d)) AND z = ?"
    ∃ statement, parse text = .ok statement ∧
      ∃ p ∈ statement.kind.nodes, p.conjuncts.length = 3 ∧ p.conjuncts ≠ [] ∧
        (∀ q ∈ p.conjuncts, ∀ left right, q.form ≠ .binary .and left right) ∧
        p.columns = p.conjuncts.flatMap Expr.columns ∧
        p.ordinals = p.conjuncts.flatMap Expr.ordinals := by
  intro text
  obtain ⟨statement, hparse, hfound⟩ := exists_of_isRead
    (show isRead text (·.kind.nodes.any (·.conjuncts.length == 3)) = true by decide +kernel)
  obtain ⟨p, hp, hlength⟩ := List.any_eq_true.1 hfound
  exact ⟨statement, hparse, p, hp, eq_of_beq hlength, conjuncts_partition hparse p hp⟩

end SqlSignature

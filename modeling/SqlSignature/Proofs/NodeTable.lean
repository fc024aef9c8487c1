import Mathlib.Data.List.Sort
import SqlSignature.Proofs.Alignment
import SqlSignature.Proofs.NodeReferences
/-!
# SqlSignature.Proofs.NodeTable

The nodes of a statement as a table, in which a node stands at its number and references are
numbers. A walk through the table follows numbers with a stack, and may meet a number that is not in
the table, or go on for ever. For a statement that was read it does neither: references go back in
the table and no two of them go to one node (`Statement.parse_forest`), so that the walks give what
the recursions over the tree give. Placeholders stand in the table and in the text in the order of
their ordinals, and the ordinals below a node are those of the placeholders that references lead to
(`Statement.parse_ordinals`).
-/

open List

namespace SqlSignature

/-! ### Walks through a table -/

namespace Expr

/-- Goes through a table with a stack of the numbers that are still to be visited, and keeps the
nodes that pass a test. There is no result if a number is not in the table or the steps run out. -/
def visit (table : List Expr) (next : Expr → List Expr) (keep : Expr → Bool) :
    (steps : Nat) → (stack : List Nat) → Option (List Expr)
  | _, [] => some []
  | 0, _ :: _ => none
  | steps + 1, i :: stack => do
    let e ← table[i]?
    let found ← visit table next keep steps ((next e).map id ++ stack)
    return [e].filter keep ++ found

/-- The numbers of the conjuncts of the node with a number, if the table has all nodes that are
asked for and the recursion is not deeper than allowed. -/
def conjunctsAt (table : List Expr) : (depth i : Nat) → Option (List Nat)
  | 0, _ => none
  | depth + 1, i => do
    let e ← table[i]?
    match e.form with
    | .binary .and left right =>
      return (← conjunctsAt table depth left.id) ++ (← conjunctsAt table depth right.id)
    | _ => return [i]

variable {table : List Expr}

/-- A walk ends with what a recursion over the tree gives, if it goes on to parts of nodes only and
there are as many steps as nodes below the stack. -/
theorem visit_eq_some {next out : Expr → List Expr} {keep : Expr → Bool}
    (hout : ∀ e, out e = [e].filter keep ++ (next e).flatMap out)
    (hnext : ∀ e, (next e).Subperm e.parts) :
    (steps : Nat) → (stack : List Expr) →
      (∀ e ∈ stack, ∀ n ∈ e.nodes, table[n.id]? = some n) →
      (stack.flatMap nodes).length ≤ steps →
      visit table next keep steps (stack.map id) = some (stack.flatMap out)
  | steps, [], _, _ => by cases steps <;> rfl
  | steps, e :: stack, hstack, hsteps => by
    have hparts := e.nodes_perm_cons.length_eq
    have hbelow : ((next e).flatMap nodes).length ≤ (e.parts.flatMap nodes).length := by
      obtain ⟨l, hperm, hsub⟩ := hnext e
      exact (hperm.flatMap_right nodes).length_eq ▸ (hsub.flatMap nodes).length_le
    simp only [flatMap_cons, length_append, length_cons] at hsteps hparts
    obtain ⟨steps, rfl⟩ : ∃ k, steps = k + 1 := ⟨steps - 1, by omega⟩
    have hrest : visit table next keep steps ((next e).map id ++ stack.map id) =
        some ((next e).flatMap out ++ stack.flatMap out) := by
      rw [← map_append, ← flatMap_append]
      refine visit_eq_some hout hnext steps _ (fun f hf n hn => ?_) ?_
      · rcases mem_append.1 hf with hf | hf
        · refine hstack e mem_cons_self n (e.nodes_perm_cons.mem_iff.2 ?_)
          exact mem_cons_of_mem _ (mem_flatMap.2 ⟨f, (hnext e).subset hf, hn⟩)
        · exact hstack f (mem_cons_of_mem _ hf) n hn
      · rw [flatMap_append, length_append]
        omega
    rw [map_cons, visit, hstack e mem_cons_self e e.self_mem_nodes, Option.bind_eq_bind,
      Option.bind_some, hrest, flatMap_cons, hout e, append_assoc]
    rfl

/-- The recursion for conjuncts ends, if the numbers of operands are smaller. -/
theorem conjunctsAt_eq_some (hback : ∀ e ∈ table, ∀ r ∈ e.references, r.id < e.id ∧ r ∈ table)
    (hat : ∀ e ∈ table, table[e.id]? = some e) : (depth : Nat) → {e : Expr} → e ∈ table →
      e.id < depth → conjunctsAt table depth e.id = some (e.conjuncts.map id)
  | depth + 1, e, he, hdepth => by
    rw [conjunctsAt, hat e he, Option.bind_eq_bind, Option.bind_some]
    fun_cases Expr.conjuncts e with
    | case1 i span left right =>
      have hleft := hback _ he left (by simp [references, children, ExprForm.children])
      have hright := hback _ he right (by simp [references, children, ExprForm.children])
      rw [id_node] at hleft hright hdepth
      simp only [form_node,
        conjunctsAt_eq_some hback hat depth hleft.2 (by omega),
        conjunctsAt_eq_some hback hat depth hright.2 (by omega)]
      simp
    | case2 e hother =>
      obtain ⟨i, span, form⟩ := e
      split
      next left right hform => exact (hother i span left right (by rw [← hform]; rfl)).elim
      next => rfl

end Expr

/-! ### The table of a statement -/

namespace Statement

/-- The nodes of a statement in the order of their numbers. -/
def table (s : Statement) : List Expr := s.kind.nodes.mergeSort fun e f => decide (e.id ≤ f.id)

theorem table_perm (s : Statement) : s.table.Perm s.kind.nodes := mergeSort_perm ..

/-- A walk through the table that gives all nodes that references lead to. -/
def descendantsAt (s : Statement) (i : Nat) : Option (List Expr) :=
  Expr.visit s.table Expr.pending (fun _ => true) s.nodes [i]

/-- A walk through the table that gives the columns, without the inside of queries. -/
def columnsAt (s : Statement) (i : Nat) : Option (List Expr) :=
  Expr.visit s.table Expr.children Expr.isColumn s.nodes [i]

/-- The ordinals of the placeholders among the nodes that a walk gives. -/
def ordinalsAt (s : Statement) (i : Nat) : Option (List Nat) :=
  (s.descendantsAt i).map fun found => (found.filterMap Expr.ordinal?).mergeSort

def conjunctsAt (s : Statement) (i : Nat) : Option (List Nat) := Expr.conjunctsAt s.table s.nodes i

/-- The nodes of a statement form a forest: references go back in the table, and no two of them go
to one node. -/
structure Forest (s : Statement) : Prop where
  numbered : s.table.map Expr.id = List.range s.nodes
  back : ∀ (i : Nat) (e : Expr), s.table[i]? = some e →
    ∀ r ∈ e.references, r.id < i ∧ s.table[r.id]? = some r
  rooted : ∀ e ∈ s.kind.expressions, s.table[e.id]? = some e
  once : ((s.kind.expressions ++ s.table.flatMap Expr.references).map Expr.id).Nodup

/-- Every walk from the node with a number ends, inside of the table. -/
structure WalksEnd (s : Statement) (i : Nat) (e : Expr) : Prop where
  descendants : s.descendantsAt i = some e.descendants
  columns : s.columnsAt i = some e.columns
  ordinals : s.ordinalsAt i = some e.ordinals
  conjuncts : s.conjunctsAt i = some (e.conjuncts.map Expr.id)
  nodup : (e.descendants.map Expr.id).Nodup

variable {text : String} {statement : Statement}

theorem table_ids (h : parse text = .ok statement) :
    statement.table.map Expr.id = List.range statement.nodes := by
  have hsorted : (statement.table.map Expr.id).Pairwise (· ≤ ·) := by
    refine pairwise_map.2 ((pairwise_mergeSort ?_ ?_ _).imp of_decide_eq_true)
    · intro e f g hef hfg
      simp only [decide_eq_true_eq] at hef hfg ⊢
      omega
    · intro e f
      simp only [Bool.or_eq_true, decide_eq_true_eq]
      omega
  exact ((statement.table_perm.map _).trans (ids_perm h)).eq_of_pairwise
    (fun _ _ _ _ => Nat.le_antisymm) hsorted (pairwise_lt_range.imp Nat.le_of_lt)

theorem getElem?_table (h : parse text = .ok statement) {i : Nat} {e : Expr} :
    statement.table[i]? = some e ↔ e ∈ statement.kind.nodes ∧ e.id = i := by
  have hids : ∀ {i : Nat} {e : Expr}, statement.table[i]? = some e → e.id = i := by
    intro i e hi
    have hid : (statement.table.map Expr.id)[i]? = some e.id := by rw [getElem?_map, hi]; rfl
    rw [table_ids h, getElem?_eq_some_iff] at hid
    obtain ⟨hlt, hid⟩ := hid
    rw [← hid, getElem_range]
  constructor
  · intro hi
    exact ⟨statement.table_perm.mem_iff.1 (mem_of_getElem? hi), hids hi⟩
  · rintro ⟨he, rfl⟩
    obtain ⟨i, hi⟩ := getElem?_of_mem (statement.table_perm.mem_iff.2 he)
    rwa [hids hi]

theorem nodes_subperm {e : Expr} (h : e ∈ statement.kind.nodes) :
    e.nodes.Subperm statement.kind.nodes := by
  have hperm := statement.kind.nodes_perm_expressions
  obtain ⟨root, hroot, he⟩ := mem_flatMap.1 (hperm.mem_iff.1 h)
  have hbelow : root.nodes.Subperm (statement.kind.expressions.flatMap Expr.nodes) :=
    (sublist_flatten_of_mem (mem_map_of_mem hroot)).subperm
  exact (Expr.nodes_subperm he).trans (hbelow.trans hperm.symm.subperm)

section

variable (h : parse text = .ok statement)

include h

/-- The nodes below a node of the table are in the table. -/
theorem getElem?_of_mem_nodes {e n : Expr}
    (he : e ∈ statement.kind.nodes) (hn : n ∈ e.nodes) : statement.table[n.id]? = some n :=
  (getElem?_table h).2 ⟨(nodes_subperm he).subset hn, rfl⟩

theorem id_lt_of_mem_parts {e r : Expr}
    (he : e ∈ statement.kind.nodes) (hr : r ∈ e.parts) : r.id < e.id := by
  obtain ⟨_, _, _, _, _, _, hbuilt, _⟩ := parse_built h
  exact hbuilt.below e he r (Expr.mem_form_nodes_of_mem_parts hr)

theorem forest : statement.Forest where
  numbered := table_ids h
  back i e hi r hr := by
    obtain ⟨he, rfl⟩ := (getElem?_table h).1 hi
    have hpart : r ∈ e.parts := mem_append_left _ hr
    refine ⟨id_lt_of_mem_parts h he hpart, getElem?_of_mem_nodes h he ?_⟩
    exact e.nodes_perm_parts.mem_iff.2 (mem_cons_of_mem _ (mem_flatMap.2
      ⟨e, e.self_mem_nodes, hpart⟩))
  rooted e he :=
    (getElem?_table h).2 ⟨statement.kind.nodes_perm_parts.mem_iff.2 (mem_append_left _ he), rfl⟩
  once := by
    -- the nodes that stand aside of calls are the only ones that nothing refers to
    have hsub : (statement.table.flatMap Expr.references).Sublist
        (statement.table.flatMap Expr.parts) :=
      List.Sublist.flatMap_right _ fun e _ => sublist_append_left ..
    have hparts : (statement.kind.expressions ++ statement.table.flatMap Expr.parts).Perm
        statement.kind.nodes :=
      ((statement.table_perm.flatMap_right _).append_left _).trans
        statement.kind.nodes_perm_parts.symm
    exact ((hparts.map Expr.id).nodup_iff.2 (nodup_ids h)).sublist ((hsub.append_left _).map _)

theorem walksEnd {e : Expr} (he : e ∈ statement.kind.nodes) :
    statement.WalksEnd e.id e := by
  have hstack : ∀ f ∈ [e], ∀ n ∈ f.nodes, statement.table[n.id]? = some n := by
    intro f hf n hn
    rw [mem_singleton.1 hf] at hn
    exact getElem?_of_mem_nodes h he hn
  have hsteps : ([e].flatMap Expr.nodes).length ≤ statement.nodes := by
    have hlength := (ids_perm h).length_eq
    have hsub := (nodes_subperm he).length_le
    rw [length_map, length_range] at hlength
    rw [flatMap_singleton]
    omega
  have hdescendants : statement.descendantsAt e.id = some e.descendants := by
    refine (Expr.visit_eq_some Expr.descendants_eq (fun e => ?_) _ [e] hstack hsteps).trans ?_
    · exact (e.inner.reverse_perm.append_left _).subperm.trans (sublist_append_left ..).subperm
    · rw [flatMap_singleton]
  refine ⟨hdescendants, ?_, ?_, ?_, ?_⟩
  · refine (Expr.visit_eq_some Expr.columns_eq (fun e => ?_) _ [e] hstack hsteps).trans ?_
    · exact ((sublist_append_left ..).trans (sublist_append_left ..)).subperm
    · rw [flatMap_singleton]
  · rw [ordinalsAt, hdescendants]
    rfl
  · have hmem : ∀ {f}, f ∈ statement.table ↔ f ∈ statement.kind.nodes :=
      statement.table_perm.mem_iff
    refine Expr.conjunctsAt_eq_some (fun f hf r hr => ?_) (fun f hf => ?_) _ (hmem.2 he) ?_
    · obtain ⟨hlt, hat⟩ := (forest h).back f.id f ((getElem?_table h).2 ⟨hmem.1 hf, rfl⟩) r hr
      exact ⟨hlt, mem_of_getElem? hat⟩
    · exact (getElem?_table h).2 ⟨hmem.1 hf, rfl⟩
    · exact mem_range.1 ((ids_perm h).mem_iff.1 (mem_map_of_mem he))
  · obtain ⟨l, hperm, hsub⟩ := e.descendants_subperm.trans (nodes_subperm he)
    exact (hperm.map Expr.id).nodup_iff.1 ((nodup_ids h).sublist (hsub.map _))

end

/-- The nodes of a statement that was read form a forest, and all walks in it end. -/
theorem parse_forest (h : parse text = .ok statement) :
    statement.Forest ∧ ∀ i e, statement.table[i]? = some e → statement.WalksEnd i e := by
  refine ⟨forest h, fun i e hi => ?_⟩
  obtain ⟨he, rfl⟩ := (getElem?_table h).1 hi
  exact walksEnd h he

theorem parse_forest_derived : ∃ statement : Statement,
    parse "SELECT a FROM t WHERE x IN (SELECT b FROM (SELECT c AS b FROM u) AS v LIMIT ?) AND y" =
      .ok statement ∧ statement.nodes = 8 ∧ statement.Forest ∧
      ∀ i e, statement.table[i]? = some e → statement.WalksEnd i e := by
  have hread : isRead
      "SELECT a FROM t WHERE x IN (SELECT b FROM (SELECT c AS b FROM u) AS v LIMIT ?) AND y"
      (·.nodes == 8) = true := by decide +kernel
  obtain ⟨statement, hparse, hnodes⟩ := exists_of_isRead hread
  exact ⟨statement, hparse, eq_of_beq hnodes, parse_forest hparse⟩

/-! ### Placeholders in the table -/

/-- The placeholders of the table are the numbered ones of the text, in order. -/
theorem table_marks (h : parse text = .ok statement) :
    ∃ tokens, Token.scan text = .ok tokens ∧
      statement.table.filterMap Expr.mark? = (statement.boundStarts tokens).zipIdx := by
  obtain ⟨tokens, hscan, _, hmarks⟩ := parse_marks h
  obtain ⟨_, _, _, _, _, _, hbuilt, _⟩ := parse_built h
  have hperm := (statement.table_perm.filterMap Expr.mark?).trans hmarks
  have htable : (statement.table.filterMap Expr.mark?).Pairwise fun m n => m.2 < n.2 := by
    have hids : (statement.table.map Expr.id).Pairwise (· < ·) :=
      table_ids h ▸ pairwise_lt_range
    refine pairwise_filterMap.2 ((pairwise_map.1 hids).imp_of_mem ?_)
    intro e f he hf hlt m hm n hn
    obtain ⟨i, hi, rfl⟩ := Option.map_eq_some_iff.1 hm
    obtain ⟨j, hj, rfl⟩ := Option.map_eq_some_iff.1 hn
    have hmem : ∀ {g}, g ∈ statement.table → g ∈ statement.kind.nodes :=
      statement.table_perm.mem_iff.1
    exact hbuilt.numbered e (hmem he) f (hmem hf) i hi j hj hlt
  have htext : (statement.boundStarts tokens).zipIdx.Pairwise fun m n => m.2 < n.2 := by
    refine pairwise_map.1 ?_
    rw [zipIdx_map_snd]
    exact pairwise_lt_range' 1
  exact ⟨tokens, hscan, hperm.eq_of_pairwise
    (fun _ _ _ _ hlt hgt => (Nat.lt_asymm hlt hgt).elim) htable htext⟩

/-- The ordinals below a node are in strict order. -/
theorem ordinals_pairwise (h : parse text = .ok statement) {e : Expr}
    (he : e ∈ statement.kind.nodes) : e.ordinals.Pairwise (· < ·) := by
  have hsorted : e.ordinals.Pairwise (· ≤ ·) :=
    (pairwise_mergeSort (by simpa using fun _ _ _ => Nat.le_trans)
      (by simpa using Nat.le_total) _).imp of_decide_eq_true
  have hnodup : e.ordinals.Nodup := by
    obtain ⟨l, hperm, hsub⟩ := e.descendants_subperm.trans (nodes_subperm he)
    have hall : (statement.kind.nodes.filterMap Expr.ordinal?).Nodup :=
      (ordinals_perm h).nodup_iff.2 nodup_range
    exact ((mergeSort_perm _ _).trans (hperm.symm.filterMap _)).nodup_iff.2
      (hall.sublist (hsub.filterMap _))
  exact (hsorted.and hnodup).imp fun hle => Nat.lt_of_le_of_ne hle.1 hle.2

theorem mem_ordinals {e : Expr} {o : Nat} :
    o ∈ e.ordinals ↔ ∃ n, e.Reaches n ∧ n.ordinal? = some o := by
  simp only [Expr.ordinals, mem_mergeSort, mem_filterMap, Expr.mem_descendants_iff]

/-- The placeholders of a statement carry the ordinals below their count, in the order of the table
and of the text, and the ordinals below a node are, in order, those that references lead to. -/
theorem parse_ordinals (h : parse text = .ok statement) :
    statement.table.filterMap Expr.ordinal? = List.range statement.placeholders ∧
      ((statement.table.filterMap Expr.mark?).map Prod.fst).Pairwise (· < ·) ∧
      ∀ e ∈ statement.table, e.ordinals.Pairwise (· < ·) ∧
        ∀ o, o ∈ e.ordinals ↔ ∃ n, e.Reaches n ∧ n.ordinal? = some o := by
  obtain ⟨tokens, hscan, hmarks⟩ := table_marks h
  have hordinals : statement.table.filterMap Expr.ordinal? =
      List.range' 0 (statement.boundStarts tokens).length := by
    rw [Expr.filterMap_ordinal?, hmarks, List.zipIdx_map_snd]
  have hcount := ((statement.table_perm.filterMap _).trans (ordinals_perm h)).length_eq
  rw [hordinals, List.length_range', List.length_range] at hcount
  refine ⟨by rw [hordinals, hcount, List.range_eq_range'], ?_,
    fun e he => ⟨?_, fun o => mem_ordinals⟩⟩
  · rw [hmarks, List.zipIdx_map_fst]
    exact (Token.placeholderStarts_pairwise hscan).filter _
  · exact ordinals_pairwise h (statement.table_perm.mem_iff.1 he)

theorem parse_ordinals_limit : ∃ statement : Statement,
    parse "SELECT ? FROM t WHERE x IN (SELECT b FROM (SELECT ? AS b FROM u) AS v LIMIT ?, ?)" =
      .ok statement ∧ statement.placeholders = 4 ∧
      statement.table.filterMap Expr.ordinal? = List.range statement.placeholders ∧
      ((statement.table.filterMap Expr.mark?).map Prod.fst).Pairwise (· < ·) ∧
      ∀ e ∈ statement.table, e.ordinals.Pairwise (· < ·) ∧
        ∀ o, o ∈ e.ordinals ↔ ∃ n, e.Reaches n ∧ n.ordinal? = some o := by
  obtain ⟨statement, hparse, hcount⟩ := exists_of_isRead
    (show isRead "SELECT ? FROM t WHERE x IN (SELECT b FROM (SELECT ? AS b FROM u) AS v LIMIT ?, ?)"
      (·.placeholders == 4) = true by decide +kernel)
  exact ⟨statement, hparse, eq_of_beq hcount, parse_ordinals hparse⟩

end Statement

end SqlSignature

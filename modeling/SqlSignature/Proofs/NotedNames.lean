import Mathlib.Data.List.Nodup
import SqlSignature.Proofs.LeafFacts
import SqlSignature.Proofs.NameLookup
import SqlSignature.Proofs.WalkFrame
/-!
# SqlSignature.Proofs.NotedNames

What the names in an expression are taken to stand for. A walk notes this of the column names in its
tree, and of no other node (`Analysis.Notes`). So where every node has a number of its own, what is
noted of a node is what its name was looked up as when the walk came to it. This is shown of the
operands of a filter, as deep in `AND`s as they may stand (`Analysis.resolved_conjunct`).
-/

open List

namespace SqlSignature

/-! ### States -/

theorem Expr.operand_mem_nodes {k x left right : Expr} {op : BinaryOp}
    (hform : k.form = .binary op left right) (hx : x = left ∨ x = right) : x ∈ k.nodes := by
  obtain ⟨id, span, form⟩ := k
  cases hform
  refine mem_cons_of_mem _ (mem_append.2 ?_)
  rcases hx with rfl | rfl
  · exact .inl x.self_mem_nodes
  · exact .inr x.self_mem_nodes

namespace AnalysisState

theorem localColumn?_eq_some {s : AnalysisState} {e : Expr} {bound : BoundColumn}
    (h : s.localColumn? e = some bound) :
    s.reference? e = some (.column bound) ∧ bound.scope = s.scopes.innermost := by
  unfold localColumn? at h
  split at h
  next found hfound =>
    split at h
    next hscope =>
      cases h
      exact ⟨hfound, hscope⟩
    next => cases h
  next => cases h

/-- What is noted of a node, if anything, is what scopes offer for its name. -/
def Resolved (s : AnalysisState) (scopes : Scopes) (e : Expr) : Prop :=
  ∀ r, s.reference? e = some r → ∃ ref, e.form = .column ref ∧ scopes.resolve ref = .ok r

theorem Resolved.of_eq {s s' : AnalysisState} {scopes : Scopes} {e : Expr} (h : s.Resolved scopes e)
    (heq : s'.reference? e = s.reference? e) : s'.Resolved scopes e := by
  intro r hr
  rw [heq] at hr
  exact h r hr

/-- Some nodes have numbers of their own, and nothing is noted of them. The nodes of a statement
that was read are numbered so, and the analysis starts with nothing noted. -/
structure Fresh (s : AnalysisState) (nodes : List Expr) : Prop where
  apart : (nodes.map Expr.id).Nodup
  unnoted : ∀ e ∈ nodes, s.reference? e = none

namespace Fresh

variable {s : AnalysisState} {nodes more : List Expr}

theorem sublist {fewer : List Expr} (h : s.Fresh nodes) (hfewer : fewer.Sublist nodes) :
    s.Fresh fewer :=
  ⟨h.apart.sublist (hfewer.map _), fun e he => h.unnoted e (hfewer.subset he)⟩

theorem left (h : s.Fresh (nodes ++ more)) : s.Fresh nodes :=
  h.sublist (sublist_append_left _ _)

theorem right (h : s.Fresh (nodes ++ more)) : s.Fresh more :=
  h.sublist (sublist_append_right _ _)

theorem tail {e : Expr} (h : s.Fresh (e :: nodes)) : s.Fresh nodes :=
  h.sublist (sublist_cons_self _ _)

theorem id_ne (h : s.Fresh (nodes ++ more)) {a b : Expr} (ha : a ∈ nodes) (hb : b ∈ more) :
    a.id ≠ b.id := by
  have hapart := h.apart
  rw [map_append] at hapart
  exact (nodup_append.1 hapart).2.2 _ (mem_map_of_mem ha) _ (mem_map_of_mem hb)

end Fresh

end AnalysisState

namespace Analysis

/-! ### Notes of names -/

/-- A step notes what some of the column names among the nodes stand for, and nothing else. -/
def Notes (nodes : List Expr) (s s' : AnalysisState) : Prop :=
  ∃ new, s'.references = new ++ s.references ∧
    ∀ entry ∈ new, ∃ e ∈ nodes, e.id = entry.1 ∧ ∃ ref, e.form = .column ref

variable {input : AnalysisInput} {nodes more : List Expr} {s s' s'' : AnalysisState} {e : Expr}

theorem Notes.of_eq (h : s'.references = s.references) : Notes nodes s s' :=
  ⟨[], h, fun _ hentry => by cases hentry⟩

theorem Notes.trans (h : Notes nodes s s') (h' : Notes nodes s' s'') : Notes nodes s s'' := by
  obtain ⟨new, heq, hnew⟩ := h
  obtain ⟨later, heq', hlater⟩ := h'
  refine ⟨later ++ new, by rw [heq', heq, append_assoc], ?_⟩
  exact forall_mem_append.2 ⟨hlater, hnew⟩

instance : CoarseInside (Notes nodes) where
  trans _ _ _ := Notes.trans
  of_kept h := .of_eq h.references
  modifyScope _ _ := .of_eq rfl

theorem binds_notes (hnodes : nodes ⊆ more) : Binds (Notes more) nodes := by
  intro e he ref hform
  refine follows_get.bind fun _ => (follows_ofExcept _).bind fun r => ?_
  refine Follows.bind (fun s => ?_) fun _ => follows_pure _
  refine ⟨[(e.id, r)], rfl, fun entry hentry => ?_⟩
  rw [mem_singleton.1 hentry]
  exact ⟨e, hnodes he, rfl, ref, hform⟩

theorem surrounds_notes : Surrounds (Notes nodes) (Notes nodes) where
  inside h := h
  inScope scope h s := by
    rw [after_inScope]
    exact h { s with scopes := s.scopes.push scope }
  isolated h s := by
    rw [after_isolated]
    exact h { s with scopes := #[] }

theorem notes_walk {v : TypeVar} (h : walk input e s = .ok v s') : Notes e.nodes s s' :=
  after_of_ok h ▸ surrounds_notes.walk e (binds_notes (List.Subset.refl _)) s

/-! ### What is noted of a node -/

/-- Of a node with a number that no noted name has, the same is noted as before. -/
theorem Notes.reference?_eq (h : Notes nodes s s')
    (hother : ∀ n ∈ nodes, ∀ ref, n.form = .column ref → n.id ≠ e.id) :
    s'.reference? e = s.reference? e := by
  obtain ⟨new, heq, hnew⟩ := h
  have hnone : new.lookup e.id = none := by
    refine lookup_eq_none_iff.2 fun entry hentry => ?_
    obtain ⟨n, hn, hid, ref, hform⟩ := hnew entry hentry
    rw [bne_iff_ne, ← hid]
    exact (hother n hn ref hform).symm
  rw [AnalysisState.reference?, heq, lookup_append, hnone, Option.none_or]
  rfl

theorem Notes.fresh (h : Notes nodes s s') (hnew : s.Fresh (nodes ++ more)) : s'.Fresh more :=
  ⟨hnew.right.apart, fun _ he =>
    (h.reference?_eq fun _ hn _ _ => hnew.id_ne hn he).trans (hnew.right.unnoted _ he)⟩

/-- After the walk over an expression, what is noted of it is what its name was looked up as. -/
theorem resolved_walk {v : TypeVar} (hnew : s.Fresh e.nodes) (hrun : walk input e s = .ok v s') :
    s'.Resolved s.scopes e := by
  by_cases hcolumn : ∃ ref, e.form = .column ref
  · obtain ⟨ref, hform⟩ := hcolumn
    obtain ⟨id, span, form⟩ := e
    cases hform
    rw [walk, walkForm] at hrun
    obtain ⟨found, hresolve, -, rfl⟩ := bindColumn_eq_ok hrun
    intro r hr
    rw [AnalysisState.reference?, lookup_cons_self] at hr
    cases hr
    exact ⟨ref, rfl, hresolve⟩
  -- no name below the expression has its number
  · have hsame : s'.reference? e = s.reference? e := by
      refine (notes_walk hrun).reference?_eq fun n hn ref hform hid => hcolumn ⟨ref, ?_⟩
      rw [← inj_on_of_nodup_map hnew.apart hn e.self_mem_nodes hid]
      exact hform
    intro r hr
    rw [hsame, hnew.unnoted e e.self_mem_nodes] at hr
    cases hr

/-- The walk over an operation. What is noted of nodes in an operand does not change after the walk
over that operand. -/
theorem walk_binary_eq_ok {id : Nat} {span : Span} {op : BinaryOp} {left right : Expr} {v : TypeVar}
    (hnew : s.Fresh (Expr.node id span (.binary op left right)).nodes)
    (hrun : walk input (.node id span (.binary op left right)) s = .ok v s') :
    ∃ leftVar s₁ rightVar s₂, walk input left s = .ok leftVar s₁ ∧
      walk input right s₁ = .ok rightVar s₂ ∧ (s.Fresh left.nodes ∧ s₁.Fresh right.nodes) ∧
        s₁.scopes = s.scopes ∧ (∀ x ∈ left.nodes, s'.reference? x = s₁.reference? x) ∧
          ∀ x, s'.reference? x = s₂.reference? x := by
  have hoperands : s.Fresh (left.nodes ++ right.nodes) := hnew.tail
  rw [walk, walkForm] at hrun
  obtain ⟨leftVar, s₁, hleft, hrun⟩ := bind_eq_ok.1 hrun
  obtain ⟨rightVar, s₂, hright, hrun⟩ := bind_eq_ok.1 hrun
  have hrule : Notes [] s₂ s' := by
    split at hrun
    · exact after_of_ok hrun ▸ (isRule_shiftRule _ (List.Subset.refl _)).follows input s₂
    · exact after_of_ok hrun ▸ (isRule_binaryRule _ (List.Subset.refl _)).follows input s₂
  have hlast : ∀ x, s'.reference? x = s₂.reference? x :=
    fun x => hrule.reference?_eq fun n hn => by cases hn
  have hkept : Kept s s₁ := after_of_ok hleft ▸ follows_walk input left s
  refine ⟨leftVar, s₁, rightVar, s₂, hleft, hright,
    ⟨hoperands.left, (notes_walk hleft).fresh hoperands⟩, hkept.scopes, fun x hx => ?_, hlast⟩
  rw [hlast, (notes_walk hright).reference?_eq fun n hn _ _ => (hoperands.id_ne hx hn).symm]

/-- After the walk over a filter, what is noted of the operands of its conjuncts is what their names
were looked up as. -/
theorem resolved_conjunct {filter k x : Expr} {op : BinaryOp} {left right : Expr} {v : TypeVar}
    (hnew : s.Fresh filter.nodes) (hrun : walk input filter s = .ok v s')
    (hk : k ∈ filter.conjuncts) (hform : k.form = .binary op left right)
    (hx : x = left ∨ x = right) : s'.Resolved s.scopes x := by
  have hoperand : x ∈ k.nodes := Expr.operand_mem_nodes hform hx
  fun_induction Expr.conjuncts filter generalizing s s' v with
  | case1 id span first second ihfirst ihsecond =>
    obtain ⟨_, s₁, _, s₂, hfirst, hsecond, ⟨hnewFirst, hnewSecond⟩, hscopes, hkept, hlast⟩ :=
      walk_binary_eq_ok hnew hrun
    rcases mem_append.1 hk with hk | hk
    · exact (ihfirst hnewFirst hfirst hk).of_eq (hkept x (Expr.nodes_conjunct_subset hk hoperand))
    · rw [← hscopes]
      exact (ihsecond hnewSecond hsecond hk).of_eq (hlast x)
  | case2 e hne =>
    obtain rfl := mem_singleton.1 hk
    obtain ⟨id, span, form⟩ := k
    cases hform
    obtain ⟨_, s₁, _, s₂, hleft, hright, ⟨hnewLeft, hnewRight⟩, hscopes, hkept, hlast⟩ :=
      walk_binary_eq_ok hnew hrun
    rcases hx with rfl | rfl
    · exact (resolved_walk hnewLeft hleft).of_eq (hkept x x.self_mem_nodes)
    · rw [← hscopes]
      exact (resolved_walk hnewRight hright).of_eq (hlast x)

end Analysis

end SqlSignature

import SqlSignature.Proofs.TypeClasses
import SqlSignature.Proofs.TypePromotion
/-!
# SqlSignature.Proofs.ClassRoots

Where the variables of a class find their root, and what they find there. A link takes the variables
of one class to the root of the other (`WellFormed.root_link`), which is free if both classes were
(`freeAt_link`); a union joins two classes in that way and keeps all others
(`WellFormed.joins_union`). A type that is set is seen by the variables of the class
(`type?_set_self`) and by no others (`type?_set_of_ne`).
-/

namespace SqlSignature

namespace TypeVars

variable {vs : TypeVars} {root child : Nat}

/-! ### The way to a root -/

/-- What links keep, the way to a root keeps. -/
theorem rootFrom_keeps {α : Type} {g : Nat → α} (hg : ∀ i, g (vs.parent i) = g i) :
    ∀ fuel i, g (vs.rootFrom fuel i) = g i
  | 0, _ => rfl
  | fuel + 1, i => by
    rw [rootFrom]
    split
    · rfl
    · rw [rootFrom_keeps hg fuel, hg]

theorem rootFrom_succ : ∀ fuel i,
    vs.parent (vs.rootFrom fuel i) = vs.rootFrom fuel i →
      vs.rootFrom (fuel + 1) i = vs.rootFrom fuel i
  | 0, _, h => rootFrom_of_root h 1
  | fuel + 1, i, h => by
    by_cases hi : vs.parent i = i
    · rw [rootFrom_of_root hi, rootFrom_of_root hi]
    · have hstep : ∀ n, vs.rootFrom (n + 1) i = vs.rootFrom n (vs.parent i) :=
        fun n => by rw [rootFrom, if_neg hi]
      rw [hstep] at h
      rw [hstep, hstep, rootFrom_succ fuel _ h]

theorem root_of_root {i : Nat} (h : vs.parent i = i) : vs.root ⟨i⟩ = i :=
  rootFrom_of_root h _

section

variable {vs : TypeVars} (h : vs.WellFormed)

include h

/-- A variable and its parent have one root. -/
theorem WellFormed.root_parent (i : Nat) : vs.root ⟨vs.parent i⟩ = vs.root ⟨i⟩ := by
  by_cases hi : i < vs.size
  · by_cases hlink : vs.parent i = i
    · rw [hlink]
    · obtain ⟨n, hn⟩ := Nat.exists_eq_add_of_lt (Nat.zero_lt_of_lt hi)
      have hrank := h.rank_lt i hi hlink
      have hroot := h.parent_rootFrom n (vs.parent i) (h.parent_lt i hi) (by omega)
      have hn : vs.size = n + 1 := by omega
      rw [root, root, hn, rootFrom_succ n _ hroot, rootFrom, if_neg hlink]
  · rw [parent_of_size_le (Nat.not_lt.mp hi)]

theorem WellFormed.root_lt {v : TypeVar} (hv : v.index < vs.size) : vs.root v < vs.size := by
  have hlt : ∀ fuel i, i < vs.size → vs.rootFrom fuel i < vs.size := by
    intro fuel
    induction fuel with
    | zero => exact fun i hi => hi
    | succ fuel ih =>
      intro i hi
      rw [rootFrom]
      split
      · exact hi
      · exact ih _ (h.parent_lt i hi)
  exact hlt _ _ hv

/-- A link takes the variables of the one class to the root of the other. -/
theorem WellFormed.root_link (hr : root < vs.size) (hc : child < vs.size) (hne : root ≠ child)
    (hroot : vs.parent root = root) (hchild : vs.parent child = child)
    (hrank : vs.rank child ≤ vs.rank root) (v : TypeVar) :
    (vs.link root child).root v = if vs.root v = child then root else vs.root v := by
  have hlink := h.link hr hc hne hroot hchild hrank
  -- The old links are links of the new classes too, so the new root of a variable is that of its
  -- old root.
  have hold : ∀ i, (vs.link root child).root ⟨vs.parent i⟩ = (vs.link root child).root ⟨i⟩ := by
    intro i
    by_cases hci : child = i
    · rw [← hci, hchild]
    · have hparent := hlink.root_parent i
      rwa [parent_link hr hc, if_neg hci] at hparent
  have hkeeps : (vs.link root child).root ⟨vs.root v⟩ = (vs.link root child).root v :=
    rootFrom_keeps (g := fun i => (vs.link root child).root ⟨i⟩) hold vs.size v.index
  rw [← hkeeps]
  split
  next heq =>
    have hparent := hlink.root_parent child
    rw [parent_link hr hc, if_pos rfl] at hparent
    rw [heq, ← hparent]
    refine root_of_root ?_
    rw [parent_link hr hc, if_neg (Ne.symm hne), hroot]
  next hother =>
    refine root_of_root ?_
    rw [parent_link hr hc, if_neg (Ne.symm hother), h.parent_root]

end

/-! ### What a root knows -/

/-- Whether the class with a root is free. -/
def freeAt (vs : TypeVars) (i : Nat) : Bool := (vs.entries[i]?.map VarEntry.free).getD false

theorem isFree_eq (vs : TypeVars) (v : TypeVar) : vs.isFree v = vs.freeAt (vs.root v) := rfl

variable {vs' : TypeVars} {v w a b : TypeVar}

theorem freeAt_of_skeleton (h : vs'.skeleton = vs.skeleton) (i : Nat) :
    vs'.freeAt i = vs.freeAt i := by
  have hskeleton : ∀ ws : TypeVars, ws.skeleton.freeAt i = ws.freeAt i := by
    intro ws
    simp [freeAt, skeleton, Function.comp_def]
  rw [← hskeleton, h, hskeleton]

theorem freeAt_link (hr : root < vs.size) (hc : child < vs.size) (i : Nat) :
    (vs.link root child).freeAt i =
      if root = i then vs.freeAt root && vs.freeAt child else vs.freeAt i := by
  have h := entry_link hr hc (f := fun e => (e.map VarEntry.free).getD false) (fun _ _ => rfl) i
  simpa [freeAt, Array.getElem?_eq_getElem hr, Array.getElem?_eq_getElem hc] using h

theorem type?_set_of_ne (h : vs.root w ≠ vs.root v) (t : SqlType) :
    (vs.set v t).1.type? w = vs.type? w := by
  rw [type?, root_eq_of_skeleton (vs.skeleton_set v t), type?]
  unfold set
  split
  · rfl
  · simp [adjust, Array.getElem?_modify, Ne.symm h]

theorem type?_set_self (h : vs.root v < vs.size) (t : SqlType) :
    (vs.set v t).1.type? v = some t := by
  rw [type?, root_eq_of_skeleton (vs.skeleton_set v t)]
  unfold set
  split
  next hsame => exact hsame
  next => simp [adjust, Array.getElem?_modify, Array.getElem?_eq_getElem h]

/-! ### Joined classes -/

theorem typeAt_link (hr : root < vs.size) (hc : child < vs.size) (i : Nat) :
    (vs.link root child).typeAt i =
      if root = i then joinTypes (vs.typeAt root) (vs.typeAt child) else vs.typeAt i := by
  have h := entry_link hr hc (f := fun e => e.bind VarEntry.type) (fun _ _ => rfl) i
  simpa [typeAt, Array.getElem?_eq_getElem hr, Array.getElem?_eq_getElem hc] using h

theorem type?_eq (vs : TypeVars) (v : TypeVar) : vs.type? v = vs.typeAt (vs.root v) := rfl

theorem joinTypes_comm (x y : Option SqlType) : joinTypes x y = joinTypes y x := by
  cases x with
  | none => cases y <;> rfl
  | some x =>
    cases y with
    | none => rfl
    | some y => exact congrArg some (SqlType.promote_comm x y)

/-- Whether a variable is in the class of one of two others. -/
def InEither (vs : TypeVars) (a b v : TypeVar) : Prop :=
  vs.root v = vs.root a ∨ vs.root v = vs.root b

/-- The classes of two variables were joined, and all others kept. -/
structure Joins (vs : TypeVars) (a b : TypeVar) (vs' : TypeVars) : Prop where
  root_eq_iff : ∀ v w, vs'.root v = vs'.root w ↔
    vs.root v = vs.root w ∨ vs.InEither a b v ∧ vs.InEither a b w
  free : ∀ v, vs.InEither a b v → vs'.isFree v = (vs.isFree a && vs.isFree b)
  free_other : ∀ v, ¬vs.InEither a b v → vs'.isFree v = vs.isFree v
  type : ∀ v, vs.InEither a b v → vs'.type? v = joinTypes (vs.type? a) (vs.type? b)
  type_other : ∀ v, ¬vs.InEither a b v → vs'.type? v = vs.type? v

theorem Joins.symm (h : vs.Joins a b vs') : vs.Joins b a vs' := by
  have hswap : ∀ v, vs.InEither b a v ↔ vs.InEither a b v := fun v => or_comm
  refine ⟨?_, ?_, ?_, ?_, ?_⟩
  · intro v w
    rw [h.root_eq_iff, hswap, hswap]
  · intro v hv
    rw [h.free v ((hswap v).1 hv), Bool.and_comm]
  · intro v hv
    exact h.free_other v (fun hin => hv ((hswap v).2 hin))
  · intro v hv
    rw [h.type v ((hswap v).1 hv), joinTypes_comm]
  · intro v hv
    exact h.type_other v (fun hin => hv ((hswap v).2 hin))

section

variable (h : vs.WellFormed) (ha : a.index < vs.size) (hb : b.index < vs.size)
  (hne : vs.root a ≠ vs.root b)

include h ha hb hne

theorem WellFormed.joins_link (hrank : vs.rank (vs.root b) ≤ vs.rank (vs.root a)) :
    vs.Joins a b (vs.link (vs.root a) (vs.root b)) := by
  have hra := h.root_lt ha
  have hrb := h.root_lt hb
  have hroot := h.root_link hra hrb hne (h.parent_root a) (h.parent_root b) hrank
  -- the joined class has the root of the first variable
  have hin : ∀ v, vs.InEither a b v → (vs.link (vs.root a) (vs.root b)).root v = vs.root a := by
    intro v hv
    rw [hroot]
    rcases hv with hv | hv
    · rw [if_neg (hv ▸ hne), hv]
    · rw [if_pos hv]
  have hout : ∀ v, ¬vs.InEither a b v →
      (vs.link (vs.root a) (vs.root b)).root v = vs.root v ∧ vs.root a ≠ vs.root v := by
    intro v hv
    refine ⟨?_, fun heq => hv (.inl heq.symm)⟩
    rw [hroot, if_neg (fun heq => hv (.inr heq))]
  refine ⟨?_, ?_, ?_, ?_, ?_⟩
  · intro v w
    by_cases hv : vs.InEither a b v
    · by_cases hw : vs.InEither a b w
      · simp [hin v hv, hin w hw, hv, hw]
      · rw [hin v hv, (hout w hw).1]
        constructor
        · intro heq
          exact absurd heq (hout w hw).2
        · rintro (heq | ⟨_, hw'⟩)
          · rw [InEither, heq] at hv
            exact absurd hv hw
          · exact absurd hw' hw
    · rw [(hout v hv).1]
      by_cases hw : vs.InEither a b w
      · rw [hin w hw]
        constructor
        · intro heq
          exact absurd heq.symm (hout v hv).2
        · rintro (heq | ⟨hv', _⟩)
          · rw [InEither, ← heq] at hw
            exact absurd hw hv
          · exact absurd hv' hv
      · rw [(hout w hw).1]
        simp [hv]
  · intro v hv
    rw [isFree_eq, hin v hv, freeAt_link hra hrb, if_pos rfl]
    rfl
  · intro v hv
    rw [isFree_eq, (hout v hv).1, freeAt_link hra hrb, if_neg (hout v hv).2]
    rfl
  · intro v hv
    rw [type?_eq, hin v hv, typeAt_link hra hrb, if_pos rfl]
    rfl
  · intro v hv
    rw [type?_eq, (hout v hv).1, typeAt_link hra hrb, if_neg (hout v hv).2]
    rfl

theorem WellFormed.joins_union : vs.Joins a b (vs.union a b) := by
  unfold union
  simp only [hne, if_false]
  split
  next hle => exact h.joins_link ha hb hne hle
  next hlt => exact (h.joins_link hb ha (Ne.symm hne) (by omega)).symm

end

theorem isFree_of_root_eq (h : vs.root v = vs.root w) : vs.isFree v = vs.isFree w := by
  rw [isFree_eq, isFree_eq, h]

theorem type?_of_root_eq (h : vs.root v = vs.root w) : vs.type? v = vs.type? w := by
  rw [type?_eq, type?_eq, h]

/-- A class that is not free does not become free. -/
theorem Joins.not_free (h : vs.Joins a b vs') (hv : vs.isFree v = false) :
    vs'.isFree v = false := by
  by_cases hin : vs.InEither a b v
  · rw [h.free v hin]
    rcases hin with heq | heq
    · rw [← isFree_of_root_eq heq, hv, Bool.false_and]
    · rw [← isFree_of_root_eq heq, hv, Bool.and_false]
  · rw [h.free_other v hin, hv]

/-- Two classes that are not free are not joined, if one of the joined classes is free. -/
theorem Joins.root_eq_of_not_free (h : vs.Joins a b vs')
    (hfree : vs.isFree a = true ∨ vs.isFree b = true) (hv : vs.isFree v = false)
    (hw : vs.isFree w = false) (heq : vs'.root v = vs'.root w) : vs.root v = vs.root w := by
  rcases (h.root_eq_iff v w).1 heq with hsame | ⟨hv', hw'⟩
  · exact hsame
  -- the one of the two classes that is not free has both variables
  have hother : ∀ {u x : TypeVar}, vs.isFree u = false → vs.isFree x = true →
      vs.root u ≠ vs.root x := by
    intro u x hu hx hroot
    rw [isFree_of_root_eq hroot, hx] at hu
    cases hu
  rcases hfree with ha | hb
  · exact (hv'.resolve_left (hother hv ha)).trans (hw'.resolve_left (hother hw ha)).symm
  · exact (hv'.resolve_right (hother hv hb)).trans (hw'.resolve_right (hother hw hb)).symm

end TypeVars

end SqlSignature

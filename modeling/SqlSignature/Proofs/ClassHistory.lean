import Mathlib
import SqlSignature.Proofs.ClassRoots
/-!
# SqlSignature.Proofs.ClassHistory

The classes of type variables after any history of calls that make variables, join classes and set
types. Each call keeps what is known of the classes (`History.recorded`), so that after all of them
the way to a root ends, a class of rank `r` has `2 ^ r` members, classes are what the joins
generate, and a class is free if all its members were made free (`History.classes`).
-/

namespace SqlSignature

namespace TypeVars

variable {vs : TypeVars}

/-! ### Histories -/

/-- Classes that calls lead to, each of which is given variables of earlier calls only: with them go
the pairs that were joined, and for each variable whether it was made free. -/
inductive History : (joined : List (TypeVar × TypeVar)) → (made : List Bool) → TypeVars → Prop
  | empty : History [] [] empty
  | fresh {joined : List (TypeVar × TypeVar)} {made : List Bool} {vs : TypeVars}
      (before : History joined made vs) (free : Bool) :
      History joined (made ++ [free]) (vs.fresh free).2
  | union {joined : List (TypeVar × TypeVar)} {made : List Bool} {vs : TypeVars} {a b : TypeVar}
      (before : History joined made vs) (ha : a.index < made.length) (hb : b.index < made.length) :
      History ((a, b) :: joined) made (vs.union a b)
  | set {joined : List (TypeVar × TypeVar)} {made : List Bool} {vs : TypeVars} {v : TypeVar}
      (before : History joined made vs) (hv : v.index < made.length) (type : SqlType) :
      History joined made (vs.set v type).1
  | widen {joined : List (TypeVar × TypeVar)} {made : List Bool} {vs : TypeVars} {v : TypeVar}
      (before : History joined made vs) (hv : v.index < made.length) (type : SqlType) :
      History joined made (vs.widen v type).1

/-- Whether two variables are equal because of the pairs that were joined. -/
def Equated (joined : List (TypeVar × TypeVar)) : TypeVar → TypeVar → Prop :=
  Relation.EqvGen fun a b => (a, b) ∈ joined

/-! ### The way to a root -/

/-- Following links from a variable, for as long as there is one, ends at a root, and all entries
on the way are there. -/
inductive Finds (vs : TypeVars) : Nat → Nat → Prop
  | root {i : Nat} (inside : i < vs.size) (h : vs.parent i = i) : Finds vs i i
  | link {i r : Nat} (inside : i < vs.size) (h : vs.parent i ≠ i)
      (rest : Finds vs (vs.parent i) r) : Finds vs i r

theorem WellFormed.finds_rootFrom (h : vs.WellFormed) :
    ∀ (fuel i : Nat), i < vs.size → vs.size ≤ vs.rank i + fuel → vs.Finds i (vs.rootFrom fuel i)
  | 0, i, hi, hfuel => .root hi (h.parent_rootFrom 0 i hi hfuel)
  | fuel + 1, i, hi, hfuel => by
    rw [rootFrom]
    split
    next hroot => exact .root hi hroot
    next hne =>
      have hlt := h.rank_lt i hi hne
      exact .link hi hne (h.finds_rootFrom fuel _ (h.parent_lt i hi) (by omega))

theorem WellFormed.finds_root (h : vs.WellFormed) {v : TypeVar} (hv : v.index < vs.size) :
    vs.Finds v.index (vs.root v) :=
  h.finds_rootFrom vs.size v.index hv (by omega)

/-! ### Members -/

/-- The members of the class with a root. -/
def members (vs : TypeVars) (root : Nat) : Finset Nat :=
  (Finset.range vs.size).filter fun i => vs.root ⟨i⟩ = root

/-- The class of every root has as many members as its rank asks for. -/
def Weighty (vs : TypeVars) : Prop :=
  ∀ i < vs.size, vs.parent i = i → 2 ^ vs.rank i ≤ (vs.members i).card

theorem members_of_skeleton {vs' : TypeVars} (h : vs'.skeleton = vs.skeleton) (root : Nat) :
    vs'.members root = vs.members root := by
  simp only [members, size_eq_of_skeleton h, root_eq_of_skeleton h]

theorem Weighty.of_skeleton {vs' : TypeVars} (h : vs'.skeleton = vs.skeleton)
    (hvs : vs.Weighty) : vs'.Weighty := by
  intro i hi hroot
  rw [size_eq_of_skeleton h] at hi
  rw [parent_eq_of_skeleton h] at hroot
  rw [rank_eq_of_skeleton h, members_of_skeleton h]
  exact hvs i hi hroot

section

variable {root child : Nat} (h : vs.WellFormed) (hr : root < vs.size) (hc : child < vs.size)
  (hne : root ≠ child) (hroot : vs.parent root = root) (hchild : vs.parent child = child)
  (hrank : vs.rank child ≤ vs.rank root)

include h hr hc hne hroot hchild hrank

/-- A link gives the members of the one class to the other. -/
theorem members_link {i : Nat} (hi : i ≠ child) : (vs.link root child).members i =
    if root = i then vs.members root ∪ vs.members child else vs.members i := by
  ext j
  have hj := h.root_link hr hc hne hroot hchild hrank ⟨j⟩
  split <;> simp only [members, Finset.mem_filter, Finset.mem_union, size_link, hj] <;> grind

/-- On a tie the rank grows by one and the class doubles. -/
theorem Weighty.link (hvs : vs.Weighty) : (vs.link root child).Weighty := by
  intro i hi hparent
  rw [size_link] at hi
  rw [parent_link hr hc] at hparent
  have hic : i ≠ child := by
    rintro rfl
    rw [if_pos rfl] at hparent
    exact hne hparent
  rw [if_neg (Ne.symm hic)] at hparent
  rw [rank_link hr hc, members_link h hr hc hne hroot hchild hrank hic]
  by_cases hri : root = i
  · have hdisjoint : Disjoint (vs.members root) (vs.members child) :=
      Finset.disjoint_filter.2 fun j _ hj hj' => hne (hj.symm.trans hj')
    rw [if_pos hri, if_pos hri, Finset.card_union_of_disjoint hdisjoint]
    have hlarge := hvs root hr hroot
    have hsmall := hvs child hc hchild
    split
    next htie =>
      rw [← htie] at hsmall
      rw [Nat.pow_succ]
      omega
    next => omega
  · rw [if_neg hri, if_neg hri]
    exact hvs i hi hparent

end

/-! ### What is known of the classes -/

/-- What is known of the classes after a history. -/
structure Recorded (joined : List (TypeVar × TypeVar)) (made : List Bool) (vs : TypeVars) :
    Prop where
  wellFormed : vs.WellFormed
  size : vs.size = made.length
  weighty : vs.Weighty
  equated : ∀ a b, vs.root a = vs.root b ↔ Equated joined a b
  free : ∀ v, v.index < vs.size →
    (vs.isFree v = true ↔ ∀ w, vs.root w = vs.root v → made[w.index]? = some true)

variable {joined : List (TypeVar × TypeVar)} {made : List Bool}

/-- A change of types is not seen in the classes. -/
theorem Recorded.of_skeleton {vs' : TypeVars} (hs : vs'.skeleton = vs.skeleton)
    (h : Recorded joined made vs) : Recorded joined made vs' := by
  have hroot := root_eq_of_skeleton hs
  have hsize := size_eq_of_skeleton hs
  refine ⟨h.wellFormed.of_skeleton hs, hsize.trans h.size, h.weighty.of_skeleton hs,
    fun a b => ?_, fun v hv => ?_⟩
  · rw [hroot, hroot, h.equated]
  · simp only [isFree_eq, freeAt_of_skeleton hs, hroot]
    exact h.free v (hsize ▸ hv)

/-! ### A new variable -/

section

variable (free : Bool)

@[simp] theorem fresh_size (vs : TypeVars) : (vs.fresh free).2.size = vs.size + 1 := by
  simp [fresh, size]

@[simp] theorem fresh_parent (vs : TypeVars) (i : Nat) :
    (vs.fresh free).2.parent i = vs.parent i := by
  simp only [fresh, parent, size, Array.getElem?_push]
  split <;> simp_all

@[simp] theorem fresh_rank (vs : TypeVars) (i : Nat) : (vs.fresh free).2.rank i = vs.rank i := by
  simp only [fresh, rank, size, Array.getElem?_push]
  split <;> simp_all

theorem fresh_freeAt (vs : TypeVars) (i : Nat) :
    (vs.fresh free).2.freeAt i = if i = vs.size then free else vs.freeAt i := by
  by_cases hi : i = vs.size
  · simp [fresh, freeAt, hi, size]
  · have hne : i ≠ vs.entries.size := hi
    simp [fresh, freeAt, hi, hne, Array.getElem?_push]

theorem fresh_classCount (vs : TypeVars) :
    (vs.fresh free).2.classCount = vs.classCount + 1 := by
  simp only [classCount, fresh_size, fresh_parent, Finset.range_add_one]
  rw [Finset.filter_insert, if_pos (parent_of_size_le (Nat.le_refl _)),
    Finset.card_insert_of_notMem (by simp)]

theorem rank_of_size_le {i : Nat} (h : vs.size ≤ i) : vs.rank i = 0 := by
  rw [rank, Array.getElem?_eq_none h]
  rfl

theorem WellFormed.fresh (h : vs.WellFormed) : (vs.fresh free).2.WellFormed := by
  refine ⟨fun i hi => ?_, fun i hi hne => ?_, fun i hi => ?_⟩ <;>
    rw [fresh_size] at hi <;> simp only [fresh_size, fresh_parent, fresh_rank] at *
  · by_cases hlast : i < vs.size
    · have := h.parent_lt i hlast
      omega
    · rw [parent_of_size_le (Nat.not_lt.1 hlast)]
      exact hi
  · by_cases hlast : i < vs.size
    · exact h.rank_lt i hlast hne
    · exact absurd (parent_of_size_le (Nat.not_lt.1 hlast)) hne
  · rw [fresh_classCount]
    by_cases hlast : i < vs.size
    · have := h.rank_le i hlast
      omega
    · have := vs.classCount_le
      rw [rank_of_size_le (Nat.not_lt.1 hlast)]
      omega

/-- A new variable is in a class of its own, and all others stay where they are. -/
theorem WellFormed.fresh_root (h : vs.WellFormed) (v : TypeVar) :
    (vs.fresh free).2.root v = vs.root v := by
  have hfrom : ∀ fuel i, (vs.fresh free).2.rootFrom fuel i = vs.rootFrom fuel i := by
    intro fuel
    induction fuel with
    | zero => exact fun _ => rfl
    | succ fuel ih =>
      intro i
      rw [rootFrom, rootFrom, fresh_parent, ih]
  rw [TypeVars.root, hfrom, fresh_size]
  exact rootFrom_succ _ _ (h.parent_root v)

theorem Weighty.fresh (h : vs.WellFormed) (hvs : vs.Weighty) : (vs.fresh free).2.Weighty := by
  intro i hi hroot
  rw [fresh_size] at hi
  rw [fresh_parent] at hroot
  rw [fresh_rank]
  by_cases hlast : i < vs.size
  · refine Nat.le_trans (hvs i hlast hroot) (Finset.card_le_card fun j hj => ?_)
    simp only [members, Finset.mem_filter, Finset.mem_range, fresh_size, h.fresh_root] at hj ⊢
    exact ⟨by omega, hj.2⟩
  · rw [rank_of_size_le (Nat.not_lt.1 hlast), Nat.pow_zero]
    refine Finset.card_pos.2 ⟨i, ?_⟩
    simp only [members, Finset.mem_filter, Finset.mem_range, fresh_size, h.fresh_root]
    exact ⟨hi, root_of_root hroot⟩

end

/-- A variable that is not there is its own root. -/
theorem root_of_size_le {v : TypeVar} (h : vs.size ≤ v.index) : vs.root v = v.index :=
  root_of_root (parent_of_size_le h)

theorem WellFormed.root_lt_iff (h : vs.WellFormed) {v : TypeVar} :
    vs.root v < vs.size ↔ v.index < vs.size := by
  refine ⟨fun hroot => ?_, h.root_lt⟩
  by_contra hv
  rw [root_of_size_le (Nat.not_lt.1 hv)] at hroot
  exact hv hroot

theorem Recorded.fresh (h : Recorded joined made vs) (free : Bool) :
    Recorded joined (made ++ [free]) (vs.fresh free).2 := by
  have hvs := h.wellFormed
  refine ⟨hvs.fresh free, ?_, h.weighty.fresh free hvs, fun a b => ?_, fun v hv => ?_⟩
  · rw [fresh_size, List.length_append, h.size]
    rfl
  · rw [hvs.fresh_root, hvs.fresh_root, h.equated]
  · rw [fresh_size] at hv
    simp only [isFree_eq, hvs.fresh_root, fresh_freeAt]
    by_cases hold : v.index < vs.size
    · have hroot := hvs.root_lt hold
      rw [if_neg (Nat.ne_of_lt hroot), ← isFree_eq, h.free v hold]
      -- the members of an old class are old
      refine forall₂_congr fun w hw => ?_
      rw [List.getElem?_append_left (h.size ▸ hvs.root_lt_iff.1 (hw ▸ hroot))]
    · have hindex : v.index = vs.size := by omega
      have hself : ∀ w, vs.root w = vs.size ↔ w.index = vs.size := by
        intro w
        constructor
        · intro hw
          have hnew : vs.size ≤ w.index := Nat.not_lt.1 fun hlt => by
            have := hvs.root_lt hlt
            omega
          rw [← root_of_size_le hnew, hw]
        · exact fun hw => (root_of_size_le (Nat.le_of_eq hw.symm)).trans hw
      rw [(hself v).2 hindex, if_pos rfl]
      simp only [hself]
      constructor
      · intro hfree w hw
        rw [hw, h.size, List.getElem?_concat_length, hfree]
      · intro hall
        have hlast := hall v hindex
        rwa [hindex, h.size, List.getElem?_concat_length, Option.some_inj] at hlast

/-! ### A join -/

section

variable {a b : TypeVar} (h : Recorded joined made vs)

include h

/-- One more join equates what is in the two classes. -/
theorem Recorded.equated_union (v w : TypeVar) : Equated ((a, b) :: joined) v w ↔
    vs.root v = vs.root w ∨ vs.InEither a b v ∧ vs.InEither a b w := by
  constructor
  · intro hequated
    induction hequated with
    | rel x y hmem =>
      rcases List.mem_cons.1 hmem with hpair | hbefore
      · cases hpair
        exact .inr ⟨.inl rfl, .inr rfl⟩
      · exact .inl ((h.equated x y).2 (.rel _ _ hbefore))
    | refl => exact .inl rfl
    | symm _ _ _ ih => exact ih.imp Eq.symm And.symm
    | trans x y z _ _ ihxy ihyz =>
      unfold InEither at ihxy ihyz ⊢
      grind
  · have hkeeps : ∀ {x y}, vs.root x = vs.root y → Equated ((a, b) :: joined) x y :=
      fun heq => Relation.EqvGen.mono (fun _ _ => List.mem_cons_of_mem _) _ _
        ((h.equated _ _).1 heq)
    have hpair : Equated ((a, b) :: joined) a b := .rel _ _ List.mem_cons_self
    have hfirst : ∀ {x}, vs.InEither a b x → Equated ((a, b) :: joined) x a := by
      rintro x (hx | hx)
      · exact hkeeps hx
      · exact .trans _ _ _ (hkeeps hx) (.symm _ _ hpair)
    rintro (heq | ⟨hv, hw⟩)
    · exact hkeeps heq
    · exact .trans _ _ _ (hfirst hv) (.symm _ _ (hfirst hw))

theorem Recorded.union (ha : a.index < vs.size) (hb : b.index < vs.size) :
    Recorded ((a, b) :: joined) made (vs.union a b) := by
  have hvs := h.wellFormed
  have hadvances := hvs.advances_union a b
  by_cases heq : vs.root a = vs.root b
  · have hsame : vs.union a b = vs := by simp [TypeVars.union, heq]
    rw [hsame]
    refine { h with equated := fun v w => ?_ }
    rw [h.equated_union]
    unfold InEither
    grind
  · have hjoins := hvs.joins_union ha hb heq
    refine ⟨hadvances.wellFormed, hadvances.size.trans h.size, ?_, fun v w => ?_,
      fun v hv => ?_⟩
    · unfold TypeVars.union
      simp only [heq, if_false]
      have hra := hvs.root_lt ha
      have hrb := hvs.root_lt hb
      split
      next hle =>
        exact h.weighty.link hvs hra hrb heq (hvs.parent_root a) (hvs.parent_root b) hle
      next hlt =>
        exact h.weighty.link hvs hrb hra (Ne.symm heq) (hvs.parent_root b) (hvs.parent_root a)
          (by omega)
    · rw [h.equated_union, hjoins.root_eq_iff]
    · rw [hadvances.size] at hv
      by_cases hin : vs.InEither a b v
      · rw [hjoins.free v hin, Bool.and_eq_true, h.free a ha, h.free b hb]
        simp only [hjoins.root_eq_iff]
        unfold InEither at hin ⊢
        grind
      · rw [hjoins.free_other v hin, h.free v hv]
        refine forall_congr' fun w => imp_congr_left ?_
        rw [hjoins.root_eq_iff]
        simp [hin]

end

theorem History.recorded (h : History joined made vs) : Recorded joined made vs := by
  induction h with
  | empty =>
    refine ⟨fresh_empty.wellFormed, rfl, nofun, fun a b => ?_, nofun⟩
    rw [root_of_size_le (Nat.zero_le _), root_of_size_le (Nat.zero_le _)]
    constructor
    · intro heq
      cases a
      cases heq
      exact .refl _
    · intro hequated
      induction hequated with
      | rel _ _ hmem => cases hmem
      | refl => rfl
      | symm _ _ _ ih => exact ih.symm
      | trans _ _ _ _ _ ih ih' => exact ih.trans ih'
  | fresh _ free ih => exact ih.fresh free
  | union _ ha hb ih => exact ih.union (ih.size ▸ ha) (ih.size ▸ hb)
  | set | widen => exact Recorded.of_skeleton (skeleton_set _ _ _) ‹_›

theorem Finds.rank_le (h : vs.WellFormed) {i r : Nat} (hfinds : vs.Finds i r) :
    vs.rank i ≤ vs.rank r := by
  induction hfinds with
  | root => exact Nat.le_refl _
  | link inside hne _ ih => exact Nat.le_trans (Nat.le_of_lt (h.rank_lt _ inside hne)) ih

/-- Ranks are logarithms of numbers of variables at most. -/
theorem Recorded.two_pow_rank_le (h : Recorded joined made vs) {i : Nat}
    (hi : i < vs.size) : 2 ^ vs.rank i ≤ vs.size := by
  have hvs := h.wellFormed
  calc 2 ^ vs.rank i ≤ 2 ^ vs.rank (vs.root ⟨i⟩) :=
        Nat.pow_le_pow_right (by omega) ((hvs.finds_root (v := ⟨i⟩) hi).rank_le hvs)
    _ ≤ (vs.members (vs.root ⟨i⟩)).card := h.weighty _ (hvs.root_lt hi) (hvs.parent_root _)
    _ ≤ vs.size := (Finset.card_filter_le _ _).trans_eq (Finset.card_range _)

/-- **Classes after a history.** After any calls that are given variables of earlier calls: from
every variable the way to its root ends; ranks grow along links; a class of rank `r` has at least
`2 ^ r` members, so that a byte holds every rank of fewer than `2 ^ 255` variables; two variables
are in one class exactly if the joins make them equal; and a class is free exactly if all its
members were made free. -/
theorem History.classes (h : History joined made vs) :
    (∀ v : TypeVar, v.index < made.length → vs.Finds v.index (vs.root v)) ∧
    (∀ i < made.length, vs.parent i ≠ i → vs.rank i < vs.rank (vs.parent i)) ∧
    (∀ v : TypeVar, v.index < made.length →
      2 ^ vs.rank (vs.root v) ≤ (vs.members (vs.root v)).card) ∧
    (made.length < 2 ^ 255 → ∀ i < made.length, vs.rank i < UInt8.size) ∧
    (∀ a b, vs.same a b = true ↔ Equated joined a b) ∧
    ∀ v : TypeVar, v.index < made.length → (vs.isFree v = true ↔
      ∀ w, vs.same w v = true → made[w.index]? = some true) := by
  have hrecorded := h.recorded
  have hvs := hrecorded.wellFormed
  simp only [← hrecorded.size, same, beq_iff_eq]
  refine ⟨fun v hv => hvs.finds_root hv, hvs.rank_lt, fun v hv => ?_, fun hfew i hi => ?_,
    hrecorded.equated, hrecorded.free⟩
  · exact hrecorded.weighty _ (hvs.root_lt hv) (hvs.parent_root v)
  · have hle := hrecorded.two_pow_rank_le hi
    have hlt := (Nat.pow_lt_pow_iff_right (by omega)).1 (Nat.lt_of_le_of_lt hle hfew)
    exact Nat.lt_trans hlt (by decide)

/-- Two bound values that are joined to a column one after the other are in its class, which is not
free and holds three variables under a root of rank one. -/
theorem History.classes_column : ∃ vs, History [(⟨2⟩, ⟨1⟩), (⟨0⟩, ⟨1⟩)] [true, false, true] vs ∧
    vs.Finds 2 0 ∧ vs.rank 0 = 1 ∧ (vs.members 0).card = 3 ∧ vs.same ⟨2⟩ ⟨0⟩ = true ∧
      vs.isFree ⟨2⟩ = false := by
  have hcolumn := ((History.empty.fresh true).fresh false).set (v := ⟨1⟩) (by decide) .int
  have hfirst := hcolumn.union (a := ⟨0⟩) (b := ⟨1⟩) (by decide) (by decide)
  have hsecond := (hfirst.fresh true).widen (v := ⟨2⟩) (by decide) .double
  have hjoined := hsecond.union (a := ⟨2⟩) (b := ⟨1⟩) (by decide) (by decide)
  obtain ⟨hfinds, -, -, -, hsame, -⟩ := hjoined.classes
  have hequated : Equated [(⟨2⟩, ⟨1⟩), (⟨0⟩, ⟨1⟩)] ⟨2⟩ ⟨0⟩ :=
    .trans _ ⟨1⟩ _ (.rel _ _ (by decide)) (.symm _ _ (.rel _ _ (by decide)))
  exact ⟨_, hjoined, hfinds ⟨2⟩ (by decide), by decide, by decide, (hsame _ _).2 hequated,
    by decide⟩

end TypeVars

end SqlSignature

import Mathlib.Data.Fintype.BigOperators
import Mathlib.Data.Fintype.Option
import Mathlib.Data.Fintype.Pigeonhole
import Mathlib.Logic.Function.Iterate
import Mathlib.Tactic.Ring
import SqlSignature.Proofs.TypeClasses
import SqlSignature.Proofs.TypePromotion
/-!
# SqlSignature.Proofs.ForwardLoop

The loop that goes forward until a pass changes nothing. There are finitely many states that it can
run through, so it comes to rest exactly if it never returns to a state that a pass changes
(`exists_settles_iff`), and then it does so before the bound that `settle` is given
(`settles_settle`).
-/

namespace SqlSignature

/-! ### Loops in general -/

/-- A loop returns to a state, and the state is not one of rest. -/
def Recurs {α : Type} (next : α → α) (changes : α → Bool) (x : α) : Prop :=
  ∃ m n, m < n ∧ next^[m] x = next^[n] x ∧ changes (next^[m] x) = true

section

variable {α : Type} {next : α → α} {changes : α → Bool} {x : α}

/-- A loop that comes to rest returns to no state before. -/
theorem not_recurs_of_rest (hsame : ∀ y, changes y = false → next y = y) {k : Nat}
    (hrest : changes (next^[k] x) = false) : ¬Recurs next changes x := by
  rintro ⟨m, n, hlt, hreturn, hchanges⟩
  obtain ⟨p, rfl⟩ := Nat.exists_eq_add_of_lt hlt
  -- From a state that it returns to, the loop returns again and again, also after it rests.
  have hround : ∀ j, next^[j * (p + 1) + m] x = next^[m] x := by
    intro j
    induction j with
    | zero => simp
    | succ j ih =>
      calc next^[(j + 1) * (p + 1) + m] x = next^[j * (p + 1)] (next^[m + p + 1] x) := by
            rw [← Function.iterate_add_apply]
            congr 1
            ring
        _ = next^[j * (p + 1)] (next^[m] x) := by rw [hreturn]
        _ = next^[m] x := by rw [← Function.iterate_add_apply, ih]
  obtain ⟨d, hd⟩ : ∃ d, k * (p + 1) + m = d + k := ⟨k * p + m, by ring⟩
  have hstill : next^[m] x = next^[k] x := by
    rw [← hround k, hd, Function.iterate_add_apply, Function.iterate_fixed (hsame _ hrest)]
  rw [hstill, hrest] at hchanges
  contradiction

/-- A loop that returns to no state comes to rest before it has run through all of them. The states
are told apart by a code. -/
theorem exists_rest_lt_card {β : Type} [Fintype β] (code : α → β)
    (hcode : ∀ m n, m < n → code (next^[m] x) = code (next^[n] x) → next^[m] x = next^[n] x)
    (h : ¬Recurs next changes x) : ∃ k < Fintype.card β, changes (next^[k] x) = false := by
  by_contra hnone
  have hchanges : ∀ k < Fintype.card β, changes (next^[k] x) = true := by
    intro k hk
    by_contra hrest
    exact hnone ⟨k, hk, by simpa using hrest⟩
  obtain ⟨i, j, hne, heq⟩ := Fintype.exists_ne_map_eq_of_card_lt
    (fun k : Fin (Fintype.card β + 1) => code (next^[k] x)) (by simp)
  have hreturns : ∀ i j : Fin (Fintype.card β + 1), i < j →
      code (next^[i] x) = code (next^[j] x) → False := by
    intro i j hlt heq
    have hj := j.isLt
    have hij : (i : Nat) < j := hlt
    exact h ⟨i, j, hij, hcode i j hij heq, hchanges i (by omega)⟩
  rcases lt_or_gt_of_ne hne with hlt | hlt
  · exact hreturns i j hlt heq
  · exact hreturns j i hlt heq.symm

end

/-! ### Going forward -/

namespace TypeVars

/-- The loop that goes forward ends: a pass changes nothing, after passes that each changed
something. -/
inductive Settles (constraints : List Constraint) : TypeVars → TypeVars → Prop
  | rest {vs : TypeVars} (h : (vs.forward constraints).2 = false) :
      Settles constraints vs (vs.forward constraints).1
  | pass {vs vs' : TypeVars} (h : (vs.forward constraints).2 = true)
      (rest : Settles constraints (vs.forward constraints).1 vs') : Settles constraints vs vs'

/-- The loop that goes forward returns to a state that a pass changes. -/
def Cycles (constraints : List Constraint) (vs : TypeVars) : Prop :=
  Recurs (fun vs => (forward constraints vs).1) (fun vs => (forward constraints vs).2) vs

section

variable {constraints : List Constraint} {vs vs' vs'' : TypeVars}

theorem Settles.unique (h : Settles constraints vs vs') (h' : Settles constraints vs vs'') :
    vs' = vs'' := by
  induction h with
  | rest hrest =>
    cases h' with
    | rest _ => rfl
    | pass hchanged _ => rw [hrest] at hchanged; contradiction
  | pass hchanged _ ih =>
    cases h' with
    | rest hrest => rw [hrest] at hchanged; contradiction
    | pass _ hsettles => exact ih hsettles

/-- What every pass forward keeps, the loop keeps. -/
theorem Settles.keeps {I : TypeVars → Prop}
    (hforward : ∀ ws, I ws → I (forward constraints ws).1) (h : Settles constraints vs vs')
    (hvs : I vs) : I vs' := by
  induction h with
  | rest _ => exact hforward _ hvs
  | pass _ _ ih => exact ih (hforward _ hvs)

theorem Settles.exists_rest (h : Settles constraints vs vs') :
    ∃ k, (forward constraints ((fun vs => (forward constraints vs).1)^[k] vs)).2 = false := by
  induction h with
  | rest hrest => exact ⟨0, hrest⟩
  | pass _ _ ih =>
    obtain ⟨k, hk⟩ := ih
    exact ⟨k + 1, hk⟩

/-- A bounded run of the loop is the loop itself if it comes to rest before the bound. -/
theorem settles_settleUpTo : ∀ (fuel k : Nat) (vs : TypeVars), k < fuel →
    (forward constraints ((fun vs => (forward constraints vs).1)^[k] vs)).2 = false →
      Settles constraints vs (settleUpTo constraints fuel vs)
  | 0, k, _, hlt, _ => absurd hlt (Nat.not_lt_zero k)
  | fuel + 1, k, vs, hlt, hrest => by
    rw [settleUpTo]
    dsimp only
    split
    next hchanged =>
      cases k with
      | zero =>
        rw [Function.iterate_zero_apply, hchanged] at hrest
        contradiction
      | succ k => exact .pass hchanged (settles_settleUpTo fuel k _ (by omega) hrest)
    next hrest => exact .rest (by simpa using hrest)

/-! ### The number of states -/

theorem WellFormed.advances_passes (h : vs.WellFormed) (constraints : List Constraint) :
    ∀ n, vs.Advances ((fun vs => (forward constraints vs).1)^[n] vs)
  | 0 => .refl h
  | n + 1 => by
    have hfirst := h.advances_passes constraints n
    rw [Function.iterate_succ_apply']
    exact hfirst.trans (hfirst.wellFormed.advances_forward constraints)

/-- What tells the states of a loop apart: the number of classes and the types. -/
def code (n : Nat) (vs : TypeVars) : Fin (n + 1) × (Fin n → Option SqlType) :=
  (⟨min vs.classCount n, by omega⟩, fun i => vs.typeAt i)

/-- A state that follows another with the same code is the same. -/
theorem Advances.eq_of_code (h : vs.Advances vs') (hcode : code vs.size vs = code vs.size vs') :
    vs = vs' := by
  simp only [code, Prod.mk.injEq, Fin.mk.injEq] at hcode
  obtain ⟨hcount, htypes⟩ := hcode
  have hle := vs.classCount_le
  have hle' := h.size ▸ vs'.classCount_le
  have hskeleton : vs'.skeleton = vs.skeleton := by
    rcases h.joined with hskeleton | hlt
    · exact hskeleton
    · omega
  refine (eq_of_skeleton_eq hskeleton fun i => ?_).symm
  by_cases hi : i < vs.size
  · exact (congrFun htypes ⟨i, hi⟩).symm
  · have hnone : ∀ ws : TypeVars, ws.size = vs.size → ws.typeAt i = none := by
      intro ws hws
      rw [typeAt, Array.getElem?_eq_none (by rw [← TypeVars.size, hws]; omega)]
      rfl
    rw [hnone vs' h.size, hnone vs rfl]

theorem card_codes (n : Nat) :
    Fintype.card (Fin (n + 1) × (Fin n → Option SqlType)) = stateCount n := by
  simp [SqlType.card_eq, stateCount, Nat.pow_eq]

/-- A loop that never returns to a state that a pass changes comes to rest before the bound. -/
theorem WellFormed.exists_rest_lt (h : vs.WellFormed) (hcycles : ¬Cycles constraints vs) :
    ∃ k < stateCount vs.size,
      (forward constraints ((fun vs => (forward constraints vs).1)^[k] vs)).2 = false := by
  rw [← card_codes]
  refine exists_rest_lt_card (code vs.size) (fun m n hlt hcode => ?_) hcycles
  have hm := h.advances_passes constraints m
  obtain ⟨d, rfl⟩ := Nat.exists_eq_add_of_lt hlt
  have hn := hm.wellFormed.advances_passes constraints (d + 1)
  rw [← Function.iterate_add_apply] at hn
  rw [← hm.size] at hcode
  have hindex : d + 1 + m = m + d + 1 := by omega
  rw [hindex] at hn
  exact hn.eq_of_code hcode

/-- A loop that comes to rest returns to no state that a pass changes. -/
theorem Settles.not_cycles (h : Settles constraints vs vs') : ¬Cycles constraints vs := by
  obtain ⟨k, hrest⟩ := h.exists_rest
  exact not_recurs_of_rest (fun ws hws => forward_unchanged hws) hrest

/-- The loop comes to rest exactly if it never returns to a state that a pass changes. -/
theorem WellFormed.exists_settles_iff (h : vs.WellFormed) :
    (∃ vs', Settles constraints vs vs') ↔ ¬Cycles constraints vs := by
  constructor
  · rintro ⟨vs', hsettles⟩
    exact hsettles.not_cycles
  · intro hcycles
    obtain ⟨k, hlt, hrest⟩ := h.exists_rest_lt hcycles
    exact ⟨_, settles_settleUpTo _ k vs hlt hrest⟩

/-- If the loop comes to rest then its bound does not cut it short. -/
theorem Settles.settle_eq (h : Settles constraints vs vs') (hvs : vs.WellFormed) :
    settle constraints vs = vs' := by
  obtain ⟨k, hlt, hrest⟩ := hvs.exists_rest_lt (hvs.exists_settles_iff.mp ⟨vs', h⟩)
  exact (settles_settleUpTo _ k vs hlt hrest).unique h

end

end TypeVars

end SqlSignature

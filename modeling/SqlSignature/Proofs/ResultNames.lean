import Mathlib.Data.List.Nodup
import SqlSignature.Analysis.Report
/-!
# SqlSignature.Proofs.ResultNames

The names of result columns after renaming. A column is renamed by how many columns of its name come
before it, so the names that renaming gives are the names with their occurrences, written out
(`Report.map_name_renameAfter`). Two occurrences are written alike only if one is a first
occurrence, whose name stands as it is, and happens to read like a name with a number
(`Report.nodup_numbered_iff`).
-/

open List

namespace SqlSignature

namespace Report

/-- The name of a column that comes after a number of columns of the same name. -/
def numbered (name : String) (earlier : Nat) : String :=
  if earlier = 0 then name else name ++ "_" ++ toString (earlier + 1)

/-- Names, each with the number of times that it has come before. -/
def occurrences (seen : List String) : List String → List (String × Nat)
  | [] => []
  | name :: rest => (name, seen.count name) :: occurrences (name :: seen) rest

/-! ### Names with numbers -/

theorem numbered_succ (name : String) (earlier : Nat) :
    numbered name (earlier + 1) = name ++ "_" ++ toString (earlier + 2) := rfl

theorem underscore_notMem_digits (n : Nat) : '_' ∉ Nat.toDigits 10 n := by
  intro hmem
  have hdigit : '_'.isDigit = true := Nat.isDigit_of_mem_toDigits (by decide) (by decide) hmem
  revert hdigit
  decide

/-- A number has no underscore in it, so there is nothing between the underscores before two numbers
that end a text. -/
theorem eq_nil_of_underscores {between : List Char} {m n : Nat}
    (h : '_' :: Nat.toDigits 10 m = between ++ '_' :: Nat.toDigits 10 n) : between = [] := by
  cases between with
  | nil => rfl
  | cons c between =>
    refine absurd ?_ (underscore_notMem_digits m)
    rw [(List.cons.inj h).2]
    simp

theorem numbered_succ_injective {name other : String} {m n : Nat}
    (h : numbered name (m + 1) = numbered other (n + 1)) : name = other ∧ m = n := by
  have hchars : name.toList ++ '_' :: Nat.toDigits 10 (m + 2) =
      other.toList ++ '_' :: Nat.toDigits 10 (n + 2) := by
    have hlists := congrArg String.toList h
    simpa [numbered_succ, Nat.toList_repr] using hlists
  have hname : name.toList = other.toList := by
    rcases append_eq_append_iff.1 hchars with
      ⟨between, hother, hrest⟩ | ⟨between, hname, hrest⟩
    · rw [hother, eq_nil_of_underscores hrest, append_nil]
    · rw [hname, eq_nil_of_underscores hrest, append_nil]
  rw [hname] at hchars
  have hdigits := (List.cons.inj (append_cancel_left hchars)).2
  have hnumber := congrArg (Nat.ofDigitChars 10 · 0) hdigits
  simp only [Nat.ofDigitChars_ten_toDigits] at hnumber
  exact ⟨String.toList_injective hname, by omega⟩

/-- A name with a number is longer than the name. -/
theorem numbered_succ_ne (name : String) (earlier : Nat) : numbered name (earlier + 1) ≠ name := by
  intro h
  have hlength := congrArg String.length h
  rw [numbered_succ, String.length_append, String.length_append] at hlength
  have hunderscore : "_".length = 1 := rfl
  omega

/-! ### Occurrences -/

/-- A name occurs as often as it is listed, after the times that it has come before. -/
theorem mem_occurrences {seen names : List String} {name : String} {earlier : Nat} :
    (name, earlier) ∈ occurrences seen names ↔
      seen.count name ≤ earlier ∧ earlier < seen.count name + names.count name := by
  induction names generalizing seen with
  | nil => simp [occurrences]
  | cons first rest ih =>
    rw [occurrences, mem_cons, ih, Prod.mk.injEq, count_cons, count_cons]
    by_cases hfirst : first = name
    · subst hfirst
      simp only [beq_self_eq_true, if_true, true_and]
      omega
    · have hother : ¬name = first := fun heq => hfirst heq.symm
      simp only [beq_iff_eq, hfirst, hother, if_false, false_and, false_or]
      omega

theorem nodup_occurrences (seen names : List String) : (occurrences seen names).Nodup := by
  induction names generalizing seen with
  | nil => exact nodup_nil
  | cons first rest ih =>
    refine nodup_cons.2 ⟨fun hmem => ?_, ih _⟩
    have hlater := (mem_occurrences.1 hmem).1
    rw [count_cons_self] at hlater
    omega

/-- Occurrences are written out differently exactly if no name in the list reads like a later
occurrence of a name. -/
theorem nodup_numbered_iff (names : List String) :
    ((occurrences [] names).map fun (name, earlier) => numbered name earlier).Nodup ↔
      ∀ name number, 2 ≤ number → number ≤ names.count name →
        name ++ "_" ++ toString number ∉ names := by
  have hmem {name : String} {earlier : Nat} :
      (name, earlier) ∈ occurrences [] names ↔ earlier < names.count name := by
    simp [mem_occurrences]
  rw [nodup_map_iff_inj_on (nodup_occurrences [] names)]
  constructor
  · intro hinj name number htwo hcount htaken
    obtain ⟨earlier, rfl⟩ := Nat.exists_eq_add_of_le' htwo
    have hfirst := hmem.2 (count_pos_iff.2 htaken)
    have heq := hinj (name, earlier + 1) (hmem.2 (by omega)) _ hfirst rfl
    exact numbered_succ_ne name earlier (Prod.mk.inj heq).1.symm
  · rintro hfree ⟨name, m⟩ hname ⟨other, n⟩ hother heq
    have hname := hmem.1 hname
    have hother := hmem.1 hother
    -- a first occurrence is in the list as it is written
    cases m with
    | zero =>
      cases n with
      | zero => rw [show name = other from heq]
      | succ n =>
        refine absurd ?_ (hfree other (n + 2) (by omega) (by omega))
        rw [← numbered_succ, ← show name = numbered other (n + 1) from heq]
        exact count_pos_iff.1 hname
    | succ m =>
      cases n with
      | zero =>
        refine absurd ?_ (hfree name (m + 2) (by omega) (by omega))
        rw [← numbered_succ, show numbered name (m + 1) = other from heq]
        exact count_pos_iff.1 hother
      | succ n =>
        obtain ⟨rfl, rfl⟩ := numbered_succ_injective heq
        rfl

/-! ### Renaming -/

theorem map_name_renameAfter (seen : List String) (columns : List ResultColumn) :
    (renameAfter seen columns).map ResultColumn.name =
      (occurrences seen (columns.map ResultColumn.name)).map
        fun (name, earlier) => numbered name earlier := by
  induction columns generalizing seen with
  | nil => rfl
  | cons c rest ih =>
    rw [renameAfter, map_cons, ih]
    rfl

/-- Renaming changes names only. -/
theorem forall₂_renameAfter (seen : List String) (columns : List ResultColumn) :
    List.Forall₂ (fun c renamed => renamed = { c with name := renamed.name }) columns
      (renameAfter seen columns) := by
  induction columns generalizing seen with
  | nil => exact .nil
  | cons c rest ih => exact .cons rfl (ih _)

/-- A column whose name has not come before is left as it is. -/
theorem getElem?_renameAfter {seen : List String} {columns : List ResultColumn} {i : Nat}
    {c : ResultColumn} (hc : columns[i]? = some c) (hseen : c.name ∉ seen)
    (hnew : c.name ∉ (columns.take i).map ResultColumn.name) :
    (renameAfter seen columns)[i]? = some c := by
  induction columns generalizing seen i with
  | nil => cases hc
  | cons first rest ih =>
    cases i with
    | zero =>
      cases hc
      simp [renameAfter, count_eq_zero.2 hseen]
    | succ i =>
      rw [take_succ_cons, map_cons, mem_cons, not_or] at hnew
      refine ih hc ?_ hnew.2
      exact not_mem_cons_of_ne_of_not_mem hnew.1 hseen

/-- Renaming changes names only, and not that of the first column with a name. After it no two
columns have one name exactly if none was named like a later occurrence of a name, that is with an
underscore and a number up to which the name occurs. -/
theorem renameDuplicates_nodup_iff (columns : List ResultColumn) :
    List.Forall₂ (fun c renamed => renamed = { c with name := renamed.name }) columns
        (renameDuplicates columns) ∧
      (∀ i c, columns[i]? = some c → c.name ∉ (columns.take i).map ResultColumn.name →
        (renameDuplicates columns)[i]? = some c) ∧
      (((renameDuplicates columns).map ResultColumn.name).Nodup ↔
        ∀ name number, 2 ≤ number → number ≤ (columns.map ResultColumn.name).count name →
          name ++ "_" ++ toString number ∉ columns.map ResultColumn.name) := by
  refine ⟨forall₂_renameAfter [] columns, fun i c hc hnew => ?_, ?_⟩
  · exact getElem?_renameAfter hc List.not_mem_nil hnew
  · rw [renameDuplicates, map_name_renameAfter]
    exact nodup_numbered_iff _

/-- Of the columns `x`, `x` and `x_2` the second is renamed to the name of the third. -/
theorem renameDuplicates_number_taken :
    let columns : List ResultColumn :=
      ["x", "x", "x_2"].map fun name => ⟨name, .single .int, true, none, name⟩
    (renameDuplicates columns).map ResultColumn.name = ["x", "x_2", "x_2"] ∧
      ¬((renameDuplicates columns).map ResultColumn.name).Nodup := by
  decide +kernel

end Report

end SqlSignature

/-!
# SqlSignature.Text.Case

Names and keywords are compared without regard to the case of the ASCII letters. Characters
outside ASCII count as they are written.
-/

namespace SqlSignature.Text

/-- A text with its ASCII capitals made small. -/
def lower (s : String) : String := s.map Char.toLower

/-- A text with its small ASCII letters made capitals. -/
def capitals (s : String) : String := s.map Char.toUpper

/-- Whether two texts are equal up to the case of their ASCII letters. -/
def sameName (a b : String) : Bool := lower a == lower b

@[simp] theorem sameName_self (a : String) : sameName a a = true := by simp [sameName]

theorem sameName_comm (a b : String) : sameName a b = sameName b a := by
  simp [sameName, Bool.beq_comm]

theorem sameName_iff {a b : String} : sameName a b = true ↔ lower a = lower b := by
  simp [sameName]

theorem sameName_iff_toList {a b : String} :
    sameName a b = true ↔ a.toList.map Char.toLower = b.toList.map Char.toLower := by
  rw [sameName_iff, lower, lower, ← String.toList_inj, String.toList_map, String.toList_map]

theorem sameName_trans {a b c : String} (hab : sameName a b = true) (hbc : sameName b c = true) :
    sameName a c = true := by
  rw [sameName_iff] at *
  exact hab.trans hbc

end SqlSignature.Text

import SqlSignature.Text.Ranges
/-!
# SqlSignature.Text.Numeral

The characters of the Unicode general categories for numbers: decimal digits of every script, and
the letter numbers and other numerals beside them. The tables are those of Unicode 17.0.
-/

namespace SqlSignature.Text

/-- The zeros of every script. -/
def zeros : List Nat := [
  0x30, 0x660, 0x6f0, 0x7c0, 0x966, 0x9e6, 0xa66, 0xae6, 0xb66, 0xbe6, 0xc66, 0xce6, 0xd66, 0xde6,
  0xe50, 0xed0, 0xf20, 0x1040, 0x1090, 0x17e0, 0x1810, 0x1946, 0x19d0, 0x1a80, 0x1a90, 0x1b50,
  0x1bb0, 0x1c40, 0x1c50, 0xa620, 0xa8d0, 0xa900, 0xa9d0, 0xa9f0, 0xaa50, 0xabf0, 0xff10, 0x104a0,
  0x10d30, 0x10d40, 0x11066, 0x110f0, 0x11136, 0x111d0, 0x112f0, 0x11450, 0x114d0, 0x11650, 0x116c0,
  0x116d0, 0x116da, 0x11730, 0x118e0, 0x11950, 0x11bf0, 0x11c50, 0x11d50, 0x11da0, 0x11de0, 0x11f50,
  0x16130, 0x16a60, 0x16ac0, 0x16b50, 0x16d70, 0x1ccf0, 0x1d7ce, 0x1d7d8, 0x1d7e2, 0x1d7ec, 0x1d7f6,
  0x1e140, 0x1e2f0, 0x1e4f0, 0x1e5f1, 0x1e950, 0x1fbf0]

/-- Decimal digits (general category `Nd`): each zero starts a run of ten. -/
def decimalDigits : Ranges := zeros.map (·, 10)

/-- Letter numbers and other numerals (general categories `Nl` and `No`). -/
def otherNumerals : Ranges := [
  (0xb2, 2), (0xb9, 1), (0xbc, 3), (0x9f4, 6), (0xb72, 6), (0xbf0, 3), (0xc78, 7), (0xd58, 7),
  (0xd70, 9), (0xf2a, 10), (0x1369, 20), (0x16ee, 3), (0x17f0, 10), (0x19da, 1), (0x2070, 1),
  (0x2074, 6), (0x2080, 10), (0x2150, 51), (0x2185, 5), (0x2460, 60), (0x24ea, 22), (0x2776, 30),
  (0x2cfd, 1), (0x3007, 1), (0x3021, 9), (0x3038, 3), (0x3192, 4), (0x3220, 10), (0x3248, 8),
  (0x3251, 15), (0x3280, 10), (0x32b1, 15), (0xa6e6, 10), (0xa830, 6), (0x10107, 45), (0x10140, 57),
  (0x1018a, 2), (0x102e1, 27), (0x10320, 4), (0x10341, 1), (0x1034a, 1), (0x103d1, 5), (0x10858, 8),
  (0x10879, 7), (0x108a7, 9), (0x108fb, 5), (0x10916, 6), (0x109bc, 2), (0x109c0, 16),
  (0x109d2, 46), (0x10a40, 9), (0x10a7d, 2), (0x10a9d, 3), (0x10aeb, 5), (0x10b58, 8), (0x10b78, 8),
  (0x10ba9, 7), (0x10cfa, 6), (0x10e60, 31), (0x10f1d, 10), (0x10f51, 4), (0x10fc5, 7),
  (0x11052, 20), (0x111e1, 20), (0x1173a, 2), (0x118ea, 9), (0x11c5a, 19), (0x11fc0, 21),
  (0x12400, 111), (0x16b5b, 7), (0x16e80, 23), (0x16ff4, 3), (0x1d2c0, 20), (0x1d2e0, 20),
  (0x1d360, 25), (0x1e8c7, 9), (0x1ec71, 59), (0x1ecad, 3), (0x1ecb1, 4), (0x1ed01, 45),
  (0x1ed2f, 15), (0x1f100, 13)]

/-- Whether a character is a decimal digit of some script. -/
def isDecimalDigit (c : Char) : Bool := decimalDigits.contains c

/-- Whether a character is a numeral of any kind. -/
def isNumeral (c : Char) : Bool := isDecimalDigit c || otherNumerals.contains c

end SqlSignature.Text

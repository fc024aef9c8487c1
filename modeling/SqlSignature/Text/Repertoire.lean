import SqlSignature.Text.Ranges
/-!
# SqlSignature.Text.Repertoire

The stock of characters grows from one version of Unicode to the next. The tables of this library
follow version 17.0. The names of bound values and the annotations in comments keep to the stock of
version 16.0: a character is established if it is not one of those that 17.0 added. The older
characters kept their classes, so one set of tables serves both.
-/

namespace SqlSignature.Text

/-- The characters that version 17.0 added. -/
def latestCharacters : Ranges := [
  (0x88f, 1), (0xc5c, 1), (0xcdc, 1), (0x1acf, 15), (0x1ae0, 12), (0x20c1, 1), (0x2b96, 1),
  (0xa7ce, 2), (0xa7d2, 1), (0xa7d4, 1), (0xa7f1, 1), (0xfbc3, 16), (0xfd90, 2), (0xfdc8, 7),
  (0x10940, 26), (0x10ec5, 3), (0x10ed0, 9), (0x10efa, 2), (0x11b60, 8), (0x11db0, 44),
  (0x11de0, 10), (0x16ea0, 25), (0x16ebb, 25), (0x16ff2, 5), (0x187f8, 8), (0x18d09, 22),
  (0x18d80, 115), (0x1ccfa, 3), (0x1ceba, 23), (0x1cee0, 17), (0x1e6c0, 31), (0x1e6e0, 22),
  (0x1e6fe, 2), (0x1f6d8, 1), (0x1f777, 4), (0x1f8d0, 9), (0x1fa54, 4), (0x1fa8a, 1), (0x1fa8e, 1),
  (0x1fac8, 1), (0x1facd, 1), (0x1faea, 1), (0x1faef, 1), (0x1fbfa, 1), (0x2b73a, 6), (0x2cea2, 12),
  (0x323b0, 4298)]

/-- Whether a character is not one of those that version 17.0 added. -/
def isEstablished (c : Char) : Bool := !latestCharacters.contains c

end SqlSignature.Text

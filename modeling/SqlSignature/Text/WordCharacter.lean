import SqlSignature.Text.Letter
import SqlSignature.Text.Numeral
import SqlSignature.Text.Repertoire
/-!
# SqlSignature.Text.WordCharacter

The characters that continue a word when a word boundary is looked for: alphabetic characters,
combining marks, decimal digits, connector punctuation and the two join controls. Word boundaries
are those of Unicode 16.0, so the characters that came later continue no word.
-/

namespace SqlSignature.Text

/-- Combining marks (general category `M`) that are not alphabetic. -/
def marks : Ranges := [
  (0x300, 69), (0x346, 29), (0x483, 7), (0x591, 31), (0x658, 1), (0x6df, 2), (0x6ea, 3),
  (0x740, 11), (0x7eb, 9), (0x7fd, 1), (0x818, 2), (0x82d, 1), (0x859, 3), (0x898, 8), (0x8ca, 10),
  (0x8e0, 2), (0x8ea, 6), (0x93c, 1), (0x94d, 1), (0x951, 4), (0x9bc, 1), (0x9cd, 1), (0x9fe, 1),
  (0xa3c, 1), (0xa4d, 1), (0xabc, 1), (0xacd, 1), (0xafd, 3), (0xb3c, 1), (0xb4d, 1), (0xb55, 1),
  (0xbcd, 1), (0xc3c, 1), (0xc4d, 1), (0xcbc, 1), (0xccd, 1), (0xd3b, 2), (0xd4d, 1), (0xdca, 1),
  (0xe47, 6), (0xe4e, 1), (0xeba, 1), (0xec8, 5), (0xece, 1), (0xf18, 2), (0xf35, 1), (0xf37, 1),
  (0xf39, 1), (0xf3e, 2), (0xf84, 1), (0xf86, 2), (0xfc6, 1), (0x1037, 1), (0x1039, 2), (0x135d, 3),
  (0x1714, 2), (0x1734, 1), (0x17b4, 2), (0x17c9, 11), (0x17dd, 1), (0x180b, 3), (0x180f, 1),
  (0x1939, 3), (0x1a60, 1), (0x1a75, 8), (0x1a7f, 1), (0x1ab0, 15), (0x1ac1, 11), (0x1acf, 15),
  (0x1ae0, 12), (0x1b34, 1), (0x1b44, 1), (0x1b6b, 9), (0x1baa, 2), (0x1be6, 1), (0x1bf2, 2),
  (0x1c37, 1), (0x1cd0, 3), (0x1cd4, 21), (0x1ced, 1), (0x1cf4, 1), (0x1cf7, 3), (0x1dc0, 19),
  (0x1df5, 11), (0x20d0, 33), (0x2cef, 3), (0x2d7f, 1), (0x302a, 6), (0x3099, 2), (0xa66f, 4),
  (0xa67c, 2), (0xa6f0, 2), (0xa806, 1), (0xa82c, 1), (0xa8c4, 1), (0xa8e0, 18), (0xa92b, 3),
  (0xa953, 1), (0xa9b3, 1), (0xa9c0, 1), (0xaabf, 1), (0xaac1, 1), (0xaaf6, 1), (0xabec, 2),
  (0xfe00, 16), (0xfe20, 16), (0x101fd, 1), (0x102e0, 1), (0x10a38, 3), (0x10a3f, 1), (0x10ae5, 2),
  (0x10d6a, 4), (0x10efd, 3), (0x10f46, 11), (0x10f82, 4), (0x11046, 1), (0x11070, 1), (0x1107f, 1),
  (0x110b9, 2), (0x11133, 2), (0x11173, 1), (0x111c0, 1), (0x111c9, 4), (0x11235, 2), (0x112e9, 2),
  (0x1133b, 2), (0x1134d, 1), (0x11366, 7), (0x11370, 5), (0x113ce, 3), (0x113d2, 1), (0x113e1, 2),
  (0x11442, 1), (0x11446, 1), (0x1145e, 1), (0x114c2, 2), (0x115bf, 2), (0x1163f, 1), (0x116b6, 2),
  (0x1172b, 1), (0x11839, 2), (0x1193d, 2), (0x11943, 1), (0x119e0, 1), (0x11a33, 2), (0x11a47, 1),
  (0x11a98, 2), (0x11c3f, 1), (0x11d42, 1), (0x11d44, 2), (0x11d97, 1), (0x11f41, 2), (0x11f5a, 1),
  (0x13440, 1), (0x13447, 15), (0x1612f, 1), (0x16af0, 5), (0x16b30, 7), (0x16fe4, 1), (0x1bc9d, 1),
  (0x1cf00, 46), (0x1cf30, 23), (0x1d165, 5), (0x1d16d, 6), (0x1d17b, 8), (0x1d185, 7),
  (0x1d1aa, 4), (0x1d242, 3), (0x1da00, 55), (0x1da3b, 50), (0x1da75, 1), (0x1da84, 1),
  (0x1da9b, 5), (0x1daa1, 15), (0x1e130, 7), (0x1e2ae, 1), (0x1e2ec, 4), (0x1e4ec, 4), (0x1e5ee, 2),
  (0x1e8d0, 7), (0x1e944, 3), (0x1e948, 3), (0xe0100, 240)]

/-- Connector punctuation (general category `Pc`). -/
def connectors : Ranges := [
  (0x5f, 1), (0x203f, 2), (0x2054, 1), (0xfe33, 2), (0xfe4d, 3), (0xff3f, 1)]

/-- The zero-width joiner and non-joiner. -/
def joinControls : Ranges := [(0x200c, 2)]

/-- Whether a character continues a word. -/
def isWordCharacter (c : Char) : Bool :=
  isEstablished c &&
    (isLetter c || isDecimalDigit c || marks.contains c || connectors.contains c ||
      joinControls.contains c)

end SqlSignature.Text

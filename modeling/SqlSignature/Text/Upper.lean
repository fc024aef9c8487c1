/-!
# SqlSignature.Text.Upper

The full upper-case form of a text: every character goes to its upper-case character, and the few
that have no single one (a sharp s, the ligatures, Greek letters with an iota below) go to several.
The tables are those of Unicode 17.0.
-/

namespace SqlSignature.Text

/-- Characters `first`, `first + step`, up to `last`, which all move by the same distance. -/
structure CaseRun where
  first : Nat
  last : Nat
  step : Nat
  shift : Int

/-- The runs of characters with a single upper-case character. -/
def upperRuns : List CaseRun := [
  ⟨0x61, 0x7a, 1, -32⟩, ⟨0xe0, 0xf6, 1, -32⟩, ⟨0xf8, 0xfe, 1, -32⟩, ⟨0x101, 0x12f, 2, -1⟩,
  ⟨0x133, 0x137, 2, -1⟩, ⟨0x13a, 0x148, 2, -1⟩, ⟨0x14b, 0x177, 2, -1⟩, ⟨0x17a, 0x17e, 2, -1⟩,
  ⟨0x183, 0x185, 2, -1⟩, ⟨0x1a1, 0x1a5, 2, -1⟩, ⟨0x1b4, 0x1b6, 2, -1⟩, ⟨0x1ce, 0x1dc, 2, -1⟩,
  ⟨0x1df, 0x1ef, 2, -1⟩, ⟨0x1f9, 0x21f, 2, -1⟩, ⟨0x223, 0x233, 2, -1⟩, ⟨0x23f, 0x240, 1, 10815⟩,
  ⟨0x247, 0x24f, 2, -1⟩, ⟨0x256, 0x257, 1, -205⟩, ⟨0x28a, 0x28b, 1, -217⟩, ⟨0x371, 0x373, 2, -1⟩,
  ⟨0x37b, 0x37d, 1, 130⟩, ⟨0x3ad, 0x3af, 1, -37⟩, ⟨0x3b1, 0x3c1, 1, -32⟩, ⟨0x3c3, 0x3cb, 1, -32⟩,
  ⟨0x3cd, 0x3ce, 1, -63⟩, ⟨0x3d9, 0x3ef, 2, -1⟩, ⟨0x430, 0x44f, 1, -32⟩, ⟨0x450, 0x45f, 1, -80⟩,
  ⟨0x461, 0x481, 2, -1⟩, ⟨0x48b, 0x4bf, 2, -1⟩, ⟨0x4c2, 0x4ce, 2, -1⟩, ⟨0x4d1, 0x52f, 2, -1⟩,
  ⟨0x561, 0x586, 1, -48⟩, ⟨0x10d0, 0x10fa, 1, 3008⟩, ⟨0x10fd, 0x10ff, 1, 3008⟩,
  ⟨0x13f8, 0x13fd, 1, -8⟩, ⟨0x1c83, 0x1c84, 1, -6242⟩, ⟨0x1e01, 0x1e95, 2, -1⟩,
  ⟨0x1ea1, 0x1eff, 2, -1⟩, ⟨0x1f00, 0x1f07, 1, 8⟩, ⟨0x1f10, 0x1f15, 1, 8⟩, ⟨0x1f20, 0x1f27, 1, 8⟩,
  ⟨0x1f30, 0x1f37, 1, 8⟩, ⟨0x1f40, 0x1f45, 1, 8⟩, ⟨0x1f51, 0x1f57, 2, 8⟩, ⟨0x1f60, 0x1f67, 1, 8⟩,
  ⟨0x1f70, 0x1f71, 1, 74⟩, ⟨0x1f72, 0x1f75, 1, 86⟩, ⟨0x1f76, 0x1f77, 1, 100⟩,
  ⟨0x1f78, 0x1f79, 1, 128⟩, ⟨0x1f7a, 0x1f7b, 1, 112⟩, ⟨0x1f7c, 0x1f7d, 1, 126⟩,
  ⟨0x1fb0, 0x1fb1, 1, 8⟩, ⟨0x1fd0, 0x1fd1, 1, 8⟩, ⟨0x1fe0, 0x1fe1, 1, 8⟩, ⟨0x2170, 0x217f, 1, -16⟩,
  ⟨0x24d0, 0x24e9, 1, -26⟩, ⟨0x2c30, 0x2c5f, 1, -48⟩, ⟨0x2c68, 0x2c6c, 2, -1⟩,
  ⟨0x2c81, 0x2ce3, 2, -1⟩, ⟨0x2cec, 0x2cee, 2, -1⟩, ⟨0x2d00, 0x2d25, 1, -7264⟩,
  ⟨0xa641, 0xa66d, 2, -1⟩, ⟨0xa681, 0xa69b, 2, -1⟩, ⟨0xa723, 0xa72f, 2, -1⟩,
  ⟨0xa733, 0xa76f, 2, -1⟩, ⟨0xa77a, 0xa77c, 2, -1⟩, ⟨0xa77f, 0xa787, 2, -1⟩,
  ⟨0xa791, 0xa793, 2, -1⟩, ⟨0xa797, 0xa7a9, 2, -1⟩, ⟨0xa7b5, 0xa7c3, 2, -1⟩,
  ⟨0xa7c8, 0xa7ca, 2, -1⟩, ⟨0xa7cd, 0xa7db, 2, -1⟩, ⟨0xab70, 0xabbf, 1, -38864⟩,
  ⟨0xff41, 0xff5a, 1, -32⟩, ⟨0x10428, 0x1044f, 1, -40⟩, ⟨0x104d8, 0x104fb, 1, -40⟩,
  ⟨0x10597, 0x105bb, 2, -39⟩, ⟨0x10598, 0x105a0, 2, -39⟩, ⟨0x105a4, 0x105b0, 2, -39⟩,
  ⟨0x105b4, 0x105b8, 2, -39⟩, ⟨0x10cc0, 0x10cf2, 1, -64⟩, ⟨0x10d70, 0x10d85, 1, -32⟩,
  ⟨0x118c0, 0x118df, 1, -32⟩, ⟨0x16e60, 0x16e7f, 1, -32⟩, ⟨0x16ebb, 0x16ed3, 1, -27⟩,
  ⟨0x1e922, 0x1e943, 1, -34⟩]

/-- The other characters with a single upper-case character, and its distance. -/
def upperShifts : List (Nat × Int) := [
  (0xb5, 743), (0xff, 121), (0x131, -232), (0x17f, -300), (0x180, 195), (0x188, -1), (0x18c, -1),
  (0x192, -1), (0x195, 97), (0x199, -1), (0x19a, 163), (0x19b, 42561), (0x19e, 130), (0x1a8, -1),
  (0x1ad, -1), (0x1b0, -1), (0x1b9, -1), (0x1bd, -1), (0x1bf, 56), (0x1c5, -1), (0x1c6, -2),
  (0x1c8, -1), (0x1c9, -2), (0x1cb, -1), (0x1cc, -2), (0x1dd, -79), (0x1f2, -1), (0x1f3, -2),
  (0x1f5, -1), (0x23c, -1), (0x242, -1), (0x250, 10783), (0x251, 10780), (0x252, 10782),
  (0x253, -210), (0x254, -206), (0x259, -202), (0x25b, -203), (0x25c, 42319), (0x260, -205),
  (0x261, 42315), (0x263, -207), (0x264, 42343), (0x265, 42280), (0x266, 42308), (0x268, -209),
  (0x269, -211), (0x26a, 42308), (0x26b, 10743), (0x26c, 42305), (0x26f, -211), (0x271, 10749),
  (0x272, -213), (0x275, -214), (0x27d, 10727), (0x280, -218), (0x282, 42307), (0x283, -218),
  (0x287, 42282), (0x288, -218), (0x289, -69), (0x28c, -71), (0x292, -219), (0x29d, 42261),
  (0x29e, 42258), (0x345, 84), (0x377, -1), (0x3ac, -38), (0x3c2, -31), (0x3cc, -64), (0x3d0, -62),
  (0x3d1, -57), (0x3d5, -47), (0x3d6, -54), (0x3d7, -8), (0x3f0, -86), (0x3f1, -80), (0x3f2, 7),
  (0x3f3, -116), (0x3f5, -96), (0x3f8, -1), (0x3fb, -1), (0x4cf, -15), (0x1c80, -6254),
  (0x1c81, -6253), (0x1c82, -6244), (0x1c85, -6243), (0x1c86, -6236), (0x1c87, -6181),
  (0x1c88, 35266), (0x1c8a, -1), (0x1d79, 35332), (0x1d7d, 3814), (0x1d8e, 35384), (0x1e9b, -59),
  (0x1fbe, -7205), (0x1fe5, 7), (0x214e, -28), (0x2184, -1), (0x2c61, -1), (0x2c65, -10795),
  (0x2c66, -10792), (0x2c73, -1), (0x2c76, -1), (0x2cf3, -1), (0x2d27, -7264), (0x2d2d, -7264),
  (0xa78c, -1), (0xa794, 48), (0xa7f6, -1), (0xab53, -928), (0x105bc, -39)]

/-- Rows of eight Greek letters with an iota below: the upper-case form has the letter at the same
place of another row, and the iota after it. -/
def iotaRows : List (Nat × Nat) := [
  (0x1f80, 0x1f08), (0x1f88, 0x1f08), (0x1f90, 0x1f28), (0x1f98, 0x1f28), (0x1fa0, 0x1f68),
  (0x1fa8, 0x1f68)]

/-- The characters whose upper-case form has several characters. -/
def upperSequences : List (Nat × List Nat) :=
  (iotaRows.flatMap fun (row, form) =>
    (List.range 8).map fun k => (row + k, [form + k, 0x399])) ++ [
  (0xdf, [0x53, 0x53]), (0x149, [0x2bc, 0x4e]), (0x1f0, [0x4a, 0x30c]),
  (0x390, [0x399, 0x308, 0x301]), (0x3b0, [0x3a5, 0x308, 0x301]), (0x587, [0x535, 0x552]),
  (0x1e96, [0x48, 0x331]), (0x1e97, [0x54, 0x308]), (0x1e98, [0x57, 0x30a]),
  (0x1e99, [0x59, 0x30a]), (0x1e9a, [0x41, 0x2be]), (0x1f50, [0x3a5, 0x313]),
  (0x1f52, [0x3a5, 0x313, 0x300]), (0x1f54, [0x3a5, 0x313, 0x301]), (0x1f56, [0x3a5, 0x313, 0x342]),
  (0x1fb2, [0x1fba, 0x399]), (0x1fb3, [0x391, 0x399]), (0x1fb4, [0x386, 0x399]),
  (0x1fb6, [0x391, 0x342]), (0x1fb7, [0x391, 0x342, 0x399]), (0x1fbc, [0x391, 0x399]),
  (0x1fc2, [0x1fca, 0x399]), (0x1fc3, [0x397, 0x399]), (0x1fc4, [0x389, 0x399]),
  (0x1fc6, [0x397, 0x342]), (0x1fc7, [0x397, 0x342, 0x399]), (0x1fcc, [0x397, 0x399]),
  (0x1fd2, [0x399, 0x308, 0x300]), (0x1fd3, [0x399, 0x308, 0x301]), (0x1fd6, [0x399, 0x342]),
  (0x1fd7, [0x399, 0x308, 0x342]), (0x1fe2, [0x3a5, 0x308, 0x300]), (0x1fe3, [0x3a5, 0x308, 0x301]),
  (0x1fe4, [0x3a1, 0x313]), (0x1fe6, [0x3a5, 0x342]), (0x1fe7, [0x3a5, 0x308, 0x342]),
  (0x1ff2, [0x1ffa, 0x399]), (0x1ff3, [0x3a9, 0x399]), (0x1ff4, [0x38f, 0x399]),
  (0x1ff6, [0x3a9, 0x342]), (0x1ff7, [0x3a9, 0x342, 0x399]), (0x1ffc, [0x3a9, 0x399]),
  (0xfb00, [0x46, 0x46]), (0xfb01, [0x46, 0x49]), (0xfb02, [0x46, 0x4c]),
  (0xfb03, [0x46, 0x46, 0x49]), (0xfb04, [0x46, 0x46, 0x4c]), (0xfb05, [0x53, 0x54]),
  (0xfb06, [0x53, 0x54]), (0xfb13, [0x544, 0x546]), (0xfb14, [0x544, 0x535]),
  (0xfb15, [0x544, 0x53b]), (0xfb16, [0x54e, 0x546]), (0xfb17, [0x544, 0x53d])]

/-- Whether a run holds a code point. -/
def CaseRun.holds (run : CaseRun) (n : Nat) : Bool :=
  decide (run.first ≤ n) && decide (n ≤ run.last) && (n - run.first) % run.step == 0

/-- How far a code point lies from that of its single upper-case character. -/
def upperShift? (n : Nat) : Option Int :=
  ((upperRuns.find? (·.holds n)).map CaseRun.shift).or (upperShifts.lookup n)

/-- The upper-case form of one character. -/
def upperChar (c : Char) : List Char :=
  match upperSequences.lookup c.toNat with
  | some form => form.map Char.ofNat
  | none =>
    match upperShift? c.toNat with
    | some shift => [Char.ofNat (c.toNat + shift).toNat]
    | none => [c]

/-- The upper-case form of a text. -/
def upper (s : String) : String := String.ofList (s.toList.flatMap upperChar)

end SqlSignature.Text

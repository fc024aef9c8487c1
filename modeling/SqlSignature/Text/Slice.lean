/-!
# SqlSignature.Text.Slice

Offsets into a text count the bytes of its UTF-8 form. A slice is a stretch between two offsets
that both stand at the edge of a character.
-/

namespace SqlSignature.Text

/-- The number of bytes that characters take in UTF-8. -/
def byteSize : List Char → Nat
  | [] => 0
  | c :: cs => c.utf8Size + byteSize cs

@[simp] theorem byteSize_nil : byteSize [] = 0 := rfl

@[simp] theorem byteSize_cons (c : Char) (cs : List Char) :
    byteSize (c :: cs) = c.utf8Size + byteSize cs := rfl

@[simp] theorem byteSize_append (as bs : List Char) :
    byteSize (as ++ bs) = byteSize as + byteSize bs := by
  induction as with
  | nil => simp
  | cons a as ih => rw [List.cons_append, byteSize_cons, byteSize_cons, ih, Nat.add_assoc]

/-- The number of bytes of a text. -/
def size (s : String) : Nat := byteSize s.toList

/-- Takes exactly `n` bytes off the front: what was taken and what is left. There is no answer
when `n` falls inside a character or past the end. -/
def cut : Nat → List Char → Option (List Char × List Char)
  | 0, cs => some ([], cs)
  | _ + 1, [] => none
  | n + 1, c :: cs =>
    if c.utf8Size ≤ n + 1 then
      (cut (n + 1 - c.utf8Size) cs).map fun (front, rest) => (c :: front, rest)
    else none

/-- The characters between two offsets, if both are edges of characters in order. -/
def slice? (s : String) (start stop : Nat) : Option String :=
  if start ≤ stop then do
    let (_, rest) ← cut start s.toList
    let (front, _) ← cut (stop - start) rest
    return String.ofList front
  else none

/-- The characters between two offsets, or the empty text when these do not bound a slice. -/
def slice (s : String) (start stop : Nat) : String := (slice? s start stop).getD ""

/-- Cutting loses nothing, and takes as many bytes as asked. -/
theorem cut_eq_some {n : Nat} {cs front rest : List Char} (h : cut n cs = some (front, rest)) :
    cs = front ++ rest ∧ byteSize front = n := by
  fun_induction cut n cs generalizing front rest with
  | case1 cs => simp_all
  | case2 n => cases h
  | case3 n c cs hsize ih =>
    obtain ⟨⟨front', rest'⟩, hcut, heq⟩ := Option.map_eq_some_iff.1 h
    cases heq
    obtain ⟨happ, hbytes⟩ := ih hcut
    exact ⟨by rw [happ]; rfl, by rw [byteSize_cons, hbytes]; omega⟩
  | case4 n c cs hsize => cases h

/-- A front part can be cut off by its size. -/
theorem cut_append (front rest : List Char) :
    cut (byteSize front) (front ++ rest) = some (front, rest) := by
  induction front with
  | nil => simp [cut]
  | cons c front ih =>
    have hpos : 0 < c.utf8Size := Char.utf8Size_pos c
    obtain ⟨n, hn⟩ : ∃ n, byteSize (c :: front) = n + 1 :=
      ⟨byteSize (c :: front) - 1, by rw [byteSize_cons]; omega⟩
    have hrest : n + 1 - c.utf8Size = byteSize front := by rw [byteSize_cons] at hn; omega
    have hle : c.utf8Size ≤ n + 1 := by rw [byteSize_cons] at hn; omega
    rw [hn, List.cons_append, cut, if_pos hle, hrest, ih]
    rfl

end SqlSignature.Text

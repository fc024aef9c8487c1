import SqlSignature.Proofs.TokenCoverage
/-!
# SqlSignature.Proofs.TokenSlices

Parts of a text that have the same tokens wherever they stand. A part is `Closed` if, in front of
anything that is empty or starts with a space or a newline, it is scanned as tokens that say the
same. A part that goes from the start of one token to the end of another is closed, unless it ends
with a point, which a digit might follow (`closed_slice`); closed parts with `AND` between them are
closed (`closed_intercalate`). No token reaches over the end of a line that a whole text ends
(`Token.scan_append_newline`).

For each rule of the lexer there is a lemma that says that its result does not depend on what
follows: the rule has stopped within the part, or what follows stops it too.
-/

open List

namespace SqlSignature

open Lexed

namespace Lexer

/-- What may follow a stretch of text and leave its tokens as they are: nothing, or a space or a
newline. -/
def Ends (tail : List Char) : Prop := ∀ c ∈ tail.head?, c = ' ' ∨ c = '\n'

theorem ends_nil : Ends [] := nofun

theorem ends_space (cs : List Char) : Ends (' ' :: cs) := by
  intro c hc
  exact .inl (Option.some.inj hc).symm

theorem Ends.cases {tail : List Char} (h : Ends tail) :
    tail = [] ∨ ∃ c cs, (c = ' ' ∨ c = '\n') ∧ tail = c :: cs := by
  cases tail with
  | nil => exact .inl rfl
  | cons c cs => exact .inr ⟨c, cs, h c rfl, rfl⟩

/-- What passes neither a space nor a newline stops at what may follow. -/
theorem Ends.stops {tail : List Char} {p : Char → Bool} (h : Ends tail)
    (hp : (p ' ' || p '\n') = false) : ∀ c ∈ tail.head?, p c = false := by
  rw [Bool.or_eq_false_iff] at hp
  intro c hc
  rcases h c hc with rfl | rfl
  · exact hp.1
  · exact hp.2

variable {xs after tail rest part covered : List Char}

/-- A stretch of characters that pass a test, and that ends with what follows. -/
theorem takeWhile_tail (xs : List Char) {p : Char → Bool}
    (hstop : rest ≠ [] ∨ ∀ c ∈ tail.head?, p c = false)
    (h : (xs ++ after).dropWhile p = rest ++ after) :
    (xs ++ tail).takeWhile p = (xs ++ after).takeWhile p ∧
      (xs ++ tail).dropWhile p = rest ++ tail := by
  have hxs : xs = (xs ++ after).takeWhile p ++ rest := by
    refine (append_left_inj after).1 ?_
    rw [append_assoc, ← h, takeWhile_append_dropWhile]
  have hall : ∀ c ∈ (xs ++ after).takeWhile p, p c = true :=
    all_eq_true.1 all_takeWhile
  have hhead : ∀ c ∈ (rest ++ tail).head?, p c = false := by
    intro c hc
    cases rest with
    | nil => exact hstop.resolve_left (by simp) c hc
    | cons d rest =>
      cases hc
      have hnot := head?_dropWhile_not p (xs ++ after)
      rw [h] at hnot
      simpa using hnot
  generalize (xs ++ after).takeWhile p = front at *
  subst hxs
  rw [append_assoc]
  exact takeWhile_append_stop hall hhead

theorem Ends.digits (ht : Ends tail) : ∀ c ∈ tail.head?, c.isDigit = false :=
  ht.stops (by decide)

variable {c : Char}

theorem fraction_of_ne_point (hc : c ≠ '.') (cs : List Char) :
    fraction (c :: cs) = ([], c :: cs) := by
  unfold fraction
  split <;> simp_all

theorem fraction_ends (ht : Ends tail) : fraction tail = ([], tail) := by
  rcases ht.cases with rfl | ⟨c, cs, rfl | rfl, rfl⟩
  · rfl
  · exact fraction_of_ne_point (by decide) cs
  · exact fraction_of_ne_point (by decide) cs

/-- The fraction of a number does not depend on what follows. -/
theorem fraction_tail (ht : Ends tail) (hpoint : rest = ['.'] → after = [])
    (h : fraction (xs ++ after) = (part, rest ++ after)) :
    fraction (xs ++ tail) = (part, rest ++ tail) := by
  have hxs : part ++ rest = xs := by
    have hsplit := fraction_split (xs ++ after)
    rw [h, ← append_assoc] at hsplit
    exact append_cancel_right hsplit
  cases xs with
  | nil =>
    obtain ⟨rfl, rfl⟩ := append_eq_nil_iff.1 hxs
    exact fraction_ends ht
  | cons x xs =>
  by_cases hx : x = '.'
  case neg =>
    rw [cons_append, fraction_of_ne_point hx] at h ⊢
    obtain ⟨rfl, hrest⟩ := Prod.mk.inj h
    rw [← append_cancel_right (show x :: xs ++ after = _ from hrest)]
    rfl
  subst hx
  cases xs with
  | nil =>
    -- a point at the end is a part of the number, or a token of its own
    rcases append_eq_singleton_iff.1 hxs with ⟨rfl, rfl⟩ | ⟨rfl, rfl⟩
    · rw [hpoint rfl] at h
      cases h
    · rcases ht.cases with rfl | ⟨c, cs, hc, rfl⟩
      · rfl
      · have hc : c ≠ '.' := by rcases hc with rfl | rfl <;> decide
        simp [fraction_point hc, ht.digits c rfl]
  | cons y xs =>
    by_cases hy : y = '.'
    · subst hy
      obtain ⟨rfl, hrest⟩ := Prod.mk.inj h
      rw [← append_cancel_right (show '.' :: '.' :: xs ++ after = _ from hrest)]
      rfl
    · simp only [cons_append, fraction_point hy] at h ⊢
      obtain ⟨rfl, hrest⟩ := Prod.mk.inj h
      obtain ⟨htake, hdrop⟩ := takeWhile_tail (y :: xs) (.inr ht.digits) hrest
      simp only [cons_append] at htake hdrop
      rw [htake, hdrop]

theorem exponent_ends (ht : Ends tail) : exponent tail = ([], tail) := by
  rcases ht.cases with rfl | ⟨c, _ | ⟨d, cs⟩, rfl | rfl, rfl⟩ <;> rfl

theorem startsExponentDigits_ends (ht : Ends tail) : startsExponentDigits tail = false := by
  rcases ht.cases with rfl | ⟨c, _ | ⟨d, cs⟩, rfl | rfl, rfl⟩ <;> rfl

theorem exponent_cons (e c : Char) (cs : List Char) : exponent (e :: c :: cs) =
    if (e == 'e' || e == 'E') && startsExponentDigits (c :: cs) then
      (e :: c :: cs.takeWhile Char.isDigit, cs.dropWhile Char.isDigit)
    else ([], e :: c :: cs) := rfl

/-- A sign counts as long as a digit follows it. -/
theorem startsExponentDigits_of_takeWhile {cs : List Char} (h : cs.takeWhile Char.isDigit = []) :
    startsExponentDigits (c :: cs) = c.isDigit := by
  cases cs with
  | nil => rfl
  | cons d cs =>
    have hd : d.isDigit = false := Bool.eq_false_iff.2 fun hd => by simp [hd] at h
    simp [startsExponentDigits, hd]

theorem takeWhile_ends (ht : Ends tail) : tail.takeWhile Char.isDigit = [] := by
  cases tail with
  | nil => rfl
  | cons c cs => simp [ht.digits c rfl]

theorem exponent_ne_singleton (cs : List Char) (c : Char) : (exponent cs).1 ≠ [c] := by
  fun_cases exponent cs <;> simp

/-- The exponent of a number does not depend on what follows. -/
theorem exponent_tail (ht : Ends tail) (h : exponent (xs ++ after) = (part, rest ++ after)) :
    exponent (xs ++ tail) = (part, rest ++ tail) := by
  have hxs : part ++ rest = xs := by
    have hsplit := exponent_split (xs ++ after)
    rw [h, ← append_assoc] at hsplit
    exact append_cancel_right hsplit
  match xs with
  | [] =>
    obtain ⟨rfl, rfl⟩ := append_eq_nil_iff.1 hxs
    exact exponent_ends ht
  | [e] =>
    rcases append_eq_singleton_iff.1 hxs with ⟨rfl, rfl⟩ | ⟨rfl, rfl⟩
    · cases tail with
      | nil => rfl
      | cons c tail => simp [exponent_cons, startsExponentDigits_ends ht]
    · exact absurd (congrArg Prod.fst h) (exponent_ne_singleton _ _)
  | e :: c :: xs =>
    simp only [cons_append, exponent_cons] at h ⊢
    have hsame : ((e == 'e' || e == 'E') && startsExponentDigits (c :: (xs ++ tail))) =
        ((e == 'e' || e == 'E') && startsExponentDigits (c :: (xs ++ after))) := by
      cases xs with
      | cons d xs => rfl
      | nil =>
        rw [nil_append, nil_append, startsExponentDigits_of_takeWhile (takeWhile_ends ht)]
        cases hmark : e == 'e' || e == 'E' with
        | false => rfl
        | true =>
          cases hstarts : startsExponentDigits (c :: after) with
          | true =>
            rw [hmark, nil_append, hstarts] at h
            have hdigits : after.takeWhile Char.isDigit = [] := by
              obtain ⟨rfl, -⟩ := Prod.mk.inj h
              simp_all
            rw [← hstarts, startsExponentDigits_of_takeWhile hdigits]
          | false =>
            have hc : c.isDigit = false := by
              cases after <;> simp_all [startsExponentDigits]
            rw [hc]
    rw [hsame]
    split
    case isTrue hexponent =>
      rw [if_pos hexponent] at h
      obtain ⟨rfl, hrest⟩ := Prod.mk.inj h
      obtain ⟨htake, hdrop⟩ := takeWhile_tail _ (.inr ht.digits) hrest
      rw [htake, hdrop]
    case isFalse hexponent =>
      rw [if_neg hexponent] at h
      obtain ⟨rfl, hrest⟩ := Prod.mk.inj h
      rw [← append_cancel_right (show e :: c :: xs ++ after = _ from hrest)]
      rfl

/-- A number in its parts. -/
theorem number_of_parts {left afterFraction afterExponent fractionPart exponentPart : List Char}
    (hleft : xs.dropWhile Char.isDigit = left)
    (hfraction : fraction left = (fractionPart, afterFraction))
    (hexponent : exponent afterFraction = (exponentPart, afterExponent)) :
    number xs = (xs.takeWhile Char.isDigit ++ fractionPart ++ exponentPart, afterExponent) := by
  simp only [number, hleft, hfraction, hexponent]

/-- A number does not depend on what follows, unless that is a point of its own. -/
theorem number_tail (xs : List Char) (ht : Ends tail) (hpoint : rest = ['.'] → after = [])
    (h : number (xs ++ after) = (covered, rest ++ after)) :
    number (xs ++ tail) = (covered, rest ++ tail) := by
  cases hfraction : fraction ((xs ++ after).dropWhile Char.isDigit) with
  | mk fractionPart afterFraction =>
  cases hexponent : exponent afterFraction with
  | mk exponentPart afterExponent =>
  rw [number_of_parts rfl hfraction hexponent] at h
  obtain ⟨rfl, rfl⟩ := Prod.mk.inj h
  -- what is left after the fraction, and after the digits
  have hafter := exponent_split afterFraction
  rw [hexponent, ← append_assoc] at hafter
  have hleft := fraction_split ((xs ++ after).dropWhile Char.isDigit)
  rw [hfraction, ← hafter, ← append_assoc] at hleft
  rw [← hleft, ← hafter] at hfraction
  rw [← hafter] at hexponent
  have hnot : exponentPart ++ rest = ['.'] → after = [] := by
    intro heq
    rcases append_eq_singleton_iff.1 heq with ⟨-, heq⟩ | ⟨rfl, -⟩
    · exact hpoint heq
    · exact absurd (congrArg Prod.fst hexponent) (exponent_ne_singleton _ _)
  obtain ⟨htake, hdrop⟩ := takeWhile_tail _ (.inr ht.digits) hleft.symm
  rw [number_of_parts hdrop (fraction_tail ht hnot hfraction) (exponent_tail ht hexponent), htake]

/-! ### Quotes, comments and symbols -/

theorem stringBody_ends {quote : Char} (hquote : quote ≠ ' ' ∧ quote ≠ '\n') (ht : Ends tail) :
    stringBody quote (quote :: tail) = some ([], [quote], tail) := by
  rcases ht.cases with rfl | ⟨d, more, rfl | rfl, rfl⟩
  · simp [stringBody]
  · simp [stringBody, hquote.1.symm]
  · simp [stringBody, hquote.2.symm]

/-- A string ends with its quote, whatever follows, unless that is another quote. -/
theorem stringBody_tail {quote : Char} {cs said : List Char} (hquote : quote ≠ ' ' ∧ quote ≠ '\n')
    (ht : Ends tail) (h : stringBody quote cs = some (said, covered, rest ++ after)) :
    stringBody quote (covered ++ (rest ++ tail)) = some (said, covered, rest ++ tail) := by
  fun_induction stringBody quote cs generalizing said covered with
  | case1 => cases h
  | case2 c hc =>
    obtain ⟨rfl, rfl, hrest⟩ : [] = said ∧ [c] = covered ∧ [] = rest ++ after := by simpa using h
    obtain ⟨rfl, rfl⟩ := append_eq_nil_iff.1 hrest.symm
    rw [beq_iff_eq.1 hc]
    exact stringBody_ends hquote ht
  | case3 => cases h
  | case4 c d cs hc hd ih =>
    obtain ⟨⟨said', covered', rest'⟩, hbody, heq⟩ := Option.map_eq_some_iff.1 h
    cases heq
    simp [stringBody, hc, hd, ih hbody]
  | case5 c d cs hc hd =>
    obtain ⟨rfl, rfl, hrest⟩ : [] = said ∧ [c] = covered ∧ d :: cs = rest ++ after := by
      simpa using h
    cases rest with
    | nil =>
      rw [beq_iff_eq.1 hc]
      exact stringBody_ends hquote ht
    | cons r rest =>
      obtain ⟨rfl, -⟩ := List.cons.inj hrest
      simp [stringBody, hc, hd]
  | case6 c d cs hc hescape ih =>
    obtain ⟨⟨said', covered', rest'⟩, hbody, heq⟩ := Option.map_eq_some_iff.1 h
    cases heq
    simp [stringBody, hc, hescape, ih hbody]
  | case7 c d cs hc hescape ih =>
    obtain ⟨⟨said', covered', rest'⟩, hbody, heq⟩ := Option.map_eq_some_iff.1 h
    cases heq
    obtain ⟨-, inner, hclosed⟩ := stringBody_split hbody
    obtain ⟨e, more, rfl⟩ := exists_cons_of_ne_nil (l := covered') (by simp [hclosed])
    have hnext := ih hbody
    rw [cons_append] at hnext
    simp [stringBody, hc, hescape, hnext]

theorem prefix_of_prefix_tail {symbol : List Char} (ht : Ends tail)
    (hsymbol : ' ' ∉ symbol ∧ '\n' ∉ symbol) (h : symbol <+: xs ++ tail) : symbol <+: xs := by
  induction xs generalizing symbol with
  | nil =>
    rcases ht.cases with rfl | ⟨c, cs, hc, rfl⟩
    · exact h
    · rcases prefix_cons_iff.1 h with rfl | ⟨more, rfl, -⟩
      · exact nil_prefix
      · rcases hc with rfl | rfl <;> simp at hsymbol
  | cons x xs ih =>
    rcases prefix_cons_iff.1 h with rfl | ⟨more, rfl, hmore⟩
    · exact nil_prefix
    · exact cons_prefix_cons.2
        ⟨rfl, ih (hsymbol.imp (mt (.tail _)) (mt (.tail _))) hmore⟩

/-- No symbol has a space or a newline in it, so that the longest symbol does not depend on what
follows. -/
theorem symbolAt_tail (xs : List Char) (ht : Ends tail) (h : symbolAt (xs ++ after) = some covered)
    (hcovered : covered <+: xs) : symbolAt (xs ++ tail) = some covered := by
  have hspace : ∀ symbol ∈ symbols.map String.toList, ' ' ∉ symbol ∧ '\n' ∉ symbol := by decide
  obtain ⟨hfound, before, others, hsymbols, hbefore⟩ := find?_eq_some_iff_append.1 h
  refine find?_eq_some_iff_append.2
    ⟨List.isPrefixOf_iff_prefix.2 (hcovered.trans (prefix_append _ _)), before, others,
      hsymbols, fun symbol hsymbol => ?_⟩
  have hmem : symbol ∈ symbols.map String.toList := hsymbols ▸ mem_append_left _ hsymbol
  have hnot := hbefore symbol hsymbol
  simp only [Bool.not_eq_true', Bool.eq_false_iff, ne_eq, isPrefixOf_iff_prefix] at hnot ⊢
  exact fun hprefix => hnot
    ((prefix_of_prefix_tail ht (hspace symbol hmem) hprefix).trans (prefix_append _ _))

/-! ### What stands at the front -/

theorem startsLineComment_cons (c d : Char) (cs : List Char) :
    startsLineComment (c :: d :: cs) = (c == '#' || (c == '-' && d == '-')) := by
  unfold startsLineComment
  split <;> simp_all

theorem startsLineComment_singleton (c : Char) : startsLineComment [c] = (c == '#') := by
  unfold startsLineComment
  split <;> simp_all

theorem startsLineComment_tail (ht : Ends tail)
    (h : startsLineComment (c :: (xs ++ after)) = false) :
    startsLineComment (c :: (xs ++ tail)) = false := by
  match xs, after with
  | d :: xs, after => simpa only [cons_append, startsLineComment_cons] using h
  | [], [] | [], d :: after =>
    rcases ht.cases with rfl | ⟨e, cs, rfl | rfl, rfl⟩ <;>
      simp_all [startsLineComment_cons, startsLineComment_singleton]

theorem isPrefixOf_pair_tail {a b : Char} (ht : Ends tail) (hb : b ≠ ' ' ∧ b ≠ '\n')
    (h : [a, b].isPrefixOf (c :: (xs ++ after)) = false) :
    [a, b].isPrefixOf (c :: (xs ++ tail)) = false := by
  cases xs with
  | cons d xs => simpa [List.isPrefixOf] using h
  | nil => rcases ht.cases with rfl | ⟨e, cs, rfl | rfl, rfl⟩ <;> simp [List.isPrefixOf, hb]

theorem startsNumber_cons (c d : Char) (cs : List Char) :
    startsNumber (c :: d :: cs) = if c = '.' then d.isDigit else c.isDigit := by
  unfold startsNumber
  split
  case h_1 heq => simp_all
  case h_2 hpoint heq =>
    have hc : c ≠ '.' := by grind
    simp_all
  case h_3 heq => cases heq

theorem startsNumber_singleton (c : Char) : startsNumber [c] = c.isDigit := by
  unfold startsNumber
  split <;> simp_all

theorem startsNumber_ends (ht : Ends tail) : startsNumber (c :: tail) = c.isDigit := by
  cases tail with
  | nil => exact startsNumber_singleton c
  | cons d cs =>
    rw [startsNumber_cons]
    split
    case isTrue hc => simp [hc, ht.digits d rfl]
    case isFalse => rfl

theorem two_le_length_number {d : Char} (hd : d.isDigit = true) (cs : List Char) :
    2 ≤ (number ('.' :: d :: cs)).1.length := by
  have hpoint : d ≠ '.' := by
    rintro rfl
    cases hd
  have hfraction := fraction_point hpoint cs
  rw [number_of_parts (show _ = '.' :: d :: cs from rfl) hfraction rfl]
  simp [hd]

/-- A number covers a digit, so that it is seen in what it covers that there is one. -/
theorem startsNumber_tail (ht : Ends tail)
    (h : startsNumber (c :: (xs ++ after)) = true → (number (c :: (xs ++ after))).1 <+: c :: xs) :
    startsNumber (c :: (xs ++ tail)) = startsNumber (c :: (xs ++ after)) := by
  match xs, after with
  | d :: xs, after => simp only [cons_append, startsNumber_cons]
  | [], [] => rw [nil_append, startsNumber_ends ht, append_nil, startsNumber_singleton]
  | [], d :: after =>
    rw [nil_append, nil_append, startsNumber_ends ht, startsNumber_cons]
    split
    case isFalse => rfl
    case isTrue hc =>
      subst hc
      refine (Bool.eq_false_iff.2 fun hd => ?_).symm
      have hlong := two_le_length_number hd after
      have hshort := (h (by simpa [startsNumber_cons] using hd)).length_le
      rw [nil_append] at hshort
      simp only [length_singleton] at hshort
      omega

end Lexer

open Lexer in
/-- A token does not depend on what follows the text that it stands in. -/
theorem Lexed.front_tail_token {c : Char} {cs after tail rest said covered : List Char}
    {kind : TokenKind} (ht : Ends tail) (hpoint : rest = ['.'] → after = [])
    (h : front c (cs ++ after) = .token kind said covered (rest ++ after)) :
    front c (cs ++ tail) = .token kind said covered (rest ++ tail) := by
  have hcovered : covered ++ rest = c :: cs := by
    have hsplit := h ▸ front_splits c (cs ++ after)
    refine (append_left_inj after).1 ?_
    rw [append_assoc]
    exact hsplit.1
  unfold front at h ⊢
  split at h
  case isTrue => cases h
  case isFalse hblank =>
  rw [if_neg hblank]
  split at h
  case isTrue => cases h
  case isFalse hline =>
  rw [if_neg (Bool.eq_false_iff.1 (startsLineComment_tail ht (Bool.eq_false_iff.2 hline)))]
  split at h
  case isTrue => split at h <;> cases h
  case isFalse hblock =>
  rw [if_neg (Bool.eq_false_iff.1
    (isPrefixOf_pair_tail ht (by decide) (Bool.eq_false_iff.2 hblock)))]
  split at h
  case isTrue hquote =>
    rw [if_pos hquote]
    split at h
    case h_2 => cases h
    case h_1 said' covered' left hbody =>
      cases h
      have hcs : cs = covered' ++ rest := (List.cons.inj hcovered).2.symm
      have hspace : c ≠ ' ' ∧ c ≠ '\n' := by
        refine ⟨?_, ?_⟩ <;> rintro rfl <;> cases hquote
      rw [hcs, append_assoc, stringBody_tail hspace ht hbody]
  case isFalse hquote =>
  rw [if_neg hquote]
  split at h
  case isTrue hback =>
    rw [if_pos hback]
    split at h
    case h_2 => cases h
    case h_1 quote left hdrop =>
      cases h
      obtain ⟨htake, hdrop⟩ := takeWhile_tail _ (.inl (cons_ne_nil quote rest)) hdrop
      rw [hdrop, htake]
      rfl
  case isFalse hback =>
  rw [if_neg hback]
  split at h
  case isTrue hnumber =>
    obtain ⟨rfl, rfl, rfl, hrest⟩ := Lexed.token.inj h
    have hcover : (number (c :: cs ++ after)).1 <+: c :: cs := ⟨rest, hcovered⟩
    have hnext := number_tail (c :: cs) ht hpoint (Prod.ext rfl hrest)
    rw [cons_append] at hnext
    rw [startsNumber_tail ht fun _ => hcover, if_pos hnumber, hnext]
    rfl
  case isFalse hnumber =>
  rw [if_neg (by rw [startsNumber_tail ht fun hstarts => absurd hstarts hnumber]; exact hnumber)]
  split at h
  case isTrue hmark =>
    rw [if_pos hmark]
    obtain ⟨rfl, rfl, rfl, hrest⟩ := Lexed.token.inj h
    rw [append_cancel_right hrest]
  case isFalse hmark =>
  rw [if_neg hmark]
  split at h
  case isTrue hword =>
    rw [if_pos hword]
    obtain ⟨rfl, rfl, rfl, hrest⟩ := Lexed.token.inj h
    obtain ⟨htake, hdrop⟩ := takeWhile_tail _ (.inr (ht.stops (by decide))) hrest
    rw [htake, hdrop]
  case isFalse hword =>
  rw [if_neg hword]
  split at h
  case h_2 => cases h
  case h_1 symbol hsymbol =>
    obtain ⟨rfl, rfl, rfl, hrest⟩ := Lexed.token.inj h
    have hnext := symbolAt_tail (c :: cs) ht hsymbol ⟨rest, hcovered⟩
    rw [cons_append] at hnext
    rw [hnext, ← cons_append, ← hcovered, append_assoc]
    simp only [drop_left]

open Lexer in
/-- A gap does not depend on what follows, either, if another token or the end of the line does. -/
theorem Lexed.front_tail_gap {c : Char} {cs after tail rest covered : List Char}
    (hstop : rest ≠ [] ∨ ∀ d ∈ tail.head?, d = '\n')
    (h : front c (cs ++ after) = .gap covered (rest ++ after)) :
    front c (cs ++ tail) = .gap covered (rest ++ tail) := by
  have hsplit := h ▸ front_splits c (cs ++ after)
  have hcovered : covered ++ rest = c :: cs := by
    refine (append_left_inj after).1 ?_
    rw [append_assoc]
    exact hsplit.1
  replace hstop : rest ≠ [] ∨ ∀ d ∈ tail.head?, (d != '\n') = false :=
    hstop.imp_right fun hline d hd => by simp [hline d hd]
  unfold front at h ⊢
  split at h
  case isTrue hblank =>
    rw [if_pos hblank]
    obtain ⟨rfl, hleft⟩ := Lexed.gap.inj h
    rw [append_cancel_right hleft]
  case isFalse hblank =>
  rw [if_neg hblank]
  split at h
  case isTrue hline =>
    obtain ⟨rfl, hleft⟩ := Lexed.gap.inj h
    -- the comment covers what opens it
    have hopened : startsLineComment (c :: (cs ++ tail)) = true := by
      rcases opened_of_startsLineComment hline with hopen | hopen
      · obtain ⟨more, hmore⟩ := hopen.trans ⟨rest, hcovered⟩
        rw [← cons_append, ← hmore]
        rfl
      · obtain ⟨more, hmore⟩ := hopen.trans ⟨rest, hcovered⟩
        rw [← cons_append, ← hmore]
        rfl
    obtain ⟨htake, hdrop⟩ := takeWhile_tail (c :: cs) hstop hleft
    simp only [cons_append] at htake hdrop
    rw [if_pos hopened, htake, hdrop]
  case isFalse hline =>
  split at h
  case isTrue hblock =>
    split at h
    case h_2 => cases h
    case h_1 body left hbody =>
      obtain ⟨rfl, rfl⟩ := Lexed.gap.inj h
      obtain ⟨rfl, hcs⟩ := List.cons.inj hcovered
      obtain rfl : cs = '*' :: (body ++ rest) := hcs.symm
      have hnext := blockComment_append hbody (rest ++ tail)
      rw [if_neg (by simp [startsLineComment]), if_pos (by simp), cons_append, drop_one,
        tail_cons, append_assoc, hnext]
  case isFalse =>
    -- everything else is a token or a fault
    repeat' split at h
    all_goals cases h

/-! ### Slices -/

namespace Token

open Lexer

/-- What a token is, wherever it stands. -/
def content (t : Token) : TokenKind × String := (t.kind, t.text)

/-- Characters that are scanned into tokens with these contents, if nothing, a space or a newline
follows. -/
def Closed (cs : List Char) (contents : List (TokenKind × String)) : Prop :=
  ∀ offset tail tokens, Ends tail → Scanned (offset + Text.byteSize cs) tail tokens →
    ∃ front, Scanned offset (cs ++ tail) (front ++ tokens) ∧ front.map content = contents

variable {cs : List Char} {offset : Nat} {tokens : List Token}

theorem exists_of_splits {c : Char} {covered xs after : List Char}
    (h : covered ++ (xs ++ after) = c :: cs ∧ covered ≠ []) :
    ∃ front, covered ++ xs = c :: front ∧ cs = front ++ after := by
  obtain ⟨d, covered, rfl⟩ := exists_cons_of_ne_nil h.2
  obtain ⟨rfl, rfl⟩ := List.cons.inj h.1
  exact ⟨covered ++ xs, rfl, (append_assoc _ _ _).symm⟩

section

variable {c : Char} {cs covered xs after : List Char} {contents : List (TokenKind × String)}

theorem Closed.gap (h : Closed xs contents) (hne : xs ≠ [])
    (hfront : Lexed.front c cs = .gap covered (xs ++ after)) : Closed (covered ++ xs) contents := by
  intro offset tail tokens ht hscan
  rw [Text.byteSize_append, ← Nat.add_assoc] at hscan
  obtain ⟨front, hscanned, hcontents⟩ := h (offset + Text.byteSize covered) tail tokens ht hscan
  obtain ⟨cs, hcs, rfl⟩ := exists_of_splits (hfront ▸ front_splits c cs)
  refine ⟨front, ?_, hcontents⟩
  rw [hcs, cons_append]
  exact .gap (front_tail_gap (.inl hne) hfront) hscanned

theorem Closed.token {kind : TokenKind} {said : List Char} (h : Closed xs contents)
    (hpoint : xs ≠ ['.']) (hfront : Lexed.front c cs = .token kind said covered (xs ++ after)) :
    Closed (covered ++ xs) ((kind, String.ofList said) :: contents) := by
  intro offset tail tokens ht hscan
  rw [Text.byteSize_append, ← Nat.add_assoc] at hscan
  obtain ⟨front, hscanned, hcontents⟩ := h (offset + Text.byteSize covered) tail tokens ht hscan
  obtain ⟨cs, hcs, rfl⟩ := exists_of_splits (hfront ▸ front_splits c cs)
  refine ⟨⟨kind, String.ofList said, offset, offset + Text.byteSize covered⟩ :: front, ?_, ?_⟩
  · rw [hcs, cons_append]
    exact .token (front_tail_token ht (absurd · hpoint) hfront) hscanned
  · rw [map_cons, hcontents]
    rfl

end

theorem closed_nil : Closed [] [] := fun _ _ _ _ hscan => ⟨[], hscan, rfl⟩

/-- A point by itself is the symbol. -/
theorem Closed.point {contents : List (TokenKind × String)} (h : Closed ['.'] contents) :
    contents = [(.symbol, ".")] := by
  obtain ⟨front, hscanned, rfl⟩ := h 0 [] [] ends_nil (.done _)
  have hfront : Lexed.front '.' [] = .token .symbol ['.'] ['.'] [] := by rfl
  rw [append_nil, append_nil] at hscanned
  cases hscanned with
  | gap front next => cases hfront.symm.trans front
  | token front next =>
    cases hfront.symm.trans front
    cases next
    rfl

/-- Up to a token that is no point, a text is closed. -/
theorem Scanned.closed {ts us : List Token} {last : Token}
    (h : Scanned offset cs (ts ++ last :: us)) (hlast : last.isSymbol "." = false) :
    ∃ xs after, cs = xs ++ after ∧ xs ≠ [] ∧ last.stop = offset + Text.byteSize xs ∧
      Closed xs ((ts ++ [last]).map content) := by
  generalize htokens : ts ++ last :: us = tokens at h
  induction h generalizing ts with
  | done => simp at htokens
  | @gap offset c cs covered rest tokens front next ih =>
    obtain ⟨xs, after, rfl, hne, hstop, hclosed⟩ := ih htokens
    refine ⟨covered ++ xs, after, ?_, by simp [hne], ?_, hclosed.gap hne front⟩
    · rw [append_assoc]
      exact (front ▸ front_splits c cs).1.symm
    · rw [hstop, Text.byteSize_append, Nat.add_assoc]
  | @token offset c cs kind said covered rest tokens front next ih =>
    have hsplit := front ▸ front_splits c cs
    cases ts with
    | nil =>
      obtain ⟨rfl, rfl⟩ := List.cons.inj htokens
      refine ⟨covered, rest, hsplit.1.symm, hsplit.2, rfl, ?_⟩
      have hclosed := closed_nil.token (by simp)
        (show Lexed.front c cs = .token kind said covered ([] ++ rest) from front)
      rwa [append_nil] at hclosed
    | cons first ts =>
      obtain ⟨rfl, hothers⟩ := List.cons.inj htokens
      obtain ⟨xs, after, rfl, hne, hstop, hclosed⟩ := ih hothers
      have hpoint : xs ≠ ['.'] := by
        rintro rfl
        have hmem : last.content ∈ (ts ++ [last]).map content := by simp
        rw [hclosed.point, mem_singleton, content, Prod.mk.injEq] at hmem
        simp [isSymbol, hmem.1, hmem.2] at hlast
      refine ⟨covered ++ xs, after, ?_, by simp [hne], ?_, hclosed.token hpoint front⟩
      · rw [append_assoc, hsplit.1]
      · rw [hstop, Text.byteSize_append, Nat.add_assoc]

/-- The tokens from one token on are those of what is left of the text there. -/
theorem Scanned.drop {ts us : List Token} {first : Token}
    (h : Scanned offset cs (ts ++ first :: us)) :
    ∃ before rest, cs = before ++ rest ∧ first.start = offset + Text.byteSize before ∧
      Scanned first.start rest (first :: us) := by
  generalize htokens : ts ++ first :: us = tokens at h
  induction h generalizing ts with
  | done => simp at htokens
  | @gap offset c cs covered rest tokens front next ih =>
    obtain ⟨before, left, rfl, hstart, hscanned⟩ := ih htokens
    refine ⟨covered ++ before, left, ?_, ?_, hscanned⟩
    · rw [append_assoc]
      exact (front ▸ front_splits c cs).1.symm
    · rw [hstart, Text.byteSize_append, Nat.add_assoc]
  | @token offset c cs kind said covered rest tokens front next ih =>
    cases ts with
    | nil =>
      obtain ⟨rfl, rfl⟩ := List.cons.inj htokens
      exact ⟨[], c :: cs, rfl, rfl, .token front next⟩
    | cons t ts =>
      obtain ⟨rfl, hothers⟩ := List.cons.inj htokens
      obtain ⟨before, left, rfl, hstart, hscanned⟩ := ih hothers
      refine ⟨covered ++ before, left, ?_, ?_, hscanned⟩
      · rw [append_assoc]
        exact (front ▸ front_splits c cs).1.symm
      · rw [hstart, Text.byteSize_append, Nat.add_assoc]

theorem eq_append_of_getElem? {i : Nat} {t : Token} (h : tokens[i]? = some t) :
    tokens = tokens.take i ++ t :: tokens.drop (i + 1) := by
  obtain ⟨hlt, rfl⟩ := List.getElem?_eq_some_iff.1 h
  rw [← drop_eq_getElem_cons hlt, take_append_drop]

/-- The text from one token up to the end of another, which is no point, is closed. -/
theorem closed_slice {text : String} {i j : Nat} {first last : Token} (h : scan text = .ok tokens)
    (hi : tokens[i]? = some first) (hj : tokens[j]? = some last) (hij : i ≤ j)
    (hlast : last.isSymbol "." = false) :
    ∃ inner, Text.slice? text first.start last.stop = some (String.ofList inner) ∧
      Closed inner (((tokens.drop i).take (j + 1 - i)).map content) := by
  have hscanned := scan_eq_ok_iff.1 h
  rw [eq_append_of_getElem? hi] at hscanned
  obtain ⟨before, rest, htext, hstart, hscanned⟩ := hscanned.drop
  have hdrop : first :: tokens.drop (i + 1) = tokens.drop i := by
    obtain ⟨hlt, rfl⟩ := List.getElem?_eq_some_iff.1 hi
    rw [drop_eq_getElem_cons hlt]
  have hat : (tokens.drop i)[j - i]? = some last := by
    rw [getElem?_drop, Nat.add_sub_cancel' hij, hj]
  rw [hdrop, eq_append_of_getElem? hat] at hscanned
  obtain ⟨inner, after, rfl, -, hstop, hclosed⟩ := hscanned.closed hlast
  rw [Nat.zero_add] at hstart
  refine ⟨inner, ?_, ?_⟩
  · rw [hstop, hstart]
    exact Text.slice?_of_append htext
  · rw [Nat.succ_sub hij, take_add_one, hat]
    exact hclosed

/-! ### Predicates with `AND` between them -/

theorem front_space (cs : List Char) : Lexed.front ' ' cs = .gap [' '] cs := by
  rw [Lexed.front, if_pos (by decide)]

theorem front_and (cs : List Char) :
    Lexed.front 'A' ('N' :: 'D' :: ' ' :: cs) =
      .token .word ['A', 'N', 'D'] ['A', 'N', 'D'] (' ' :: cs) := by
  have halone : Lexed.front 'A' (['N', 'D'] ++ []) =
      .token .word ['A', 'N', 'D'] ['A', 'N', 'D'] ([] ++ []) := by rfl
  exact front_tail_token (ends_space cs) (by simp) halone

theorem Closed.and {xs ys : List Char} {left right : List (TokenKind × String)}
    (hleft : Closed xs left) (hright : Closed ys right) :
    Closed (xs ++ (" AND ".toList ++ ys)) (left ++ (.word, "AND") :: right) := by
  intro offset tail tokens ht hscan
  simp only [Text.byteSize_append, ← Nat.add_assoc] at hscan
  obtain ⟨second, hsecond, rfl⟩ := hright _ tail tokens ht hscan
  have hword : Scanned (offset + Text.byteSize xs) (' ' :: 'A' :: 'N' :: 'D' :: ' ' :: (ys ++ tail))
      (⟨.word, "AND", offset + Text.byteSize xs + 1, offset + Text.byteSize xs + 4⟩ ::
        (second ++ tokens)) :=
    .gap (front_space _) (.token (front_and _) (.gap (front_space _) hsecond))
  obtain ⟨first, hfirst, rfl⟩ := hleft _ _ _ (ends_space _) hword
  refine ⟨first ++ ⟨.word, "AND", offset + Text.byteSize xs + 1, offset + Text.byteSize xs + 4⟩ ::
    second, ?_, ?_⟩
  · simpa using hfirst
  · simp [content]

/-- Texts that are closed are closed with `AND` between them. -/
theorem closed_intercalate {α : Type} {text : α → String}
    {contents : α → List (TokenKind × String)} {first : α} {others : List α}
    (h : ∀ a ∈ first :: others, Closed (text a).toList (contents a)) :
    Closed (" AND ".intercalate ((first :: others).map text)).toList
      (contents first ++ others.flatMap fun a => (.word, "AND") :: contents a) := by
  induction others generalizing first with
  | nil =>
    have hfirst := h first mem_cons_self
    simpa [String.intercalate_singleton] using hfirst
  | cons second others ih =>
    have hothers := ih fun a ha => h a (mem_cons_of_mem _ ha)
    have hfirst := h first mem_cons_self
    have hboth := hfirst.and hothers
    rw [map_cons, map_cons, String.intercalate_cons_cons]
    simpa using hboth

/-- A text that is closed has the tokens that it is closed with. -/
theorem Closed.scan {text : String} {contents : List (TokenKind × String)}
    (h : Closed text.toList contents) :
    ∃ tokens, scan text = .ok tokens ∧ tokens.map content = contents := by
  obtain ⟨tokens, hscanned, hcontents⟩ := h 0 [] [] ends_nil (.done _)
  rw [append_nil, append_nil] at hscanned
  exact ⟨tokens, scan_eq_ok_iff.2 hscanned, hcontents⟩

/-! ### A newline between two texts -/

/-- A token so many bytes further on. -/
def shift (n : Nat) (t : Token) : Token := { t with start := t.start + n, stop := t.stop + n }

theorem Scanned.shift (h : Scanned offset cs tokens) (n : Nat) :
    Scanned (offset + n) cs (tokens.map (Token.shift n)) := by
  induction h with
  | done offset => exact .done _
  | gap front next ih =>
    rw [Nat.add_right_comm] at ih
    exact .gap front ih
  | token front next ih =>
    rw [Nat.add_right_comm] at ih
    rw [map_cons, Token.shift, Nat.add_right_comm]
    exact .token front ih

/-- Tokens, escapes and comments end with their text, if a line ends there. -/
theorem Scanned.append {tail : List Char} {front back : List Token} (h : Scanned offset cs front)
    (htail : ∀ c ∈ tail.head?, c = '\n') (hback : Scanned (offset + Text.byteSize cs) tail back) :
    Scanned offset (cs ++ tail) (front ++ back) := by
  induction h with
  | done => exact hback
  | @gap offset c cs covered rest tokens hfront next ih =>
    have hsplit := hfront ▸ front_splits c cs
    rw [← hsplit.1, Text.byteSize_append, ← Nat.add_assoc] at hback
    have hfront : Lexed.front c (cs ++ []) = .gap covered (rest ++ []) := by simpa using hfront
    exact .gap (front_tail_gap (.inr htail) hfront) (ih hback)
  | @token offset c cs kind said covered rest tokens hfront next ih =>
    have hsplit := hfront ▸ front_splits c cs
    rw [← hsplit.1, Text.byteSize_append, ← Nat.add_assoc] at hback
    have hends : Ends tail := fun d hd => .inr (htail d hd)
    have hfront : Lexed.front c (cs ++ []) = .token kind said covered (rest ++ []) := by
      simpa using hfront
    exact .token (front_tail_token hends (fun _ => rfl) hfront) (ih hback)

/-- Two texts with a newline between them have the tokens of the one and then those of the other,
which stand further on. -/
theorem scan_append_newline {a b : String} {front back : List Token} (ha : scan a = .ok front)
    (hb : scan b = .ok back) :
    scan (a ++ "\n" ++ b) = .ok (front ++ back.map (shift (Text.size a + 1))) := by
  rw [scan_eq_ok_iff] at ha hb ⊢
  have hnewline : Lexed.front '\n' b.toList = .gap ['\n'] b.toList := by
    rw [Lexed.front, if_pos (by decide)]
  have hback := hb.shift (Text.size a + 1)
  have hline : Scanned (0 + Text.byteSize a.toList) ('\n' :: b.toList)
      (back.map (shift (Text.size a + 1))) := .gap hnewline hback
  rw [String.toList_append, String.toList_append, List.append_assoc]
  exact ha.append (fun c hc => (Option.some.inj hc).symm) hline

/-- The first text ends within a comment, after a number with a point; the second starts with what
would go on with the number. -/
theorem scan_append_newline_number :
    scan "1. -- é\n5e3 || 'x'" = .ok
      [⟨.number, "1.", 0, 2⟩, ⟨.number, "5e3", 9, 12⟩, ⟨.symbol, "||", 13, 15⟩,
        ⟨.string, "x", 16, 19⟩] :=
  @scan_append_newline "1. -- é" "5e3 || 'x'" [⟨.number, "1.", 0, 2⟩]
    [⟨.number, "5e3", 0, 3⟩, ⟨.symbol, "||", 4, 6⟩, ⟨.string, "x", 7, 10⟩]
    (eq_ok_of_toOption (by decide +kernel)) (eq_ok_of_toOption (by decide +kernel))

end Token

end SqlSignature

import Mathlib.Data.Nat.Digits.Defs
import SqlSignature.Proofs.QuotedFaults
/-!
# SqlSignature.Proofs.NumberLiterals

Every number is a literal. The scanner and the reader of literals take numbers apart each in its own
way, and both go by the same spelling (`Numeral`): digits around a point, of which there is at least
one, and an exponent with digits of its own. So the reader finds a literal for whatever the scanner
calls a number, and no statement fails because of a number (`Token.numbers_denote`).
-/

open List

namespace SqlSignature

/-! ### Spelling -/

/-- The number that decimal digits stand for. -/
def decimalValue (digits : List Char) : Nat :=
  Nat.ofDigits 10 (digits.map fun c => c.toNat - '0'.toNat).reverse

/-- An exponent: a letter, a sign that may be left out, and digits. -/
structure Exponent where
  letter : Char
  sign : Option Char
  digits : List Char
  isLetter : letter = 'e' ∨ letter = 'E'
  isSign : ∀ c ∈ sign, c = '-' ∨ c = '+'
  nonempty : digits ≠ []
  areDigits : ∀ c ∈ digits, c.isDigit = true

/-- A number: digits, a point with digits after it, and an exponent. Point and exponent may be left
out, and there are digits before the point or after it. -/
structure Numeral where
  whole : List Char
  fraction : Option (List Char)
  exponent : Option Exponent
  nonempty : whole ++ fraction.getD [] ≠ []
  areDigits : ∀ c ∈ whole ++ fraction.getD [], c.isDigit = true

namespace Exponent

def chars (e : Exponent) : List Char := e.letter :: (e.sign.toList ++ e.digits)

def value (e : Exponent) : Int :=
  if e.sign = some '-' then -(decimalValue e.digits : Int) else decimalValue e.digits

end Exponent

namespace Numeral

def chars (n : Numeral) : List Char :=
  n.whole ++ n.fraction.elim [] ('.' :: ·) ++ n.exponent.elim [] Exponent.chars

/-- The double-precision number nearest to a number. -/
def binary (n : Numeral) : Binary64 :=
  .ofDecimal (decimalValue (n.whole ++ n.fraction.getD []))
    (n.exponent.elim 0 Exponent.value - (n.fraction.getD []).length)

/-- What a number is as a literal: a float if it has the letter of an exponent, else a decimal if it
has a point, else a whole number if that has 63 bits at most. -/
def literal (n : Numeral) : Literal :=
  if 'e' ∈ n.chars ∨ 'E' ∈ n.chars then .float n.binary
  else if '.' ∈ n.chars then .decimal n.binary
  else if decimalValue n.chars < 2 ^ 63 then .int (decimalValue n.chars)
  else .decimal n.binary

end Numeral

/-! ### Reading -/

namespace Literal

theorem natOfDigits_eq (digits : List Char) : natOfDigits digits = decimalValue digits := by
  induction digits using List.reverseRecOn with
  | nil => rfl
  | append_singleton digits d ih =>
    rw [natOfDigits, foldl_append, ← natOfDigits, ih, decimalValue, decimalValue, map_append,
      reverse_append]
    exact Nat.add_comm _ _

theorem exponentOf?_chars (e : Exponent) : exponentOf? e.chars = some e.value := by
  obtain ⟨letter, sign, digits, hletter, hsign, hne, hdigits⟩ := e
  have hall : digits.all Char.isDigit = true := all_eq_true.2 hdigits
  have hempty : digits.isEmpty = false := by simpa using hne
  have hmark : (letter == 'e' || letter == 'E') = true := by simpa using hletter
  cases sign with
  | some c =>
    rcases hsign c rfl with rfl | rfl <;>
      simp [exponentOf?, Exponent.chars, Exponent.value, hmark, hall, hempty, natOfDigits_eq]
  | none =>
    obtain ⟨d, ds, rfl⟩ := exists_cons_of_ne_nil hne
    have hd := hdigits d mem_cons_self
    have hminus : d ≠ '-' := by rintro rfl; cases hd
    have hplus : d ≠ '+' := by rintro rfl; cases hd
    simpa [exponentOf?, Exponent.chars, Exponent.value, hmark, hminus, hplus, natOfDigits_eq]
      using hall

/-- The exponent of a number, which may be left out, does not start with a digit or a point. -/
theorem stops_exponent (e : Option Exponent) :
    ∀ c ∈ (e.elim [] Exponent.chars).head?, c.isDigit = false ∧ c ≠ '.' := by
  intro c hc
  cases e with
  | none => cases hc
  | some e =>
    cases hc
    rcases e.isLetter with h | h <;> rw [h] <;> decide

theorem exponentOf?_elim (e : Option Exponent) :
    exponentOf? (e.elim [] Exponent.chars) = some (e.elim 0 Exponent.value) := by
  cases e with
  | none => rfl
  | some e => exact exponentOf?_chars e

theorem decimalOf?_chars (n : Numeral) :
    decimalOf? n.chars = some (decimalValue (n.whole ++ n.fraction.getD []),
      n.exponent.elim 0 Exponent.value - (n.fraction.getD []).length) := by
  obtain ⟨whole, fraction, e, hne, hdigits⟩ := n
  have hstops := stops_exponent e
  have hread := exponentOf?_elim e
  have hwhole : ∀ c ∈ whole, c.isDigit = true := fun c hc =>
    hdigits c (mem_append_left _ hc)
  have hempty : (whole ++ fraction.getD []).isEmpty = false := by simpa using hne
  rw [Numeral.chars, append_assoc]
  generalize e.elim [] Exponent.chars = tail at hstops hread ⊢
  cases fraction with
  | none =>
    obtain ⟨htake, hdrop⟩ := Lexer.takeWhile_append_stop hwhole fun c hc => (hstops c hc).1
    simp only [decimalOf?, Option.elim_none, nil_append, htake, hdrop]
    split
    next rest => exact absurd rfl (hstops '.' rfl).2
    next => simp_all [natOfDigits_eq]
  | some digits =>
    have hfraction : ∀ c ∈ digits, c.isDigit = true := fun c hc =>
      hdigits c (mem_append_right _ hc)
    have hpoint : ∀ c ∈ ('.' :: (digits ++ tail)).head?, c.isDigit = false := by
      rintro c ⟨⟩
      decide
    obtain ⟨htake, hdrop⟩ := Lexer.takeWhile_append_stop hwhole hpoint
    obtain ⟨htake', hdrop'⟩ := Lexer.takeWhile_append_stop hfraction fun c hc => (hstops c hc).1
    simp only [decimalOf?, Option.elim_some, cons_append, htake, hdrop, htake', hdrop', hread]
    simp_all [natOfDigits_eq]

theorem binaryOf?_chars (n : Numeral) : binaryOf? n.chars = some n.binary := by
  rw [binaryOf?, decimalOf?_chars]
  rfl

/-- Without an exponent and a point, a number is its digits. -/
theorem chars_eq_digits {n : Numeral} (hletter : ¬('e' ∈ n.chars ∨ 'E' ∈ n.chars))
    (hpoint : '.' ∉ n.chars) : n.chars = n.whole ++ n.fraction.getD [] := by
  obtain ⟨whole, fraction, e, _, _⟩ := n
  cases e with
  | some e => rcases e.isLetter with h | h <;> simp [Numeral.chars, Exponent.chars, h] at hletter
  | none =>
    cases fraction with
    | some digits => simp [Numeral.chars] at hpoint
    | none => simp [Numeral.chars]

/-- A number is read as the literal that it is. -/
theorem ofNumber?_chars {n : Numeral} {number : String} (h : number.toList = n.chars) :
    ofNumber? number = some n.literal := by
  have hletter : (n.chars.any fun c => c == 'e' || c == 'E') = true ↔
      'e' ∈ n.chars ∨ 'E' ∈ n.chars := by
    simp only [any_eq_true, Bool.or_eq_true, beq_iff_eq, and_or_left, exists_or,
      exists_eq_right]
  simp only [ofNumber?, Numeral.literal, h, binaryOf?_chars, natOfDigits_eq, hletter,
    contains_iff_mem]
  split_ifs with he hpoint hwhole hlt hlt
  · rfl
  · rfl
  · rfl
  · simp_all
  · -- the digits are all there is, so only their value can be in the way
    have hdigits := chars_eq_digits he hpoint
    have hempty : n.chars.isEmpty = false := by rw [hdigits]; simpa using n.nonempty
    have hall : n.chars.all Char.isDigit = true := by
      rw [hdigits]
      exact all_eq_true.2 n.areDigits
    exact absurd (by simpa [hempty, hall] using hlt) hwhole
  · rfl

end Literal

/-! ### Scanning -/

namespace Lexer

theorem exists_fraction (cs : List Char) : ∃ digits : Option (List Char),
    (fraction cs).1 = digits.elim [] ('.' :: ·) ∧ ∀ c ∈ digits.getD [], c.isDigit = true := by
  fun_cases fraction cs with
  | case1 | case3 => exact ⟨none, rfl, by simp⟩
  | case2 rest => exact ⟨some _, rfl, fun _ => mem_takeWhile_imp⟩

theorem exists_exponent (cs : List Char) :
    ∃ e : Option Exponent, (exponent cs).1 = e.elim [] Exponent.chars := by
  fun_cases exponent cs with
  | case2 | case3 => exact ⟨none, rfl⟩
  | case1 letter c rest h =>
    obtain ⟨hletter, hstarts⟩ := Bool.and_eq_true_iff.1 h
    have hletter : letter = 'e' ∨ letter = 'E' := by simpa using hletter
    have hdigits : ∀ d ∈ rest.takeWhile Char.isDigit, d.isDigit = true := fun _ =>
      mem_takeWhile_imp
    by_cases hc : c.isDigit = true
    · exact ⟨some ⟨letter, none, c :: rest.takeWhile Char.isDigit, hletter, by simp, by simp,
        forall_mem_cons.2 ⟨hc, hdigits⟩⟩, rfl⟩
    · -- what is no digit is a sign, and the digits come after it
      cases rest with
      | nil => exact absurd hstarts hc
      | cons d rest =>
        obtain ⟨hsign, hd⟩ : (c = '-' ∨ c = '+') ∧ d.isDigit = true := by
          simpa [startsExponentDigits, hc] using hstarts
        exact ⟨some ⟨letter, some c, _, hletter, by simpa using hsign, by simp [hd], hdigits⟩, rfl⟩

/-- Where a number starts, the scanner takes one. -/
theorem exists_numeral {cs : List Char} (h : startsNumber cs = true) :
    ∃ n : Numeral, (number cs).1 = n.chars := by
  obtain ⟨digits, hfraction, hdigits⟩ := exists_fraction (cs.dropWhile Char.isDigit)
  obtain ⟨e, he⟩ := exists_exponent (fraction (cs.dropWhile Char.isDigit)).2
  have hne : cs.takeWhile Char.isDigit ++ digits.getD [] ≠ [] := by
    fun_cases startsNumber cs with
    | case1 d rest =>
      have hd : d.isDigit = true := h
      have hpoint : d ≠ '.' := by rintro rfl; cases hd
      cases digits with
      | none => simp [List.dropWhile, fraction_point hpoint] at hfraction
      | some digits =>
        have htaken : d :: rest.takeWhile Char.isDigit = digits := by
          simpa [List.dropWhile, fraction_point hpoint, hd] using hfraction
        simp [← htaken]
    | case2 c rest =>
      have hc : c.isDigit = true := by simp_all [startsNumber]
      simp [hc]
    | case3 => cases h
  refine ⟨⟨cs.takeWhile Char.isDigit, digits, e, hne, fun c hc => ?_⟩, ?_⟩
  · rcases mem_append.1 hc with hc | hc
    · exact mem_takeWhile_imp hc
    · exact hdigits c hc
  · rw [Numeral.chars, ← hfraction, ← he]
    rfl

end Lexer

theorem Lexed.number_of_front (c : Char) (cs : List Char) {said covered rest : List Char} :
    front c cs = .token .number said covered rest → ∃ n : Numeral, said = n.chars := by
  fun_cases Lexed.front c cs with
  | case9 _ _ _ _ _ hnumber taken left htaken =>
    rintro ⟨⟩
    simpa only [htaken] using Lexer.exists_numeral hnumber
  | case1 | case2 | case3 | case4 | case5 | case6 | case7 | case8 | case10 | case11 | case12
  | case13 => simp

namespace Token

theorem Scanned.numeral {offset : Nat} {cs : List Char} {tokens : List Token}
    (h : Scanned offset cs tokens) :
    ∀ t ∈ tokens, t.kind = .number → ∃ n : Numeral, t.text.toList = n.chars := by
  induction h with
  | done => simp
  | gap _ _ ih => exact ih
  | token front _ ih =>
    refine forall_mem_cons.2 ⟨fun hkind => ?_, ih⟩
    cases hkind
    rw [String.toList_ofList]
    exact Lexed.number_of_front _ _ front

end Token

/-! ### Faults -/

/-- Tokens whose numbers can be read are no reason to fail with a number. -/
theorem ParseError.RaisedOver.fault_ne {text : String} {tokens : Array Token} {e : ParseError}
    (h : e.RaisedOver text tokens)
    (hnumbers : ∀ t ∈ tokens, t.kind = .number → Literal.ofNumber? t.text ≠ none) :
    e.fault ≠ .invalidNumber := by
  obtain ⟨c, fault, pivot, rfl, -, -, -, hfault⟩ := h
  intro hinvalid
  obtain ⟨t, ht, hkind, hnone⟩ := hfault hinvalid
  exact hnumbers t ht hkind hnone

/-- Past the last token there is no expression, and that is what is wrong. -/
theorem Grammar.fault_parsePrimary {c c' : Cursor} {e : ParseError} (hcurrent : c.current = none)
    (h : parsePrimary c = .error e c') : e.fault = .unexpectedEnd := by
  have hget : ∀ k : Cursor → Parser Expr, ((get : Parser Cursor) >>= k) c = k c c := fun _ => rfl
  have hdepth : depthFor c.tokens.size = 16 * c.tokens.size + 15 + 1 := by rw [depthFor]; omega
  rw [parsePrimary, hget, ofCursor, hdepth, upTo_primary, primaryRule, hget, hcurrent] at h
  cases h
  rfl

/-- **Numbers are literals.** Every number among the tokens of a text is spelled as one and read as
the literal it is: by an exponent, a point or its value below `2 ^ 63`. So neither an expression
that starts anywhere among the tokens nor the statement fails because of a number. -/
theorem Token.numbers_denote {text : String} {tokens : List Token}
    (hscan : scan text = .ok tokens) :
    (∀ t ∈ tokens, t.kind = .number →
      ∃ n : Numeral, t.text.toList = n.chars ∧ Literal.ofNumber? t.text = some n.literal) ∧
    (∀ c c' e, c.tokens = tokens.toArray → Grammar.parsePrimary c = .error e c' →
      e.fault ≠ .invalidNumber) ∧
    ∀ e, Statement.parse text = .error e → e.fault ≠ .invalidNumber := by
  have hnumerals := (scan_eq_ok_iff.1 hscan).numeral
  have hread : ∀ t ∈ tokens.toArray, t.kind = .number → Literal.ofNumber? t.text ≠ none := by
    intro t ht hkind
    obtain ⟨n, hn⟩ := hnumerals t (List.mem_toArray.1 ht) hkind
    rw [Literal.ofNumber?_chars hn]
    simp
  refine ⟨fun t ht hkind => ?_, fun c c' e hc hrun => ?_, fun e h => ?_⟩
  · obtain ⟨n, hn⟩ := hnumerals t ht hkind
    exact ⟨n, hn, Literal.ofNumber?_chars hn⟩
  · rcases Nat.le_total c.position c.tokens.size with hle | hle
    · have hraised := Grammar.raised_of_outcome Grammar.sameOutcome_parsePrimary hle hrun
      exact hraised.fault_ne (hc ▸ hread)
    · rw [Grammar.fault_parsePrimary (Array.getElem?_eq_none hle) hrun]
      simp
  · rcases Statement.raised_of_parse hscan h with rfl | hraised
    · simp [ParseError.within]
    · exact hraised.fault_ne hread

/-- An exponent after a fraction with no digits before it, and the least whole number of 64 bits. -/
theorem Token.numbers_denote_spellings : ∃ tokens : List Token,
    scan "SELECT .5E-3, 9223372036854775808" = .ok tokens ∧
    (∃ n : Numeral, ".5E-3".toList = n.chars ∧ Literal.ofNumber? ".5E-3" = some n.literal) ∧
    (∃ n : Numeral, "9223372036854775808".toList = n.chars ∧
      Literal.ofNumber? "9223372036854775808" = some n.literal) ∧
    ∀ e, Statement.parse "SELECT .5E-3, 9223372036854775808" = .error e →
      e.fault ≠ .invalidNumber := by
  have hscan : scan "SELECT .5E-3, 9223372036854775808" =
      .ok [⟨.word, "SELECT", 0, 6⟩, ⟨.number, ".5E-3", 7, 12⟩, ⟨.symbol, ",", 12, 13⟩,
        ⟨.number, "9223372036854775808", 14, 33⟩] :=
    eq_ok_of_toOption (by decide +kernel)
  obtain ⟨hnumbers, -, hparse⟩ := numbers_denote hscan
  exact ⟨_, hscan, hnumbers ⟨.number, ".5E-3", 7, 12⟩ (by simp) rfl,
    hnumbers ⟨.number, "9223372036854775808", 14, 33⟩ (by simp) rfl, hparse⟩

end SqlSignature

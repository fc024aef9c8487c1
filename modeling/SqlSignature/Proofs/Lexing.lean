import SqlSignature.Cursor
import SqlSignature.Proofs.CursorMoves
/-!
# SqlSignature.Proofs.Lexing

What stands at the front of a text covers characters of the text, so the tokens of a text stand in
it in order: `Cursor.sound_ofText`.
-/

open List

namespace SqlSignature

namespace Lexer

theorem head_dropWhile_ne {c : Char} (cs : List Char) :
    ∀ d ∈ (cs.dropWhile (· != c)).head?, d = c := by
  intro d hd
  have hnot := head?_dropWhile_not (· != c) cs
  rw [Option.mem_def.1 hd] at hnot
  simpa using hnot

theorem blockComment_split {cs body rest : List Char} (h : blockComment cs = some (body, rest)) :
    cs = body ++ rest := by
  fun_induction blockComment cs generalizing body rest with
  | case1 => cases h; rfl
  | case2 c cs _ ih =>
    obtain ⟨_, hrest, heq⟩ := Option.map_eq_some_iff.1 h
    cases heq
    rw [ih hrest, cons_append]
  | case3 => cases h

theorem fraction_split (cs : List Char) : (fraction cs).1 ++ (fraction cs).2 = cs := by
  fun_cases fraction cs <;> simp [takeWhile_append_dropWhile]

theorem exponent_split (cs : List Char) : (exponent cs).1 ++ (exponent cs).2 = cs := by
  fun_cases exponent cs <;> simp [takeWhile_append_dropWhile]

theorem number_split (cs : List Char) : (number cs).1 ++ (number cs).2 = cs := by
  have hfraction := fraction_split (cs.dropWhile Char.isDigit)
  have hexponent := exponent_split (fraction (cs.dropWhile Char.isDigit)).2
  simp only [number, append_assoc]
  rw [hexponent, hfraction, takeWhile_append_dropWhile]

theorem fraction_point {c : Char} (hc : c ≠ '.') (cs : List Char) :
    fraction ('.' :: c :: cs) =
      ('.' :: (c :: cs).takeWhile Char.isDigit, (c :: cs).dropWhile Char.isDigit) := by
  unfold fraction
  split <;> simp_all

/-- Where a number starts there are characters of it. -/
theorem number_ne_nil {cs : List Char} (h : startsNumber cs = true) : (number cs).1 ≠ [] := by
  fun_cases startsNumber cs with
  | case1 d rest =>
    have hd : d ≠ '.' := by rintro rfl; cases h
    simp [number, List.takeWhile, List.dropWhile, fraction_point hd]
  | case2 c rest _ =>
    have hc : c.isDigit = true := by
      simp_all [startsNumber]
    simp [number, hc]
  | case3 => cases h

/-- A string is a part of the text, and ends with the quote that it starts with. -/
theorem stringBody_split {quote : Char} {cs said covered rest : List Char}
    (h : stringBody quote cs = some (said, covered, rest)) :
    cs = covered ++ rest ∧ ∃ inner, covered = inner ++ [quote] := by
  fun_induction stringBody quote cs generalizing said covered rest with
  | case1 | case3 => cases h
  | case2 c hquote | case5 c d cs hquote =>
    cases h
    exact ⟨rfl, [], by rw [beq_iff_eq.1 hquote]; rfl⟩
  | case4 c d cs hc hd ih | case6 c d cs hc hd ih =>
    obtain ⟨_, hrest, heq⟩ := Option.map_eq_some_iff.1 h
    cases heq
    obtain ⟨hsplit, inner, hinner⟩ := ih hrest
    exact ⟨by rw [hsplit]; rfl, c :: d :: inner, by rw [hinner]; rfl⟩
  | case7 c d cs hc hd ih =>
    obtain ⟨_, hrest, heq⟩ := Option.map_eq_some_iff.1 h
    cases heq
    obtain ⟨hsplit, inner, hinner⟩ := ih hrest
    exact ⟨by rw [hsplit]; rfl, c :: inner, by rw [hinner]; rfl⟩

end Lexer

/-- A symbol stands at the front, and is not empty. -/
theorem Lexer.symbolAt_split {cs covered : List Char} (h : symbolAt cs = some covered) :
    covered ++ cs.drop covered.length = cs ∧ covered ≠ [] := by
  have hprefix : covered <+: cs := isPrefixOf_iff_prefix.1 (by simpa using find?_some h)
  have hmem : covered ∈ symbols.map String.toList := mem_of_find?_eq_some h
  refine ⟨?_, ?_⟩
  · obtain ⟨left, rfl⟩ := hprefix
    rw [drop_left]
  · have hall : ∀ symbol ∈ symbols.map String.toList, symbol ≠ [] := by decide
    exact hall covered hmem

/-- Whether what stands at the front covers a part of the text and leaves the rest. -/
def Lexed.Splits (cs : List Char) : Lexed → Prop
  | .gap covered rest => covered ++ rest = cs ∧ covered ≠ []
  | .token _ _ covered rest => covered ++ rest = cs ∧ covered ≠ []
  | .fault _ covered => covered <+: cs

open Lexer in
theorem Lexed.front_splits (c : Char) (rest : List Char) :
    (Lexed.front c rest).Splits (c :: rest) := by
  unfold Lexed.front
  split
  case isTrue => exact ⟨rfl, by simp⟩
  split
  case isTrue hline =>
    refine ⟨takeWhile_append_dropWhile, ?_⟩
    have hc : c ≠ '\n' := by
      rintro rfl
      simp [startsLineComment] at hline
    simp [hc]
  split
  case isTrue hblock =>
    split
    case h_1 body left hbody =>
      obtain ⟨tail, htail⟩ := isPrefixOf_iff_prefix.1 hblock
      cases htail
      have hbody : blockComment tail = some (body, left) := hbody
      exact ⟨by rw [blockComment_split hbody]; rfl, by simp⟩
    case h_2 => exact prefix_rfl
  split
  case isTrue =>
    split
    case h_1 said covered left hbody =>
      exact ⟨by rw [(stringBody_split hbody).1]; rfl, by simp⟩
    case h_2 => exact prefix_rfl
  split
  case isTrue =>
    split
    case h_1 quote left hdrop =>
      rw [head_dropWhile_ne rest quote (by rw [hdrop]; rfl)] at hdrop
      refine ⟨?_, by simp⟩
      rw [append_assoc, singleton_append, cons_append, ← hdrop,
        takeWhile_append_dropWhile]
    case h_2 => exact prefix_rfl
  split
  case isTrue hnumber =>
    exact ⟨number_split (c :: rest), number_ne_nil hnumber⟩
  split
  case isTrue => exact ⟨rfl, by simp⟩
  split
  case isTrue => exact ⟨by simp [takeWhile_append_dropWhile], by simp⟩
  split
  case h_1 covered hsymbol => exact symbolAt_split hsymbol
  case h_2 => exact ⟨rest, rfl⟩

/-! ### Scanning without fuel -/

namespace Token

variable {text : String} {cs : List Char} {tokens : List Token}

/-- The tokens of characters that start at an offset. -/
inductive Scanned : Nat → List Char → List Token → Prop
  | done (offset : Nat) : Scanned offset [] []
  | gap {offset : Nat} {c : Char} {cs covered rest : List Char} {tokens : List Token}
      (front : Lexed.front c cs = .gap covered rest)
      (next : Scanned (offset + Text.byteSize covered) rest tokens) :
      Scanned offset (c :: cs) tokens
  | token {offset : Nat} {c : Char} {cs : List Char} {kind : TokenKind}
      {said covered rest : List Char} {tokens : List Token}
      (front : Lexed.front c cs = .token kind said covered rest)
      (next : Scanned (offset + Text.byteSize covered) rest tokens) :
      Scanned offset (c :: cs)
        (⟨kind, String.ofList said, offset, offset + Text.byteSize covered⟩ :: tokens)

theorem length_le_of_splits {c : Char} {covered rest : List Char}
    (h : covered ++ rest = c :: cs ∧ covered ≠ []) : rest.length ≤ cs.length := by
  have hlength := congrArg List.length h.1
  have hpos := length_pos_iff.2 h.2
  simp only [length_append, length_cons] at hlength
  omega

theorem scanned_of_scanFrom {fuel offset : Nat} (hfuel : cs.length ≤ fuel)
    (h : scanFrom text fuel offset cs = .ok tokens) : Scanned offset cs tokens := by
  fun_induction scanFrom text fuel offset cs generalizing tokens with
  | case1 => cases h; exact .done _
  | case2 offset cs hne =>
    cases cs with
    | nil => exact absurd rfl hne
    | cons c cs => simp at hfuel
  | case3 offset fuel c cs covered rest hfront ih =>
    have hsplit := hfront ▸ Lexed.front_splits c cs
    have hlength := length_le_of_splits hsplit
    exact .gap hfront (ih (by simp at hfuel; omega) h)
  | case4 fuel offset c cs kind said covered rest hfront =>
    rename_i stop ih
    have hsplit := hfront ▸ Lexed.front_splits c cs
    have hlength := length_le_of_splits hsplit
    cases hscan : scanFrom text fuel (offset + Text.byteSize covered) rest with
    | error e => rw [hscan] at h; cases h
    | ok tokens' =>
      rw [hscan] at h
      cases h
      exact .token hfront (ih (by simp at hfuel; omega) hscan)
  | case5 => cases h

theorem scanFrom_of_scanned {fuel offset : Nat} (hfuel : cs.length ≤ fuel)
    (h : Scanned offset cs tokens) : scanFrom text fuel offset cs = .ok tokens := by
  induction h generalizing fuel with
  | done => simp [scanFrom]
  | gap front next ih =>
    obtain ⟨fuel, rfl⟩ := Nat.exists_eq_add_one.2 (Nat.zero_lt_of_lt hfuel)
    have hlength := length_le_of_splits (front ▸ Lexed.front_splits _ _)
    rw [scanFrom, front]
    exact ih (by simp at hfuel; omega)
  | token front next ih =>
    obtain ⟨fuel, rfl⟩ := Nat.exists_eq_add_one.2 (Nat.zero_lt_of_lt hfuel)
    have hlength := length_le_of_splits (front ▸ Lexed.front_splits _ _)
    rw [scanFrom, front]
    have hnext := @ih fuel (by simp at hfuel; omega)
    simp only [hnext]
    rfl

theorem scan_eq_ok_iff : scan text = .ok tokens ↔ Scanned 0 text.toList tokens :=
  ⟨scanned_of_scanFrom (Nat.le_refl _), scanFrom_of_scanned (Nat.le_refl _)⟩

/-! ### Tokens in order -/

/-- Tokens that stand one after the other between two offsets. -/
structure InOrder (first last : Nat) (tokens : List Token) : Prop where
  ordered : tokens.Pairwise fun t u => t.stop ≤ u.start
  within : ∀ t ∈ tokens, first ≤ t.start ∧ t.start < t.stop ∧ t.stop ≤ last

theorem byteSize_pos (h : cs ≠ []) : 0 < Text.byteSize cs := by
  cases cs with
  | nil => exact absurd rfl h
  | cons c cs =>
    have := Char.utf8Size_pos c
    rw [Text.byteSize_cons]
    omega

theorem Scanned.inOrder {offset : Nat} (h : Scanned offset cs tokens) :
    InOrder offset (offset + Text.byteSize cs) tokens := by
  induction h with
  | done => exact ⟨.nil, nofun⟩
  | @gap offset c cs covered rest tokens front next ih =>
    have hsplit := front ▸ Lexed.front_splits c cs
    rw [← hsplit.1, Text.byteSize_append, ← Nat.add_assoc]
    refine ⟨ih.ordered, fun t ht => ?_⟩
    obtain ⟨hfirst, hrest⟩ := ih.within t ht
    exact ⟨by omega, hrest⟩
  | @token offset c cs kind said covered rest tokens front next ih =>
    have hsplit := front ▸ Lexed.front_splits c cs
    have hpos := byteSize_pos hsplit.2
    rw [← hsplit.1, Text.byteSize_append, ← Nat.add_assoc]
    refine ⟨pairwise_cons.2 ⟨fun t ht => (ih.within t ht).1, ih.ordered⟩, fun t ht => ?_⟩
    rcases mem_cons.1 ht with rfl | ht
    · exact ⟨Nat.le_refl _, Nat.lt_add_of_pos_right hpos, Nat.le_add_right _ _⟩
    · obtain ⟨hfirst, hrest⟩ := ih.within t ht
      exact ⟨by omega, hrest⟩

end Token

theorem Cursor.ofText_eq_ok_iff {text : String} {c : Cursor} : Cursor.ofText text = .ok c ↔
    ∃ tokens, Token.scan text = .ok tokens ∧ ⟨text, tokens.toArray, 0, 0, 0⟩ = c := by
  unfold Cursor.ofText
  cases Token.scan text <;> simp [bind, Except.bind, pure, Except.pure]

/-- At the start of a text all is in order. -/
theorem Cursor.sound_ofText {text : String} {c : Cursor} (h : Cursor.ofText text = .ok c) :
    c.Sound := by
  obtain ⟨tokens, hscan, rfl⟩ := ofText_eq_ok_iff.1 h
  have horder := (Token.scan_eq_ok_iff.1 hscan).inOrder
  rw [Nat.zero_add] at horder
  exact ⟨horder.ordered, fun t ht => (horder.within t ht).2, Nat.zero_le _⟩

/-- A statement, as it is read from its tokens. -/
theorem Statement.parse_of_scan {text : String} {tokens : List Token}
    (h : Token.scan text = .ok tokens) :
    parse text =
      if Cursor.atEnd ⟨text, tokens.toArray, 0, 0, 0⟩ then
        .error (.within text .emptyStatement 0 (Text.size text))
      else
        match Grammar.wholeStatement.run ⟨text, tokens.toArray, 0, 0, 0⟩ with
        | .ok kind c => .ok { text, kind, placeholders := c.placeholders, nodes := c.nodes }
        | .error e _ => .error e := by
  rw [parse, Cursor.ofText, h]
  rfl

end SqlSignature

import SqlSignature.Proofs.Lexing
/-!
# SqlSignature.Proofs.TokenCoverage

Nothing of a text is lost when it is scanned. The tokens stand in the text in order, each with its
characters, and what stands before, between and after them are blanks and comments:
`Token.scan_covers`. Offsets count bytes while the scanner goes over characters, so a text is first
laid out into gaps and tokens (`Token.LaidOut`), and the slices between offsets are read off the
layout.
-/

open List

namespace SqlSignature

open Text

/-! ### Gaps -/

namespace Lexer

/-- Characters that are passed over, before the characters `rest`. -/
inductive Ignorable : (piece rest : List Char) → Prop
  | blank {c : Char} {rest : List Char} (isBlank : Text.isBlank c = true) : Ignorable [c] rest
  /-- A comment that ends with its line, hence at a newline or at the end of the text. -/
  | line {comment rest : List Char} (opened : ['-', '-'] <+: comment ∨ ['#'] <+: comment)
      (oneLine : '\n' ∉ comment) (ended : ∀ c ∈ rest.head?, c = '\n') : Ignorable comment rest
  /-- A comment that ends where it is first closed. -/
  | block {body rest : List Char} (closed : ¬ ['*', '/'] <:+: body ++ ['*']) :
      Ignorable (['/', '*'] ++ body ++ ['*', '/']) rest

/-- Characters that are blanks and comments one after the other, before the characters `rest`. -/
inductive Ignored : (gap rest : List Char) → Prop
  | nil (rest : List Char) : Ignored [] rest
  | cons {piece gap rest : List Char} (first : Ignorable piece (gap ++ rest))
      (others : Ignored gap rest) : Ignored (piece ++ gap) rest

/-- A block comment is closed where it can first be closed. -/
theorem blockComment_first {cs body rest : List Char} (h : blockComment cs = some (body, rest)) :
    ∃ inner, body = inner ++ ['*', '/'] ∧ ¬ ['*', '/'] <:+: inner ++ ['*'] := by
  fun_induction blockComment cs generalizing body rest with
  | case1 rest' =>
    cases h
    exact ⟨[], rfl, by decide⟩
  | case2 c cs hopen ih =>
    obtain ⟨⟨body', rest'⟩, hrest, heq⟩ := Option.map_eq_some_iff.1 h
    cases heq
    obtain ⟨inner, rfl, hfirst⟩ := ih hrest
    refine ⟨c :: inner, rfl, fun hinfix => ?_⟩
    rcases infix_cons_iff.1 hinfix with hprefix | hinfix
    · -- the comment would have been closed right here
      obtain ⟨rfl, hslash⟩ := cons_prefix_cons.1 hprefix
      have hsplit := blockComment_split hrest
      rcases inner with _ | ⟨d, inner⟩
      · cases (cons_prefix_cons.1 hslash).1
      · obtain ⟨rfl, -⟩ := cons_prefix_cons.1 hslash
        exact hopen _ rfl hsplit
    · exact hfirst hinfix
  | case3 => cases h

/-- What stands behind a block comment does not matter to it. -/
theorem blockComment_append {cs body rest : List Char} (h : blockComment cs = some (body, rest))
    (tail : List Char) : blockComment (body ++ tail) = some (body, tail) := by
  fun_induction blockComment cs generalizing body with
  | case1 cs => cases h; rfl
  | case2 c cs hopen ih =>
    obtain ⟨⟨body', rest'⟩, hrest, heq⟩ := Option.map_eq_some_iff.1 h
    cases heq
    rw [cons_append, blockComment, ih hrest]
    · rfl
    · -- the comment goes on with the same character
      intro more hc heq
      obtain ⟨inner, hclosed, -⟩ := blockComment_first hrest
      obtain ⟨d, body, rfl⟩ := exists_cons_of_ne_nil (l := body') (by simp [hclosed])
      have hsplit := blockComment_split hrest
      cases heq
      exact hopen _ hc hsplit
  | case3 => cases h

/-- A run of characters ends where a character ends it. -/
theorem takeWhile_append_stop {p : Char → Bool} {front tail : List Char}
    (hfront : ∀ c ∈ front, p c = true) (hstop : ∀ c ∈ tail.head?, p c = false) :
    (front ++ tail).takeWhile p = front ∧ (front ++ tail).dropWhile p = tail := by
  have htail : tail.takeWhile p = [] ∧ tail.dropWhile p = tail := by
    cases tail with
    | nil => exact ⟨rfl, rfl⟩
    | cons c tail => simp [hstop c rfl]
  rw [takeWhile_append_of_pos hfront, dropWhile_append_of_pos hfront, htail.1, htail.2,
    append_nil]
  exact ⟨rfl, rfl⟩

/-- What opens a comment is a part of its line. -/
theorem opened_of_startsLineComment {cs : List Char} (h : startsLineComment cs = true) :
    ['-', '-'] <+: cs.takeWhile (· != '\n') ∨ ['#'] <+: cs.takeWhile (· != '\n') := by
  fun_cases startsLineComment cs with
  | case1 rest => exact .inl ⟨rest.takeWhile (· != '\n'), by simp⟩
  | case2 rest => exact .inr ⟨rest.takeWhile (· != '\n'), by simp⟩
  | case3 cs hdashes hhash => simp [startsLineComment] at h

end Lexer

/-! ### Tokens -/

/-- How a token of a kind that says something is written. A string has its quotes around it, and
escapes that it does not say. -/
def TokenKind.Writes (kind : TokenKind) (said written : List Char) : Prop :=
  match kind with
  | .word | .number | .symbol | .placeholder => written = said
  | .quotedName => written = Lexer.backQuote :: said ++ [Lexer.backQuote]
  | .string => ∃ quote ∈ ['\'', '"'], ∃ inner, written = quote :: inner ++ [quote]

/-- Whether what stands at the front of a text may be passed over, or is written as it says. -/
def Lexed.Faithful : Lexed → Prop
  | .gap covered rest => Lexer.Ignorable covered rest
  | .token kind said covered _ => kind.Writes said covered
  | .fault _ _ => True

open Lexer in
theorem Lexed.front_faithful (c : Char) (rest : List Char) : (Lexed.front c rest).Faithful := by
  fun_cases Lexed.front c rest with
  | case1 hblank => exact .blank hblank
  | case2 _ hline =>
    refine .line (opened_of_startsLineComment hline) (fun hmem => ?_) (head_dropWhile_ne _)
    have hall := all_takeWhile (p := (· != '\n')) (l := c :: rest)
    simpa using all_eq_true.1 hall _ hmem
  | case3 _ _ _ body left hbody =>
    obtain ⟨inner, rfl, hfirst⟩ := blockComment_first hbody
    exact .block hfirst
  | case5 _ _ _ hquote said covered left hbody =>
    obtain ⟨-, inner, rfl⟩ := stringBody_split hbody
    refine ⟨c, ?_, inner, rfl⟩
    simpa using hquote
  | case7 _ _ _ _ hquote quote left hdrop =>
    show c :: _ ++ [backQuote] = _
    rw [beq_iff_eq.1 hquote]
  | case9 | case10 | case11 | case12 => exact rfl
  | case4 | case6 | case8 | case13 => exact trivial

/-! ### Layout -/

namespace Token

open Lexer

/-- Characters from an offset on, laid out into tokens and the gaps around them. -/
inductive LaidOut : Nat → List Char → List Token → Prop
  | last {offset : Nat} {gap : List Char} (ignored : Ignored gap []) : LaidOut offset gap []
  | token {offset : Nat} {gap written rest : List Char} {t : Token} {tokens : List Token}
      (ignored : Ignored gap (written ++ rest))
      (start : t.start = offset + Text.byteSize gap)
      (stop : t.stop = t.start + Text.byteSize written)
      (nonempty : written ≠ []) (writes : t.kind.Writes t.text.toList written)
      (next : LaidOut t.stop rest tokens) : LaidOut offset (gap ++ (written ++ rest)) (t :: tokens)

/-- A blank or a comment more. -/
theorem LaidOut.ignore {offset : Nat} {piece cs : List Char} {tokens : List Token}
    (hpiece : Ignorable piece cs) (h : LaidOut (offset + Text.byteSize piece) cs tokens) :
    LaidOut offset (piece ++ cs) tokens := by
  cases h with
  | last ignored => exact .last (.cons (by rwa [append_nil]) ignored)
  | token ignored start stop nonempty writes next =>
    rw [← append_assoc]
    refine .token (.cons hpiece ignored) ?_ stop nonempty writes next
    rw [start, byteSize_append, Nat.add_assoc]

theorem Scanned.laidOut {offset : Nat} {cs : List Char} {tokens : List Token}
    (h : Scanned offset cs tokens) : LaidOut offset cs tokens := by
  induction h with
  | done => exact .last (.nil [])
  | @gap offset c cs covered rest tokens front next ih =>
    have hpiece := front ▸ Lexed.front_faithful c cs
    have hsplit := front ▸ Lexed.front_splits c cs
    rw [← hsplit.1]
    exact ih.ignore hpiece
  | @token offset c cs kind said covered rest tokens front next ih =>
    have hwrites := front ▸ Lexed.front_faithful c cs
    have hsplit := front ▸ Lexed.front_splits c cs
    rw [← hsplit.1]
    refine @LaidOut.token _ [] _ _ _ _ (.nil _) rfl rfl hsplit.2 ?_ ih
    rw [String.toList_ofList]
    exact hwrites

/-! ### Slices -/

end Token

namespace Text

theorem slice?_of_append {text : String} {before inner after : List Char}
    (h : text.toList = before ++ (inner ++ after)) :
    slice? text (byteSize before) (byteSize before + byteSize inner) =
      some (String.ofList inner) := by
  simp only [slice?, h, cut_append, Nat.le_add_right, if_true, Nat.add_sub_cancel_left,
    Option.bind_eq_bind, Option.bind_some, Option.pure_def]

end Text

namespace Token

open Lexer

/-- Where the stretches of a text without tokens start and stop: before the first token, between one
token and the next, and after the last. -/
def gapsBetween (tokens : List Token) (size : Nat) : List (Nat × Nat) :=
  (0 :: tokens.map stop).zip (tokens.map start ++ [size])

/-- Whether the stretch of a text between two offsets is made of blanks and comments. -/
def GapAt (text : String) (gap : Nat × Nat) : Prop :=
  ∃ covered before rest, Text.slice? text gap.1 gap.2 = some (String.ofList covered) ∧
    Text.cut gap.2 text.toList = some (before, rest) ∧ Ignored covered rest

theorem gapAt_of_append {text : String} {before gap rest : List Char}
    (h : text.toList = before ++ (gap ++ rest)) (hgap : Ignored gap rest) :
    GapAt text (Text.byteSize before, Text.byteSize before + Text.byteSize gap) := by
  refine ⟨gap, before ++ gap, rest, slice?_of_append h, ?_, hgap⟩
  rw [h, ← append_assoc, ← byteSize_append]
  exact cut_append _ _

/-- Whether a token stands in a text between its two offsets, as it is written. -/
def StandsIn (t : Token) (text : String) : Prop :=
  t.start < t.stop ∧ t.stop ≤ Text.size text ∧
    ∃ written, Text.slice? text t.start t.stop = some (String.ofList written) ∧
      t.kind.Writes t.text.toList written

section

variable {text : String} {before cs : List Char} {ts : List Token}
  (h : LaidOut (Text.byteSize before) cs ts) (htext : text.toList = before ++ cs)

include h htext

theorem LaidOut.tokens : ∀ t ∈ ts, t.StandsIn text := by
  generalize hoffset : Text.byteSize before = offset at h
  induction h generalizing before with
  | last => exact nofun
  | @token offset gap written rest t tokens ignored start stop nonempty writes next ih =>
    subst hoffset
    rw [← byteSize_append] at start
    rw [← append_assoc] at htext
    have hpos := byteSize_pos nonempty
    have hsize : Text.size text = t.stop + Text.byteSize rest := by
      rw [Text.size, htext, byteSize_append, ← start, byteSize_append, stop, Nat.add_assoc]
    refine forall_mem_cons.2 ⟨⟨by omega, by omega, written, ?_, writes⟩,
      @ih (before ++ gap ++ written) ?_ ?_⟩
    · rw [stop, start]
      exact slice?_of_append htext
    · rw [htext, ← append_assoc]
    · rw [byteSize_append, stop, start]

theorem LaidOut.gaps : ∀ gap ∈ (Text.byteSize before :: ts.map Token.stop).zip
      (ts.map Token.start ++ [Text.size text]), GapAt text gap := by
  generalize hoffset : Text.byteSize before = offset at h ⊢
  induction h generalizing before with
  | @last offset gap ignored =>
    subst hoffset
    have hsize : Text.size text = Text.byteSize before + Text.byteSize gap := by
      rw [Text.size, htext, byteSize_append]
    rw [hsize]
    refine forall_mem_singleton.2 (@gapAt_of_append _ _ _ [] ?_ ignored)
    rw [htext, append_nil]
  | @token offset gap written rest t tokens ignored start stop nonempty writes next ih =>
    subst hoffset
    refine forall_mem_cons.2 ⟨?_, @ih (before ++ gap ++ written) ?_ ?_⟩
    · rw [start]
      exact gapAt_of_append htext ignored
    · rw [htext]
      simp only [append_assoc]
    · rw [byteSize_append, byteSize_append, stop, start]

end

/-- Scanning loses nothing of a text: each token stands in it as it is written, and after the token
before it, and all that is left between the tokens are blanks and comments. -/
theorem scan_covers {text : String} {tokens : List Token} (h : scan text = .ok tokens) :
    (∀ t ∈ tokens, t.StandsIn text) ∧ tokens.Pairwise (fun t u => t.stop ≤ u.start) ∧
      ∀ gap ∈ gapsBetween tokens (Text.size text), GapAt text gap := by
  have hscanned := scan_eq_ok_iff.1 h
  have hlaid : LaidOut (Text.byteSize []) text.toList tokens := hscanned.laidOut
  exact ⟨hlaid.tokens rfl, hscanned.inOrder.ordered, hlaid.gaps rfl⟩

/-- A comment and a character of two bytes before a quoted name. -/
theorem scan_covers_commented :
    let text := "é/* `x` */ `a b` -- ?"
    scan text = .ok [⟨.word, "é", 0, 2⟩, ⟨.quotedName, "a b", 12, 17⟩] ∧
      ∀ gap ∈ [(0, 0), (2, 12), (17, 22)], GapAt text gap := by
  intro text
  have hscan : scan text = .ok [⟨.word, "é", 0, 2⟩, ⟨.quotedName, "a b", 12, 17⟩] :=
    eq_ok_of_toOption (by decide +kernel)
  have hgaps := (scan_covers hscan).2.2
  rw [show Text.size text = 22 by decide +kernel] at hgaps
  exact ⟨hscan, hgaps⟩

end Token

end SqlSignature

import SqlSignature.Proofs.NodesBuilt
import SqlSignature.Proofs.RepeatedBinding
/-!
# SqlSignature.Proofs.BoundOffsets

Binding and scanning each have rules of their own for quoted text and comments. Where the rules
agree, the question marks that binding writes are the placeholders that scanning finds:
`BoundText.marks_eq_placeholderStarts`. They disagree on two kinds of lexemes only, `Lexed.agrees`:
binding knows no comment that starts with `#`, and no string that escapes a newline. The bound text
falls into the stretches of the text, so the lexemes of the bound text are compared with its own
stretches.
-/

open List

namespace SqlSignature

namespace BoundText

variable {c : Char} {cs rest : List Char}

/-! ### Offsets of the bound values -/

/-- Where the question marks of the bound values start in the bound text, for stretches whose bound
text starts at an offset. -/
def Stretch.marks : Nat → List Stretch → List Nat
  | _, [] => []
  | offset, stretch :: rest =>
    let later := marks (offset + Text.byteSize stretch.bound) rest
    if stretch.parameter?.isSome then offset :: later else later

/-- Where the question marks of the bound values of a text start in its bound text. -/
def marks (text : String) : List Nat := Stretch.marks 0 (stretches text.toList.length text.toList)

/-- There is one mark for each parameter. -/
theorem Stretch.length_marks (offset : Nat) (parts : List Stretch) :
    (Stretch.marks offset parts).length = (parts.filterMap Stretch.parameter?).length := by
  induction parts generalizing offset with
  | nil => rfl
  | cons stretch parts ih =>
    cases hparameter : stretch.parameter? <;> simp [Stretch.marks, hparameter, ih]

theorem length_marks (text : String) : (marks text).length = (ofText text).parameters.length :=
  Stretch.length_marks _ _
/-- Where the marks stand does not depend on the names. -/
theorem Stretch.marks_unnamed (offset : Nat) (parts : List Stretch) :
    Stretch.marks offset (parts.map Stretch.unnamed) = Stretch.marks offset parts := by
  induction parts generalizing offset with
  | nil => rfl
  | cons stretch parts ih =>
    rw [map_cons, Stretch.marks, Stretch.marks, ih, Stretch.bound_unnamed]
    cases stretch <;> rfl

/-- The marks of a text whose bound text starts at an offset. -/
def marksFrom (offset : Nat) (cs : List Char) : List Nat := Stretch.marks offset (parts cs)

/-! ### What binding keeps -/

/-- Whether binding keeps a text as it is up to what is left of it. -/
def Keeps (cs covered left : List Char) : Prop :=
  ∃ pieces : List (List Char), parts cs = pieces.map .kept ++ parts left ∧ pieces.flatten = covered

section

variable {text left covered front back : List Char}

theorem Keeps.refl (cs : List Char) : Keeps cs [] cs := ⟨[], rfl, rfl⟩

theorem Keeps.trans (h : Keeps cs front rest) (hnext : Keeps rest back left) :
    Keeps cs (front ++ back) left := by
  obtain ⟨pieces, hparts, rfl⟩ := h
  obtain ⟨others, hothers, rfl⟩ := hnext
  exact ⟨pieces ++ others, by rw [hparts, hothers]; simp, by simp⟩

theorem keeps_front (h : Stretch.front c rest = (.kept text, left)) : Keeps (c :: rest) text left :=
  ⟨[text], by rw [parts_cons, h]; rfl, by simp⟩

theorem keeps_protected (h : protected? c rest = some (text, left)) : Keeps (c :: rest) text left :=
  keeps_front (by rw [Stretch.front, h])

/-- What is kept shifts the marks behind it. -/
theorem Keeps.marksFrom_eq (h : Keeps cs covered left) (offset : Nat) :
    marksFrom offset cs = marksFrom (offset + Text.byteSize covered) left := by
  obtain ⟨pieces, hparts, rfl⟩ := h
  rw [marksFrom, hparts, marksFrom]
  clear hparts
  induction pieces generalizing offset with
  | nil => rfl
  | cons piece pieces ih =>
    rw [flatten_cons, Text.byteSize_append, ← Nat.add_assoc, ← ih]
    rfl

end

/-- Whether a character is neither a bound value nor the start of quoted text or a comment. -/
def isPlain (c : Char) (rest : List Char) : Bool :=
  c != '?' && c != ':' && c != '\'' && c != '"' && c != Lexer.backQuote &&
    !(['-', '-'].isPrefixOf (c :: rest)) && !(['/', '*'].isPrefixOf (c :: rest))

theorem keeps_plain (hplain : isPlain c rest = true) : Keeps (c :: rest) [c] rest := by
  simp only [isPlain, Bool.and_eq_true, bne_iff_ne, Bool.not_eq_true'] at hplain
  obtain ⟨⟨⟨⟨⟨⟨hmark, hcolon⟩, hsingle⟩, hdouble⟩, hback⟩, hline⟩, hblock⟩ := hplain
  refine keeps_front ?_
  simp [Stretch.front, protected?, hmark, hcolon, hsingle, hdouble, hback, hline, hblock]

/-- Whether all the characters at the front of a text are plain. -/
def allPlain : (covered rest : List Char) → Bool
  | [], _ => true
  | c :: covered, rest => isPlain c (covered ++ rest) && allPlain covered rest

theorem keeps_allPlain {covered : List Char} (hplain : allPlain covered rest = true) :
    Keeps (covered ++ rest) covered rest := by
  induction covered with
  | nil => exact .refl rest
  | cons c covered ih =>
    simp only [allPlain, Bool.and_eq_true] at hplain
    exact (keeps_plain hplain.1).trans (ih hplain.2)

end BoundText

/-! ### Strings -/

namespace Lexer

/-- Whether a backslash in a string stands before a newline, as an escape. -/
def escapesNewline : List Char → Bool
  | '\\' :: d :: rest => d == '\n' || escapesNewline rest
  | _ :: rest => escapesNewline rest
  | [] => false

theorem escapesNewline_cons {c : Char} (hc : c ≠ '\\') (rest : List Char) :
    escapesNewline (c :: rest) = escapesNewline rest := by
  conv_lhs => unfold escapesNewline
  split
  case h_1 heq => exact absurd (List.cons.inj heq).1 hc
  case h_2 heq => cases heq; rfl
  case h_3 heq => cases heq

theorem stringBody_plain {quote c : Char} (hquote : c ≠ quote) (hescape : c ≠ '\\')
    (rest : List Char) :
    stringBody quote (c :: rest) = (stringBody quote rest).map fun (said, covered, left) =>
      (c :: said, c :: covered, left) := by
  cases rest <;> simp [stringBody, hquote, hescape]

end Lexer

namespace BoundText

open Lexer

variable {quote : Char} {cs bs said covered left : List Char}

/-- A string that escapes no newline covers a quoted text and, where another quote follows, the
string behind that. -/
theorem exists_quotedBody (hslash : quote ≠ '\\')
    (h : stringBody quote cs = some (said, covered, left))
    (hescapes : escapesNewline covered = false) :
    ∃ body rest, quotedBody quote cs = some (body, rest) ∧
      ((covered = body ∧ left = rest) ∨ ∃ rest' said' covered', rest = quote :: rest' ∧
        covered = body ++ quote :: covered' ∧
        stringBody quote rest' = some (said', covered', left) ∧
        escapesNewline covered' = false) := by
  fun_induction stringBody quote cs generalizing said covered left with
  | case1 => cases h
  | case2 c hc =>
    cases h
    exact ⟨[c], [], by simp [quotedBody, hc], .inl ⟨rfl, rfl⟩⟩
  | case3 => cases h
  | case4 c d cs hc hd ih =>
    obtain ⟨⟨said', covered', left'⟩, hrest, heq⟩ := Option.map_eq_some_iff.1 h
    cases heq
    obtain rfl : c = quote := beq_iff_eq.1 hc
    obtain rfl : d = c := beq_iff_eq.1 hd
    rw [escapesNewline_cons hslash, escapesNewline_cons hslash] at hescapes
    exact ⟨[d], d :: cs, quotedBody_quote d _,
      .inr ⟨cs, said', covered', rfl, rfl, hrest, hescapes⟩⟩
  | case5 c d cs hc hd =>
    cases h
    exact ⟨[c], d :: cs, by simp [quotedBody, hc], .inl ⟨rfl, rfl⟩⟩
  | case6 c d cs hc hescape ih =>
    obtain ⟨⟨said', covered', left'⟩, hrest, heq⟩ := Option.map_eq_some_iff.1 h
    cases heq
    obtain rfl : c = '\\' := beq_iff_eq.1 hescape
    simp only [escapesNewline, Bool.or_eq_false_iff, beq_eq_false_iff_ne] at hescapes
    obtain ⟨body, rest, hbody, hcovered⟩ := ih hrest hescapes.2
    refine ⟨'\\' :: d :: body, rest, by rw [quotedBody_escape hslash hescapes.1, hbody]; rfl, ?_⟩
    rcases hcovered with ⟨rfl, hleft⟩ | ⟨rest', said', covered', hnext, rfl, hthen⟩
    · exact .inl ⟨rfl, hleft⟩
    · exact .inr ⟨rest', said', covered', hnext, rfl, hthen⟩
  | case7 c d cs hc hescape ih =>
    obtain ⟨⟨said', covered', left'⟩, hrest, heq⟩ := Option.map_eq_some_iff.1 h
    cases heq
    have hescape : c ≠ '\\' := by simpa using hescape
    rw [escapesNewline_cons hescape] at hescapes
    obtain ⟨body, rest, hbody, hcovered⟩ := ih hrest hescapes
    refine ⟨c :: body, rest, by rw [quotedBody_plain (by simpa using hc) hescape, hbody]; rfl, ?_⟩
    rcases hcovered with ⟨rfl, hleft⟩ | ⟨rest', said', covered', hnext, rfl, hthen⟩
    · exact .inl ⟨rfl, hleft⟩
    · exact .inr ⟨rest', said', covered', hnext, rfl, hthen⟩

/-- A string that escapes no newline is one quoted text or several, each behind the other. -/
theorem keeps_string (hsingle : quote = '\'' ∨ quote = '"')
    (h : stringBody quote cs = some (said, covered, left))
    (hescapes : escapesNewline covered = false) : Keeps (quote :: cs) (quote :: covered) left := by
  have hslash : quote ≠ '\\' := by rcases hsingle with rfl | rfl <;> decide
  induction hn : cs.length using Nat.strongRecOn generalizing cs said covered with
  | ind n ih =>
    obtain ⟨body, rest, hbody, hcovered⟩ := exists_quotedBody hslash h hescapes
    have hkept : Keeps (quote :: cs) (quote :: body) rest :=
      keeps_protected (by rw [protected?, if_pos (by simpa using hsingle), hbody]; rfl)
    rcases hcovered with ⟨rfl, rfl⟩ | ⟨rest', said', covered', rfl, rfl, hnext, hescapes'⟩
    · exact hkept
    · -- the next quoted text starts where this one ends
      have hlength : rest'.length < n := by
        rw [← hn, quotedBody_split hbody]
        simp
        omega
      exact hkept.trans (ih _ hlength hnext hescapes' rfl)

/-! ### Plain tokens -/

/-- Whether a character is plain wherever it stands. -/
def isPlainAnywhere (c : Char) : Bool :=
  c != '?' && c != ':' && c != '\'' && c != '"' && c != backQuote && c != '-' && c != '/'

theorem isPlain_of_anywhere {c : Char} (h : isPlainAnywhere c = true) (rest : List Char) :
    isPlain c rest = true := by
  simp only [isPlainAnywhere, Bool.and_eq_true, bne_iff_ne] at h
  simp [isPlain, List.isPrefixOf, h, h.1.2.symm, h.2.symm]

theorem allPlain_of_all {covered : List Char} (h : ∀ c ∈ covered, isPlainAnywhere c = true)
    (rest : List Char) : allPlain covered rest = true := by
  induction covered with
  | nil => rfl
  | cons c covered ih =>
    rw [allPlain, isPlain_of_anywhere (h c mem_cons_self), Bool.true_and]
    exact ih fun d hd => h d (mem_cons_of_mem _ hd)

theorem allPlain_append (front back rest : List Char) :
    allPlain (front ++ back) rest = (allPlain front (back ++ rest) && allPlain back rest) := by
  induction front with
  | nil => rfl
  | cons c front ih =>
    rw [cons_append, allPlain, allPlain, ih, append_assoc, Bool.and_assoc]
theorem isPlainAnywhere_of {p : Char → Bool} {c : Char} (hc : p c = true)
    (hp : (p '?' || p ':' || p '\'' || p '"' || p backQuote || p '-' || p '/') = false) :
    isPlainAnywhere c = true := by
  simp only [Bool.or_eq_false_iff] at hp
  simp only [isPlainAnywhere, Bool.and_eq_true, bne_iff_ne]
  refine ⟨⟨⟨⟨⟨⟨?_, ?_⟩, ?_⟩, ?_⟩, ?_⟩, ?_⟩, ?_⟩ <;> rintro rfl <;> simp_all

theorem isPlainAnywhere_of_digit {c : Char} (hc : c.isDigit = true) : isPlainAnywhere c = true :=
  isPlainAnywhere_of hc (by decide)

theorem isPlainAnywhere_of_continuesWord {c : Char} (hc : continuesWord c = true) :
    isPlainAnywhere c = true :=
  isPlainAnywhere_of hc (by decide)

theorem allPlain_digits (cs rest : List Char) : allPlain (cs.takeWhile Char.isDigit) rest = true :=
  allPlain_of_all (fun _ hc => isPlainAnywhere_of_digit (mem_takeWhile_imp hc)) rest

theorem allPlain_fraction (cs rest : List Char) : allPlain (fraction cs).1 rest = true := by
  fun_cases fraction cs with
  | case1 => rfl
  | case2 cs =>
    rw [allPlain, isPlain_of_anywhere (by decide), Bool.true_and]
    exact allPlain_digits cs rest
  | case3 => rfl

theorem allPlain_exponent (cs rest : List Char) : allPlain (exponent cs).1 rest = true := by
  fun_cases exponent cs with
  | case1 e c cs hstart =>
    simp only [Bool.and_eq_true, Bool.or_eq_true, beq_iff_eq] at hstart
    obtain ⟨he, hdigits⟩ := hstart
    have he : isPlainAnywhere e = true := by rcases he with rfl | rfl <;> decide
    have hc : isPlain c (cs.takeWhile Char.isDigit ++ rest) = true := by
      cases cs with
      | nil => exact isPlain_of_anywhere (isPlainAnywhere_of_digit hdigits) _
      | cons d cs =>
        simp only [startsExponentDigits, Bool.or_eq_true, Bool.and_eq_true, beq_iff_eq] at hdigits
        rcases hdigits with hc | ⟨hsign, hd⟩
        · exact isPlain_of_anywhere (isPlainAnywhere_of_digit hc) _
        · -- behind a sign stands a digit, so no comment starts with it
          have hminus : d ≠ '-' := by
            rintro rfl
            exact absurd hd (by decide)
          rcases hsign with rfl | rfl
          · simp [isPlain, List.isPrefixOf, hd, hminus.symm, backQuote]
          · exact isPlain_of_anywhere (by decide) _
    rw [allPlain, isPlain_of_anywhere he, allPlain, hc]
    exact allPlain_digits cs rest
  | case2 => rfl
  | case3 => rfl

theorem allPlain_number (cs rest : List Char) : allPlain (number cs).1 rest = true := by
  rw [number, allPlain_append, allPlain_append, allPlain_digits, allPlain_fraction,
    allPlain_exponent]
  rfl

/-- A symbol is plain where no comment starts. -/
theorem allPlain_symbolAt (hline : ['-', '-'].isPrefixOf bs = false)
    (hblock : ['/', '*'].isPrefixOf bs = false) (h : symbolAt bs = some covered) :
    allPlain covered (bs.drop covered.length) = true := by
  have hsymbols : ((symbols.map String.toList).all fun symbol =>
      symbol == ['-'] || symbol == ['/'] || symbol.all isPlainAnywhere) = true := by
    decide +kernel
  simp only [all_eq_true, Bool.or_eq_true, beq_iff_eq, or_assoc] at hsymbols
  obtain ⟨hsplit, _⟩ := symbolAt_split h
  rcases hsymbols covered (mem_of_find?_eq_some h) with rfl | rfl | hall
  · replace hline : ['-', '-'].isPrefixOf ('-' :: bs.drop 1) = false := hsplit ▸ hline
    rw [allPlain, isPlain, nil_append, length_singleton, hline]
    rfl
  · replace hblock : ['/', '*'].isPrefixOf ('/' :: bs.drop 1) = false := hsplit ▸ hblock
    rw [allPlain, isPlain, nil_append, length_singleton, hblock]
    rfl
  · exact allPlain_of_all hall _

end BoundText

/-! ### Lexemes -/

namespace Lexed

/-- Whether binding takes a lexeme of the bound text as scanning does: no comment that starts with
`#`, and no string that escapes a newline. -/
def agrees : Lexed → Bool
  | .gap covered _ => covered.head? != some '#'
  | .token .string _ covered _ => !Lexer.escapesNewline covered
  | _ => true

/-- The lexemes of a text, gaps included. Each covers at least one character, so as much fuel as
there are characters is enough. -/
def listFrom : Nat → List Char → List Lexed
  | _, [] => []
  | 0, _ => []
  | fuel + 1, c :: cs =>
    let lexed := front c cs
    lexed :: match lexed with
      | .gap _ rest | .token _ _ _ rest => listFrom fuel rest
      | .fault _ _ => []

/-- The lexemes of a text. -/
def ofText (text : String) : List Lexed := listFrom text.toList.length text.toList

end Lexed

namespace BoundText

open Lexer
variable {bs said covered left : List Char} {c : Char}

theorem keeps_gap (hfront : Lexed.front c bs = .gap covered left)
    (hagrees : (Lexed.gap covered left).agrees = true) : Keeps (c :: bs) covered left := by
  unfold Lexed.front at hfront
  split at hfront
  case isTrue hblank =>
    cases hfront
    refine keeps_plain (isPlain_of_anywhere ?_ bs)
    exact isPlainAnywhere_of hblank (by decide)
  split at hfront
  case isTrue hline =>
    cases hfront
    unfold startsLineComment at hline
    split at hline
    case h_1 heq =>
      cases heq
      exact keeps_protected (by simp [protected?, backQuote])
    case h_2 heq =>
      -- binding does not know this kind of comment
      cases heq
      simp [Lexed.agrees] at hagrees
    case h_3 => cases hline
  split at hfront
  case isTrue hblock =>
    split at hfront
    case h_2 => cases hfront
    case h_1 body left' hbody =>
      cases hfront
      obtain ⟨tail, htail⟩ := isPrefixOf_iff_prefix.1 hblock
      cases htail
      replace hbody : blockComment tail = some (body, left) := hbody
      exact keeps_protected (by simp [protected?, backQuote, hbody])
  repeat' split at hfront
  all_goals cases hfront

/-- A token other than a placeholder is kept, and a placeholder is a bound value. -/
theorem keeps_token {kind : TokenKind} (hfront : Lexed.front c bs = .token kind said covered left)
    (hagrees : (Lexed.token kind said covered left).agrees = true) :
    (kind ≠ .placeholder ∧ Keeps (c :: bs) covered left) ∨
      (kind = .placeholder ∧ covered = ['?'] ∧ c :: bs = '?' :: left) := by
  have hsplit : covered ++ left = c :: bs := (hfront ▸ Lexed.front_splits c bs).1
  unfold Lexed.front at hfront
  split at hfront
  case isTrue => cases hfront
  split at hfront
  case isTrue => cases hfront
  case isFalse _ hline =>
  split at hfront
  case isTrue => split at hfront <;> cases hfront
  case isFalse hblock =>
  split at hfront
  case isTrue hquote =>
    split at hfront
    case h_2 => cases hfront
    case h_1 said' covered' left' hbody =>
      cases hfront
      have hsingle : c = '\'' ∨ c = '"' := by simpa using hquote
      have hslash : c ≠ '\\' := by rcases hsingle with rfl | rfl <;> decide
      refine .inl ⟨by decide, keeps_string hsingle hbody ?_⟩
      rw [← escapesNewline_cons hslash]
      simpa [Lexed.agrees] using hagrees
  case isFalse hquote =>
  split at hfront
  case isTrue hback =>
    split at hfront
    case h_2 => cases hfront
    case h_1 quote left' hname =>
      cases hfront
      refine .inl ⟨by decide, keeps_protected ?_⟩
      rw [protected?, if_neg hquote, if_pos hback, hname,
        head_dropWhile_ne bs quote (by rw [hname]; rfl)]
  split at hfront
  case isTrue hnumber =>
    obtain ⟨rfl, _, hcovered, hleft⟩ := Lexed.token.inj hfront
    exact .inl ⟨by decide, hsplit ▸ keeps_allPlain (hcovered ▸ allPlain_number _ _)⟩
  split at hfront
  case isTrue hmark =>
    cases hfront
    obtain rfl : c = '?' := beq_iff_eq.1 hmark
    exact .inr ⟨rfl, rfl, rfl⟩
  split at hfront
  case isTrue hword =>
    cases hfront
    rw [← hsplit]
    refine .inl ⟨by decide, keeps_allPlain (allPlain_of_all (forall_mem_cons.2 ⟨?_, ?_⟩) _)⟩
    · exact isPlainAnywhere_of hword (by decide)
    · exact fun d hd => isPlainAnywhere_of_continuesWord (mem_takeWhile_imp hd)
  split at hfront
  case h_2 => cases hfront
  case h_1 covered' hsymbol =>
    cases hfront
    have hcomment : ['-', '-'].isPrefixOf (c :: bs) = false := by
      rw [Bool.eq_false_iff]
      intro hprefix
      obtain ⟨tail, htail⟩ := isPrefixOf_iff_prefix.1 hprefix
      cases htail
      exact hline rfl
    have hkept := keeps_allPlain (allPlain_symbolAt hcomment (Bool.eq_false_iff.2 hblock) hsymbol)
    rw [hsplit] at hkept
    exact .inl ⟨by decide, hkept⟩

/-! ### Marks and placeholders -/

theorem marksFrom_mark (offset : Nat) (rest : List Char) :
    marksFrom offset ('?' :: rest) = offset :: marksFrom (offset + 1) rest := by
  rw [marksFrom, parts_cons, front_mark]
  rfl

/-- Where binding agrees with scanning, its marks in a text are the placeholders of the text. -/
theorem marksFrom_eq_placeholderStarts {offset fuel : Nat} {tokens : List Token}
    (hscanned : Token.Scanned offset bs tokens) (hfuel : bs.length ≤ fuel)
    (hagree : ∀ lexed ∈ Lexed.listFrom fuel bs, lexed.agrees = true) :
    marksFrom offset bs = Token.placeholderStarts tokens := by
  induction hscanned generalizing fuel with
  | done offset => rfl
  | @gap offset c bs covered rest tokens front next ih =>
    obtain ⟨fuel, rfl⟩ := Nat.exists_eq_add_one.2 (Nat.zero_lt_of_lt hfuel)
    have hlength := Token.length_le_of_splits (front ▸ Lexed.front_splits c bs)
    simp only [Lexed.listFrom, front, forall_mem_cons] at hagree
    rw [(keeps_gap front hagree.1).marksFrom_eq]
    exact ih (by simp at hfuel; omega) hagree.2
  | @token offset c bs kind said covered rest tokens front next ih =>
    obtain ⟨fuel, rfl⟩ := Nat.exists_eq_add_one.2 (Nat.zero_lt_of_lt hfuel)
    have hlength := Token.length_le_of_splits (front ▸ Lexed.front_splits c bs)
    simp only [Lexed.listFrom, front, forall_mem_cons] at hagree
    have hrest := ih (by simp at hfuel; omega) hagree.2
    rcases keeps_token front hagree.1 with ⟨hkind, hkept⟩ | ⟨rfl, rfl, hmark⟩
    · rw [hkept.marksFrom_eq, hrest]
      simp [Token.placeholderStarts, hkind]
    · rw [hmark, marksFrom_mark]
      exact congrArg _ hrest

/-- Where binding and scanning agree on all lexemes, the marks that binding writes are the
placeholders that scanning finds. -/
theorem marks_eq_placeholderStarts {text : String} {tokens : List Token}
    (hscan : Token.scan (ofText text).text = .ok tokens)
    (hagree : ∀ lexed ∈ Lexed.ofText (ofText text).text, lexed.agrees = true) :
    marks text = Token.placeholderStarts tokens := by
  rw [Token.scan_eq_ok_iff, toList_text] at hscan
  rw [Lexed.ofText, toList_text] at hagree
  rw [← marksFrom_eq_placeholderStarts hscan (Nat.le_refl _) hagree, marksFrom, parts_boundChars,
    Stretch.marks_unnamed]
  rfl

end BoundText

end SqlSignature

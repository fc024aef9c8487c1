import Mathlib.Data.List.TakeWhile
import SqlSignature.BoundText
import SqlSignature.Proofs.TokenCoverage
/-!
# SqlSignature.Proofs.RepeatedBinding

A bound text is bound already: to bind it once more changes nothing, and finds as many bound values
as there were, without their names (`BoundText.ofText_text`). A name with its colon becomes one
question mark, which neither opens nor closes quoted text or a comment. So what is left of a text
once its names are replaced (`Replaced`) falls into the same stretches (`parts_boundChars`).
-/

open List Option

namespace SqlSignature

namespace BoundText

variable {c : Char} {cs bs rest : List Char}

/-! ### The stretch at the front -/

theorem quotedBody_quote (quote : Char) (rest : List Char) :
    quotedBody quote (quote :: rest) = some ([quote], rest) := by
  cases rest <;> simp [quotedBody]

variable {quote : Char}

theorem quotedBody_plain (hquote : c ≠ quote) (hescape : c ≠ '\\') (rest : List Char) :
    quotedBody quote (c :: rest) =
      (quotedBody quote rest).map fun (body, left) => (c :: body, left) := by
  cases rest <;> simp [quotedBody, hquote, hescape]

theorem quotedBody_escape {d : Char} (hquote : quote ≠ '\\') (hd : d ≠ '\n') (rest : List Char) :
    quotedBody quote ('\\' :: d :: rest) =
      (quotedBody quote rest).map fun (body, left) => ('\\' :: d :: body, left) := by
  simp [quotedBody, hquote.symm, hd]

theorem quotedBody_split {body : List Char} (h : quotedBody quote cs = some (body, rest)) :
    cs = body ++ rest := by
  fun_induction quotedBody quote cs generalizing body rest with
  | case1 => cases h
  | case2 => cases h; rfl
  | case3 => cases h
  | case4 => cases h; rfl
  | case5 => cases h
  | case6 c d cs hc he hd ih | case7 c d cs hc he ih =>
    obtain ⟨_, hrest, heq⟩ := Option.map_eq_some_iff.1 h
    cases heq
    rw [ih hrest]
    rfl

/-- What stands behind a quoted text does not matter to it. -/
theorem quotedBody_append {body : List Char} (h : quotedBody quote cs = some (body, rest))
    (tail : List Char) : quotedBody quote (body ++ tail) = some (body, tail) := by
  fun_induction quotedBody quote cs generalizing body rest with
  | case1 => cases h
  | case2 c hc | case4 c d cs hc =>
    cases h
    obtain rfl : c = quote := beq_iff_eq.1 hc
    exact quotedBody_quote c tail
  | case3 => cases h
  | case5 => cases h
  | case6 c d cs hc hescape hd ih =>
    obtain ⟨_, hrest, heq⟩ := Option.map_eq_some_iff.1 h
    cases heq
    simp [quotedBody, hc, hescape, hd, ih hrest]
  | case7 c d cs hc hescape ih =>
    obtain ⟨_, hrest, heq⟩ := Option.map_eq_some_iff.1 h
    cases heq
    rw [cons_append, quotedBody_plain (by simpa using hc) (by simpa using hescape), ih hrest]
    rfl

/-- Whether a text is at the end of a line. -/
def EndsLine (cs : List Char) : Prop := ∀ c ∈ cs.head?, c = '\n'

/-- What a quoted text or a comment covers. What stands behind it does not matter to it, but for the
end of its line. -/
theorem protected?_split {text left : List Char} (h : protected? c rest = some (text, left)) :
    ∃ body, text = c :: body ∧ body ++ left = rest ∧ c ≠ '?' ∧
      ∀ tail, (EndsLine left → EndsLine tail) →
        protected? c (body ++ tail) = some (text, tail) := by
  unfold protected? at h
  split at h
  case isTrue hquote =>
    -- a quoted text
    obtain ⟨⟨body, left'⟩, hbody, heq⟩ := Option.map_eq_some_iff.1 h
    cases heq
    refine ⟨body, rfl, (quotedBody_split hbody).symm, ?_, fun tail _ => ?_⟩
    · rintro rfl
      simp at hquote
    · rw [protected?, if_pos hquote, quotedBody_append hbody]
      rfl
  case isFalse hquote =>
  split at h
  case isTrue hback =>
    -- a name in quotes
    split at h
    case h_2 => cases h
    case h_1 q left' hdrop =>
      cases h
      have hq : q = Lexer.backQuote := Lexer.head_dropWhile_ne rest q (by rw [hdrop]; rfl)
      refine ⟨rest.takeWhile (· != Lexer.backQuote) ++ [q], rfl, ?_, ?_, fun tail _ => ?_⟩
      · rw [append_assoc, singleton_append, ← hdrop, takeWhile_append_dropWhile]
      · rintro rfl
        simp [Lexer.backQuote] at hback
      · have hstop : ∀ d ∈ (q :: tail).head?, (d != Lexer.backQuote) = false := by simp [hq]
        obtain ⟨htake, hleft⟩ :=
          Lexer.takeWhile_append_stop (fun _ => mem_takeWhile_imp (l := rest)) hstop
        rw [protected?, if_neg hquote, if_pos hback, append_assoc, singleton_append,
          htake, hleft]
  case isFalse hback =>
  split at h
  case isTrue hline =>
    -- a comment up to the end of its line
    cases h
    obtain ⟨more, hmore⟩ := isPrefixOf_iff_prefix.1 hline
    cases hmore
    refine ⟨'-' :: more.takeWhile (· != '\n'), by simp, ?_, by decide, fun tail htail => ?_⟩
    · simp [takeWhile_append_dropWhile]
    · have hstop : ∀ d ∈ tail.head?, (d != '\n') = false := by
        intro d hd
        have hd := htail (Lexer.head_dropWhile_ne _) d hd
        simp [hd]
      have hfront : ∀ d ∈ '-' :: '-' :: more.takeWhile (· != '\n'), (d != '\n') = true := by
        simpa using fun d => mem_takeWhile_imp (l := more) (p := (· != '\n'))
      obtain ⟨htake, hleft⟩ := Lexer.takeWhile_append_stop hfront hstop
      simp only [cons_append] at htake hleft
      rw [cons_append, protected?, if_neg hquote, if_neg hback, if_pos (by simp), htake, hleft]
      simp
  case isFalse hline =>
  split at h
  case isTrue hblock =>
    -- a comment up to its mark
    obtain ⟨⟨body, left'⟩, hbody, heq⟩ := Option.map_eq_some_iff.1 h
    cases heq
    obtain ⟨more, hmore⟩ := isPrefixOf_iff_prefix.1 hblock
    cases hmore
    replace hbody : Lexer.blockComment more = some (body, left) := hbody
    refine ⟨'*' :: body, rfl, by rw [Lexer.blockComment_split hbody]; rfl, by decide,
      fun tail _ => ?_⟩
    simp [protected?, Lexer.backQuote, Lexer.blockComment_append hbody tail]
  case isFalse => cases h

/-- Whether a stretch and what follows it make up a text. -/
def Stretch.Splits (cs left : List Char) : Stretch → Prop
  | .kept text => text ++ left = cs ∧ text ≠ []
  | .named name => cs = ':' :: (name ++ left) ∧ ∀ c ∈ name, isNameChar c = true
  | .positional => cs = '?' :: left

theorem Stretch.front_splits (c : Char) (rest : List Char) :
    (Stretch.front c rest).1.Splits (c :: rest) (Stretch.front c rest).2 := by
  unfold Stretch.front
  split
  case h_1 text left hkept =>
    obtain ⟨body, rfl, rfl, -⟩ := protected?_split hkept
    exact ⟨rfl, by simp⟩
  split
  case isTrue hc =>
    rw [beq_iff_eq.1 hc]
    exact rfl
  split
  case isTrue hc =>
    rw [beq_iff_eq.1 hc]
    unfold name?
    split
    case h_1 name left heq =>
      split at heq
      · cases heq
      cases heq
      refine ⟨by rw [takeWhile_append_dropWhile], fun c hc => ?_⟩
      exact mem_takeWhile_imp hc
    case h_2 => exact ⟨rfl, by simp⟩
  case isFalse => exact ⟨rfl, by simp⟩

theorem Stretch.length_front_lt (c : Char) (rest : List Char) :
    (Stretch.front c rest).2.length < (c :: rest).length := by
  have hsplits := Stretch.front_splits c rest
  cases hfront : (Stretch.front c rest).1 with
  | kept text =>
    rw [hfront] at hsplits
    have hpos := length_pos_iff.2 hsplits.2
    rw [← hsplits.1, length_append]
    omega
  | named name =>
    rw [hfront] at hsplits
    rw [hsplits.1, length_cons, length_append]
    omega
  | positional =>
    rw [hfront] at hsplits
    rw [show c :: rest = _ from hsplits]
    simp

/-! ### Binding without fuel -/

/-- The stretches of a text. -/
def parts (cs : List Char) : List Stretch := stretches cs.length cs

theorem stretches_eq_parts {fuel : Nat} (h : cs.length ≤ fuel) : stretches fuel cs = parts cs := by
  -- both run out of characters before they run out of fuel
  suffices hfuels : ∀ n m : Nat, ∀ cs : List Char, cs.length ≤ n → cs.length ≤ m →
      stretches n cs = stretches m cs from hfuels _ _ _ h (Nat.le_refl _)
  intro n
  induction n with
  | zero =>
    intro m cs hn hm
    rw [eq_nil_of_length_eq_zero (Nat.le_zero.1 hn), stretches, stretches]
  | succ n ih =>
    intro m cs hn hm
    cases cs with
    | nil => rw [stretches, stretches]
    | cons c rest =>
      obtain ⟨m, rfl⟩ : ∃ k, m = k + 1 := ⟨m - 1, by simp at hm; omega⟩
      have hlt := Stretch.length_front_lt c rest
      simp only [stretches]
      rw [ih m _ (by omega) (by omega)]

theorem parts_cons (c : Char) (rest : List Char) :
    parts (c :: rest) = (Stretch.front c rest).1 :: parts (Stretch.front c rest).2 := by
  have hlt := Stretch.length_front_lt c rest
  have hfuel : (Stretch.front c rest).2.length ≤ rest.length := Nat.le_of_lt_succ hlt
  rw [← stretches_eq_parts hfuel]
  rfl

/-- The characters of the bound text. -/
def boundChars (cs : List Char) : List Char := (parts cs).flatMap Stretch.bound

theorem toList_text (text : String) : (ofText text).text.toList = boundChars text.toList :=
  String.toList_ofList

theorem boundChars_cons (c : Char) (rest : List Char) :
    boundChars (c :: rest) =
      (Stretch.front c rest).1.bound ++ boundChars (Stretch.front c rest).2 := by
  rw [boundChars, parts_cons, flatMap_cons, boundChars]

/-- What is left of a text once its names are replaced: a character is kept, or a name with its
colon becomes a question mark. -/
inductive Replaced : List Char → List Char → Prop
  | nil : Replaced [] []
  | keep {c : Char} {cs bs : List Char} (next : Replaced cs bs) : Replaced (c :: cs) (c :: bs)
  | name {name cs bs : List Char} (chars : ∀ c ∈ name, isNameChar c = true)
      (next : Replaced cs bs) : Replaced (':' :: (name ++ cs)) ('?' :: bs)

theorem Replaced.append (text : List Char) (h : Replaced cs bs) :
    Replaced (text ++ cs) (text ++ bs) := by
  induction text with
  | nil => exact h
  | cons c text ih => exact .keep ih

theorem replaced_boundChars (cs : List Char) : Replaced cs (boundChars cs) := by
  induction hn : cs.length using Nat.strongRecOn generalizing cs with
  | ind n ih =>
    cases cs with
    | nil => exact .nil
    | cons c rest =>
      have hlt := Stretch.length_front_lt c rest
      have hleft := ih _ (hn ▸ hlt) _ rfl
      have hsplits := Stretch.front_splits c rest
      rw [boundChars_cons]
      cases hfront : (Stretch.front c rest).1 with
      | kept text =>
        rw [hfront] at hsplits
        rw [← hsplits.1]
        exact hleft.append text
      | named name =>
        rw [hfront] at hsplits
        rw [hsplits.1]
        exact .name hsplits.2 hleft
      | positional =>
        rw [hfront] at hsplits
        rw [show c :: rest = _ from hsplits]
        exact .keep hleft

/-- A character other than a question mark stands where it stood. -/
theorem Replaced.head {b : Char} (h : Replaced cs (b :: bs)) (hb : b ≠ '?') :
    ∃ cs', cs = b :: cs' ∧ Replaced cs' bs := by
  cases h with
  | keep next => exact ⟨_, rfl, next⟩
  | name => exact absurd rfl hb

theorem Replaced.mem {b : Char} (h : Replaced cs bs) (hmem : b ∈ bs)
    (hb : b ≠ '?') : b ∈ cs := by
  induction h with
  | nil => exact hmem
  | keep next ih =>
    rcases mem_cons.1 hmem with rfl | hmem
    · exact mem_cons_self
    · exact mem_cons_of_mem _ (ih hmem)
  | name chars next ih =>
    rcases mem_cons.1 hmem with rfl | hmem
    · exact absurd rfl hb
    · exact mem_cons_of_mem _ (mem_append_right _ (ih hmem))

/-! ### Quoted text and comments -/

theorem isSome_quotedBody_name {name : List Char} (hsingle : quote = '\'' ∨ quote = '"')
    (hname : ∀ c ∈ name, isNameChar c = true) :
    (quotedBody quote (name ++ cs)).isSome = (quotedBody quote cs).isSome := by
  induction name with
  | nil => rfl
  | cons c name ih =>
    have hc := hname c mem_cons_self
    have hquote : c ≠ quote := by
      rintro rfl
      rcases hsingle with rfl | rfl <;> exact absurd hc (by decide)
    have hescape : c ≠ '\\' := by
      rintro rfl
      exact absurd hc (by decide)
    rw [cons_append, quotedBody_plain hquote hescape, isSome_map,
      ih fun d hd => hname d (mem_cons_of_mem _ hd)]

/-- A quoted text that ends in what is left ends in the text. -/
theorem Replaced.isSome_quotedBody (hsingle : quote = '\'' ∨ quote = '"') (h : Replaced cs bs)
    (hbody : (quotedBody quote bs).isSome = true) : (quotedBody quote cs).isSome = true := by
  have hmark : quote ≠ '?' := by rcases hsingle with rfl | rfl <;> decide
  have hcolon : ':' ≠ quote := by rcases hsingle with rfl | rfl <;> decide
  have hclosed : ∀ {cs bs : List Char}, Replaced cs (quote :: bs) →
      (quotedBody quote cs).isSome = true := by
    intro cs bs h
    obtain ⟨cs', rfl, _⟩ := h.head hmark
    rw [quotedBody_quote]
    rfl
  fun_induction quotedBody quote bs generalizing cs with
  | case1 => cases hbody
  | case2 c hc | case4 c d rest hc => exact hclosed (beq_iff_eq.1 hc ▸ h)
  | case3 => cases hbody
  | case5 => cases hbody
  | case6 c d rest hc hescape hd ih =>
    rw [isSome_map] at hbody
    obtain rfl : c = '\\' := beq_iff_eq.1 hescape
    have hquote : quote ≠ '\\' := by simpa using Ne.symm (by simpa using hc)
    obtain ⟨cs₁, rfl, h₁⟩ := h.head (by decide)
    cases h₁ with
    | keep next =>
      rw [quotedBody_escape hquote (by simpa using hd), isSome_map]
      exact ih next hbody
    | name chars next =>
      -- what is escaped is the colon of a name
      rw [quotedBody_escape hquote (by decide), isSome_map,
        isSome_quotedBody_name hsingle chars]
      exact ih next hbody
  | case7 c d rest hc hescape ih =>
    rw [isSome_map] at hbody
    cases h with
    | keep next =>
      rw [quotedBody_plain (by simpa using hc) (by simpa using hescape), isSome_map]
      exact ih next hbody
    | name chars next =>
      rw [quotedBody_plain hcolon (by decide), isSome_map,
        isSome_quotedBody_name hsingle chars]
      exact ih next hbody

theorem blockComment_tail (h : Lexer.blockComment (c :: cs) = none) :
    Lexer.blockComment cs = none := by
  unfold Lexer.blockComment at h
  split at h
  case h_1 => cases h
  case h_2 heq =>
    cases heq
    exact Option.map_eq_none_iff.1 h
  case h_3 heq => cases heq

/-- A comment that does not end in a text does not end in what is left. -/
theorem Replaced.blockComment_eq_none (h : Replaced cs bs)
    (hnone : Lexer.blockComment cs = none) : Lexer.blockComment bs = none := by
  fun_induction Lexer.blockComment bs generalizing cs with
  | case1 rest =>
    obtain ⟨cs₁, rfl, h₁⟩ := h.head (by decide)
    obtain ⟨cs₂, rfl, _⟩ := h₁.head (by decide)
    simp [Lexer.blockComment] at hnone
  | case2 b bs _ ih =>
    rw [map_eq_none_iff]
    cases h with
    | keep next => exact ih next (blockComment_tail hnone)
    | @name name cs _ chars next =>
      refine ih next ?_
      replace hnone := blockComment_tail hnone
      clear chars next
      induction name with
      | nil => exact hnone
      | cons c name ihname => exact ihname (blockComment_tail hnone)
  | case3 => rfl

/-- What starts with two characters in what is left starts with them in the text. -/
theorem Replaced.pair {a b : Char} (h : Replaced rest bs) (hb : b ≠ '?')
    (hpair : [a, b].isPrefixOf (c :: bs) = true) :
    ∃ rest' bs', rest = b :: rest' ∧ bs = b :: bs' ∧ Replaced rest' bs' ∧
      [a, b].isPrefixOf (c :: rest) = true := by
  obtain ⟨bs', heq⟩ := isPrefixOf_iff_prefix.1 hpair
  cases heq
  obtain ⟨rest', rfl, hnext⟩ := h.head hb
  exact ⟨rest', bs', rfl, rfl, hnext, by simp⟩

/-- Where no quoted text and no comment starts, none starts once the names are replaced. -/
theorem Replaced.protected?_eq_none (h : Replaced rest bs) (hnone : protected? c rest = none) :
    protected? c bs = none := by
  unfold protected? at hnone ⊢
  split at hnone
  case isTrue hquote =>
    rw [if_pos hquote, map_eq_none_iff, ← not_isSome_iff_eq_none]
    rw [map_eq_none_iff, ← not_isSome_iff_eq_none] at hnone
    exact fun hsome => hnone (h.isSome_quotedBody (by simpa using hquote) hsome)
  case isFalse hquote =>
  rw [if_neg hquote]
  split at hnone
  case isTrue hback =>
    rw [if_pos hback]
    split at hnone
    case h_1 => cases hnone
    case h_2 hdrop =>
      -- a quote that is left is a quote of the text
      have hleft : bs.dropWhile (· != Lexer.backQuote) = [] := by
        refine dropWhile_eq_nil_iff.2 fun d hd => bne_iff_ne.2 ?_
        rintro rfl
        have hnot := dropWhile_eq_nil_iff.1 hdrop _ (h.mem hd (by decide))
        simp at hnot
      rw [hleft]
  case isFalse hback =>
  rw [if_neg hback]
  split at hnone
  case isTrue => cases hnone
  case isFalse hline =>
  have hdashes : ¬['-', '-'].isPrefixOf (c :: bs) = true := by
    intro hpair
    obtain ⟨_, _, _, _, _, hdashes⟩ := h.pair (by decide) hpair
    exact hline hdashes
  rw [if_neg hdashes]
  split
  case isFalse => rfl
  case isTrue hpair =>
    obtain ⟨rest', bs', rfl, rfl, hnext, hblock⟩ := h.pair (by decide) hpair
    rw [if_pos hblock, map_eq_none_iff] at hnone
    rw [map_eq_none_iff]
    exact hnext.blockComment_eq_none hnone

theorem Replaced.name?_eq_none (h : Replaced rest bs) (hnone : name? rest = none) :
    name? bs = none := by
  have hname : ∀ {cs : List Char}, name? cs = none ↔ cs.takeWhile isNameChar = [] := by
    intro cs
    unfold name?
    split <;> simp_all
  rw [hname] at hnone ⊢
  cases h with
  | nil => rfl
  | @keep c cs bs next =>
    have hc : isNameChar c = false := by
      cases hc : isNameChar c <;> simp_all
    simp [hc]
  | name => simp [show isNameChar '?' = false by decide]

/-! ### The stretches of a bound text -/

/-- A stretch once its name is replaced. -/
def Stretch.unnamed : Stretch → Stretch
  | .named _ => .positional
  | stretch => stretch

theorem Stretch.bound_unnamed (stretch : Stretch) : stretch.unnamed.bound = stretch.bound := by
  cases stretch <;> rfl

theorem front_mark (rest : List Char) : Stretch.front '?' rest = (.positional, rest) := by
  simp [Stretch.front, protected?, Lexer.backQuote]

/-- At the end of a line the bound text is at the end of a line. -/
theorem EndsLine.boundChars (h : EndsLine cs) : EndsLine (boundChars cs) := by
  cases cs with
  | nil => exact h
  | cons c rest =>
    obtain rfl : c = '\n' := h c rfl
    have hfront : Stretch.front '\n' rest = (.kept ['\n'], rest) := by
      simp [Stretch.front, protected?, Lexer.backQuote]
    rw [boundChars_cons, hfront]
    exact fun d hd => (Option.some.inj hd).symm

/-- The bound text starts with the stretch that the text starts with. -/
theorem front_boundChars (c : Char) (rest : List Char) :
    ∃ b bs, boundChars (c :: rest) = b :: bs ∧ Stretch.front b bs =
      ((Stretch.front c rest).1.unnamed, boundChars (Stretch.front c rest).2) := by
  rw [boundChars_cons]
  cases hkept : protected? c rest with
  | some kept =>
    obtain ⟨text, left⟩ := kept
    obtain ⟨body, rfl, -, -, htail⟩ := protected?_split hkept
    have hfront : Stretch.front c rest = (.kept (c :: body), left) := by rw [Stretch.front, hkept]
    rw [hfront]
    refine ⟨c, body ++ boundChars left, rfl, ?_⟩
    rw [Stretch.front, htail _ EndsLine.boundChars]
    rfl
  | none =>
    have hnone := (replaced_boundChars rest).protected?_eq_none hkept
    by_cases hmark : c = '?'
    case pos =>
      subst hmark
      rw [front_mark]
      exact ⟨'?', boundChars rest, rfl, front_mark _⟩
    by_cases hcolon : c = ':'
    case neg =>
      have hfront : ∀ cs, protected? c cs = none → Stretch.front c cs = (.kept [c], cs) := by
        intro cs hcs
        simp [Stretch.front, hcs, hmark, hcolon]
      rw [hfront rest hkept]
      exact ⟨c, boundChars rest, rfl, hfront _ hnone⟩
    subst hcolon
    cases hname : name? rest with
    | some named =>
      have hfront : Stretch.front ':' rest = (.named named.1, named.2) := by
        simp [Stretch.front, hkept, hname]
      rw [hfront]
      exact ⟨'?', boundChars named.2, rfl, front_mark _⟩
    | none =>
      -- a colon without a name is kept, and no name follows it once those behind are replaced
      have hfront : ∀ cs, protected? ':' cs = none → name? cs = none →
          Stretch.front ':' cs = (.kept [':'], cs) := by
        intro cs hcs hname
        simp [Stretch.front, hcs, hname]
      rw [hfront rest hkept hname]
      exact ⟨':', boundChars rest, rfl,
        hfront _ hnone ((replaced_boundChars rest).name?_eq_none hname)⟩

/-- A bound text falls into the stretches of the text, but for the names. -/
theorem parts_boundChars (cs : List Char) :
    parts (boundChars cs) = (parts cs).map Stretch.unnamed := by
  induction hn : cs.length using Nat.strongRecOn generalizing cs with
  | ind n ih =>
    cases cs with
    | nil => rfl
    | cons c rest =>
      have hlt := Stretch.length_front_lt c rest
      obtain ⟨b, bs, hbound, hfront⟩ := front_boundChars c rest
      rw [hbound, parts_cons, hfront, parts_cons c rest, map_cons, ih _ (hn ▸ hlt) _ rfl]

theorem boundChars_boundChars (cs : List Char) : boundChars (boundChars cs) = boundChars cs := by
  rw [boundChars, parts_boundChars, flatMap_map]
  simp only [Stretch.bound_unnamed]
  rfl

theorem filterMap_parameter?_unnamed (stretches : List Stretch) :
    (stretches.map Stretch.unnamed).filterMap Stretch.parameter? =
      List.replicate (stretches.filterMap Stretch.parameter?).length none := by
  induction stretches with
  | nil => rfl
  | cons stretch stretches ih =>
    cases stretch <;>
      simp [Stretch.unnamed, filterMap_cons, Stretch.parameter?, ih, replicate_succ]

/-! ### Annotations -/

theorem Replaced.dropWhile {p : Char → Bool} (h : Replaced cs bs) (hcolon : p ':' = false)
    (hmark : p '?' = false) : Replaced (cs.dropWhile p) (bs.dropWhile p) := by
  induction h with
  | nil => exact .nil
  | @keep c cs bs next ih =>
    cases hc : p c with
    | true => simpa [hc] using ih
    | false => simpa [hc] using next.keep
  | name chars next ih => simpa [hcolon, hmark] using Replaced.name chars next

/-- What starts without a colon or a question mark is not touched. -/
theorem Replaced.isPrefixOf (h : Replaced cs bs) (word : List Char) (hcolon : ':' ∉ word)
    (hmark : '?' ∉ word) :
    word.isPrefixOf bs = word.isPrefixOf cs ∧
      (word.isPrefixOf cs = true → Replaced (cs.drop word.length) (bs.drop word.length)) := by
  induction word generalizing cs bs with
  | nil => exact ⟨by simp, fun _ => h⟩
  | cons w word ih =>
    simp only [mem_cons, not_or] at hcolon hmark
    cases h with
    | nil => exact ⟨rfl, fun _ => .nil⟩
    | @keep c cs bs next =>
      obtain ⟨hsame, hdrop⟩ := ih next hcolon.2 hmark.2
      refine ⟨by simp [List.isPrefixOf, hsame], fun hprefix => ?_⟩
      simp only [List.isPrefixOf, Bool.and_eq_true] at hprefix
      exact hdrop hprefix.2
    | name =>
      have hw : (w == ':') = false ∧ (w == '?') = false := by
        simp [Ne.symm hcolon.1, Ne.symm hmark.1]
      simp [List.isPrefixOf, hw]

theorem Replaced.head?_all {p : Char → Bool} (h : Replaced cs bs) (hp : p ':' = p '?') :
    bs.head?.all p = cs.head?.all p := by
  cases h with
  | nil => rfl
  | keep => rfl
  | name => exact hp.symm

/-- What stands behind the dashes of a comment and the blanks after them. -/
def commented (cs : List Char) : List Char := (cs.drop 2).dropWhile Text.isBlank

theorem startsAnnotation_eq (name : String) (cs : List Char) :
    startsAnnotation name cs =
      (['-', '-'].isPrefixOf cs && (('@' :: name.toList).isPrefixOf (commented cs) &&
        ((commented cs).drop (name.toList.length + 1)).head?.all (!Text.isWordCharacter ·))) := by
  unfold startsAnnotation
  split
  case h_1 rest =>
    simp only [commented, drop_succ_cons, drop_zero, length_cons]
    cases ((rest.dropWhile Text.isBlank).drop (name.toList.length + 1)) <;> simp
  case h_2 hdashes =>
    have hnot : ['-', '-'].isPrefixOf cs = false := by
      refine Bool.eq_false_iff.2 fun hprefix => ?_
      obtain ⟨rest, rfl⟩ := isPrefixOf_iff_prefix.1 hprefix
      exact hdashes rest rfl
    rw [hnot, Bool.false_and]

/-- An annotation starts in what is left where it starts in the text. -/
theorem Replaced.startsAnnotation_congr {name : String} (h : Replaced cs bs)
    (hcolon : ':' ∉ name.toList) (hmark : '?' ∉ name.toList) :
    startsAnnotation name bs = startsAnnotation name cs := by
  rw [startsAnnotation_eq, startsAnnotation_eq]
  obtain ⟨hdashes, hrest⟩ := h.isPrefixOf ['-', '-'] (by decide) (by decide)
  rw [hdashes]
  cases hcomment : ['-', '-'].isPrefixOf cs with
  | false => rfl
  | true =>
    have hbehind : Replaced (commented cs) (commented bs) :=
      (hrest hcomment).dropWhile (by decide) (by decide)
    obtain ⟨hword, hafter⟩ := hbehind.isPrefixOf ('@' :: name.toList) (by simpa using hcolon)
      (by simpa using hmark)
    rw [hword]
    cases hprefix : ('@' :: name.toList).isPrefixOf (commented cs) with
    | false => rfl
    | true =>
      -- a word ends at a colon, and at a question mark
      have hend := (hafter hprefix).head?_all (p := (!Text.isWordCharacter ·)) (by decide)
      rw [length_cons] at hend
      rw [hend]

theorem hasAnnotation_cons (name : String) (hc : c ≠ '-') (rest : List Char) :
    hasAnnotation name (c :: rest) = hasAnnotation name rest := by
  have hstarts : startsAnnotation name (c :: rest) = false := by
    rw [startsAnnotation_eq]
    simp [List.isPrefixOf, Ne.symm hc]
  exact congrArg (· || hasAnnotation name rest) hstarts

theorem Replaced.hasAnnotation_congr {name : String} (h : Replaced cs bs)
    (hcolon : ':' ∉ name.toList) (hmark : '?' ∉ name.toList) :
    hasAnnotation name bs = hasAnnotation name cs := by
  induction h with
  | nil => rfl
  | keep next ih =>
    unfold hasAnnotation
    rw [ih, next.keep.startsAnnotation_congr hcolon hmark]
  | @name chars cs bs hchars next ih =>
    rw [hasAnnotation_cons _ (by decide), hasAnnotation_cons _ (by decide), ih]
    clear next ih
    induction chars with
    | nil => rfl
    | cons c chars ih =>
      have hc : c ≠ '-' := by
        rintro rfl
        exact absurd (hchars _ mem_cons_self) (by decide)
      rw [cons_append, hasAnnotation_cons _ hc,
        ih fun d hd => hchars d (mem_cons_of_mem _ hd)]

/-- To bind a bound text once more changes neither its text nor what it asks for, and finds as many
bound values, none with a name. -/
theorem ofText_text (text : String) :
    ofText (ofText text).text =
      { ofText text with
        parameters := List.replicate (ofText text).parameters.length none } := by
  have hreplaced := replaced_boundChars text.toList
  simp only [ofText, String.toList_ofList, mk.injEq]
  exact ⟨congrArg _ (boundChars_boundChars text.toList),
    (congrArg _ (parts_boundChars text.toList)).trans (filterMap_parameter?_unnamed _),
    hreplaced.hasAnnotation_congr (by decide) (by decide),
    hreplaced.hasAnnotation_congr (by decide) (by decide)⟩

end BoundText

end SqlSignature

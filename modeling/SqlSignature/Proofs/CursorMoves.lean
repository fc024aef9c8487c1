import SqlSignature.Grammar.Statement
import SqlSignature.Proofs.Ensures
/-!
# SqlSignature.Proofs.CursorMoves

How a cursor moves over its tokens. The tokens of a text stand in order, `Cursor.Sound`. Parsers
that build no node only move the cursor; those that read keywords, symbols and names move it over
tokens that are no placeholders, `Cursor.Passed`, and only the length of a type is skipped unseen.
-/

open Option

namespace SqlSignature

namespace Cursor

/-! ### Tokens in order -/

/-- The tokens stand in the text one after the other, and the cursor is among them. -/
structure Sound (c : Cursor) : Prop where
  ordered : c.tokens.toList.Pairwise fun t u => t.stop ≤ u.start
  proper : ∀ t ∈ c.tokens.toList, t.start < t.stop ∧ t.stop ≤ Text.size c.text
  inside : c.position ≤ c.tokens.size

variable {c : Cursor} {t : Token}

theorem tokenStart_of_some {i : Nat} (h : c.tokens[i]? = some t) : c.tokenStart i = t.start := by
  simp [tokenStart, h]

theorem tokenStop_of_some {i : Nat} (h : c.tokens[i]? = some t) : c.tokenStop i = t.stop := by
  simp [tokenStop, h]

namespace Sound

variable {c : Cursor}

variable {i : Nat}

section

variable (hc : c.Sound)

include hc

theorem proper_at {t : Token} (h : c.tokens[i]? = some t) :
    t.start < t.stop ∧ t.stop ≤ Text.size c.text :=
  hc.proper t (Array.mem_toList_iff.2 (Array.mem_of_getElem? h))

theorem stop_le_tokenStart {j : Nat} {t : Token} (h : c.tokens[i]? = some t)
    (hij : i < j) : t.stop ≤ c.tokenStart j := by
  cases hj : c.tokens[j]? with
  | none => simpa [tokenStart, hj] using (hc.proper_at h).2
  | some u =>
    rw [tokenStart_of_some hj]
    obtain ⟨hi, rfl⟩ := Array.getElem?_eq_some_iff.1 h
    obtain ⟨hjsize, rfl⟩ := Array.getElem?_eq_some_iff.1 hj
    exact List.pairwise_iff_getElem.1 hc.ordered i j (by simpa using hi) (by simpa using hjsize) hij

theorem start_lt_stop (hi : i < c.tokens.size) : c.tokenStart i < c.tokenStop i := by
  have h : c.tokens[i]? = some c.tokens[i] := Array.getElem?_eq_getElem hi
  rw [tokenStart_of_some h, tokenStop_of_some h]
  exact (hc.proper_at h).1

theorem tokenStop_le_tokenStart {j : Nat} (hi : i < c.tokens.size) (hij : i < j) :
    c.tokenStop i ≤ c.tokenStart j := by
  have h : c.tokens[i]? = some c.tokens[i] := Array.getElem?_eq_getElem hi
  rw [tokenStop_of_some h]
  exact hc.stop_le_tokenStart h hij

theorem tokenStart_le {j : Nat} (hj : j < c.tokens.size) (hij : i ≤ j) :
    c.tokenStart i ≤ c.tokenStart j := by
  rcases Nat.eq_or_lt_of_le hij with rfl | hlt
  · exact Nat.le_refl _
  · have hi : i < c.tokens.size := by omega
    exact Nat.le_trans (Nat.le_of_lt (hc.start_lt_stop hi)) (hc.tokenStop_le_tokenStart hi hlt)

theorem tokenStop_le {j : Nat} (hj : j < c.tokens.size) (hij : i ≤ j) :
    c.tokenStop i ≤ c.tokenStop j := by
  rcases Nat.eq_or_lt_of_le hij with rfl | hlt
  · exact Nat.le_refl _
  · exact Nat.le_trans (hc.tokenStop_le_tokenStart (by omega) hlt)
      (Nat.le_of_lt (hc.start_lt_stop hj))

end

end Sound

/-! ### Moves -/

/-- The cursor has moved on, and nothing else has changed. -/
structure Moved (c c' : Cursor) : Prop where
  eq : c' = { c with position := c'.position }
  le : c.position ≤ c'.position
  inside : c.position ≤ c.tokens.size → c'.position ≤ c.tokens.size

/-- Whether a token is a point. -/
def pointAt (c : Cursor) (index : Nat) : Bool := c.tokens[index]?.any (·.isSymbol ".")

/-- Whether the token that was passed last is a point. -/
def afterPoint (c : Cursor) : Bool := decide (0 < c.position) && c.pointAt (c.position - 1)

/-- Whether a token opens a group, which leaves no trace in an expression. -/
def groupAt (c : Cursor) (index : Nat) : Bool :=
  c.tokens[index]?.any (·.isSymbol "(") && !c.tokens[index + 1]?.any (·.isWord "SELECT")

/-- The cursor has moved on over tokens none of which is a placeholder. -/
structure Slipped (c c' : Cursor) : Prop extends Moved c c' where
  plain : ∀ i t, c.position ≤ i → i < c'.position → c.tokens[i]? = some t → t.kind ≠ .placeholder

/-- Nor has it stopped after a point. -/
structure Passed (c c' : Cursor) : Prop extends Slipped c c' where
  closed : c.position < c'.position → c'.afterPoint = false

namespace Moved

variable {c c' c'' : Cursor}

theorem tokens (h : Moved c c') : c'.tokens = c.tokens := by rw [h.eq]
theorem text (h : Moved c c') : c'.text = c.text := by rw [h.eq]
theorem nodes (h : Moved c c') : c'.nodes = c.nodes := by rw [h.eq]
theorem placeholders (h : Moved c c') : c'.placeholders = c.placeholders := by rw [h.eq]

theorem refl (c : Cursor) : Moved c c := ⟨rfl, Nat.le_refl _, id⟩

theorem trans (h : Moved c c') (h' : Moved c' c'') : Moved c c'' where
  eq := by rw [h'.eq, h.eq]
  le := Nat.le_trans h.le h'.le
  inside hc := h.tokens ▸ h'.inside (by rw [h.tokens]; exact h.inside hc)

theorem next (c : Cursor) : Moved c c.next := by
  unfold Cursor.next
  split
  · exact ⟨rfl, Nat.le_succ _, fun _ => ‹_›⟩
  · exact refl c

end Moved

theorem Slipped.trans {c' c'' : Cursor} (h : Slipped c c') (h' : Slipped c' c'') :
    Slipped c c'' where
  toMoved := h.toMoved.trans h'.toMoved
  plain i t hi hlt hit := by
    by_cases hmid : i < c'.position
    · exact h.plain i t hi hmid hit
    · exact h'.plain i t (by omega) hlt (by rw [h.tokens]; exact hit)

namespace Passed

variable {c c' c'' : Cursor}

theorem refl (c : Cursor) : Passed c c :=
  ⟨⟨.refl c, fun _ _ hi hlt => absurd hlt (Nat.not_lt.2 hi)⟩,
    fun hlt => absurd hlt (Nat.lt_irrefl _)⟩

theorem trans (h : Passed c c') (h' : Passed c' c'') : Passed c c'' where
  toSlipped := h.toSlipped.trans h'.toSlipped
  closed hlt := by
    by_cases hmid : c'.position < c''.position
    · exact h'.closed hmid
    · have hle := h'.le
      have heq : c'' = c' := by
        rw [h'.eq, show c''.position = c'.position by omega]
      rw [heq] at hlt ⊢
      exact h.closed hlt

/-- After a point, more has to be passed. -/
theorem of_slipped (h : Slipped c c') (h' : Passed c' c'' ∧ c'.position < c''.position) :
    Passed c c'' :=
  ⟨h.trans h'.1.toSlipped, fun _ => h'.1.closed h'.2⟩

end Passed

theorem next_position (h : c.current = some t) : c.next.position = c.position + 1 := by
  have : c.position < c.tokens.size := (Array.getElem?_eq_some_iff.1 h).1
  simp [next, this]

theorem Slipped.next (h : c.current = some t) (hkind : t.kind ≠ .placeholder) :
    Slipped c c.next := by
  refine ⟨.next c, fun i u hi hlt hiu => ?_⟩
  have : i = c.position := by
    have := next_position h
    omega
  rw [this] at hiu
  cases hiu.symm.trans h
  exact hkind

end Cursor

namespace Token

/-- A token over which a rule can pass and stop: neither a placeholder nor a point. -/
def Passable (t : Token) : Prop := t.kind ≠ .placeholder ∧ t.isSymbol "." = false

variable {t : Token}

theorem kind_of_isWord {word : String} (h : t.isWord word = true) : t.kind = .word := by
  simp only [isWord, Bool.and_eq_true, beq_iff_eq] at h
  exact h.1

theorem kind_of_isSymbol {symbol : String} (h : t.isSymbol symbol = true) : t.kind = .symbol := by
  simp only [isSymbol, Bool.and_eq_true, beq_iff_eq] at h
  exact h.1

theorem passable_of_kind (hplaceholder : t.kind ≠ .placeholder) (hsymbol : t.kind ≠ .symbol) :
    t.Passable :=
  ⟨hplaceholder, by simp [isSymbol, hsymbol]⟩

theorem passable_of_isWord {word : String} (h : t.isWord word = true) : t.Passable := by
  have hkind := kind_of_isWord h
  exact passable_of_kind (by rw [hkind]; nofun) (by rw [hkind]; nofun)

theorem passable_of_isSymbol {symbol : String} (h : t.isSymbol symbol = true)
    (hpoint : symbol ≠ ".") : t.Passable := by
  refine ⟨by rw [kind_of_isSymbol h]; nofun, ?_⟩
  simp only [isSymbol, Bool.and_eq_true, beq_iff_eq] at h
  simp [isSymbol, h.2, hpoint]

end Token

theorem Cursor.Passed.next {c : Cursor} {t : Token} (h : c.current = some t) (ht : t.Passable) :
    Cursor.Passed c c.next := by
  refine ⟨.next h ht.1, fun _ => ?_⟩
  have hcur : c.tokens[c.position]? = some t := h
  simp [Cursor.afterPoint, Cursor.pointAt, Cursor.next_position h, hcur, ht.2]

theorem KeywordPhrase.matched_eq_some {phrase : KeywordPhrase} {c : Cursor} {length : Nat} :
    phrase.matched c = some length ↔ phrase.matchWords c phrase.words 0 0 = some length ∧
      ∀ symbol ∈ phrase.delimiter, (c.peek length).any (·.isSymbol symbol) = true := by
  unfold matched
  cases phrase.matchWords c phrase.words 0 0 with
  | none => simp
  | some n =>
    cases phrase.delimiter with
    | none => simp
    | some symbol =>
      simp only [bind_eq_bind, bind_some, pure_def,
        ite_none_right_eq_some, Option.some.injEq, mem_def, forall_eq']
      constructor
      · rintro ⟨hsymbol, rfl⟩
        exact ⟨rfl, hsymbol⟩
      · rintro ⟨rfl, hsymbol⟩
        exact ⟨hsymbol, rfl⟩

namespace Parser

open Cursor

variable {α : Type} {p : Parser α} {phrase : KeywordPhrase} {c : Cursor} {length : Nat}
  {symbol : String} {t : Token}

/-- Wherever it starts, a run that succeeds passes tokens that are no placeholders. -/
def Passes {α : Type} (p : Parser α) : Prop := ∀ c, Ensures (· = c) p fun _ c' => Passed c c'

/-- A run that succeeds passes some token, too. -/
def Consumes {α : Type} (p : Parser α) : Prop :=
  ∀ c, Ensures (· = c) p fun _ c' => Passed c c' ∧ c.position < c'.position

theorem Consumes.passes (h : Consumes p) : Passes p :=
  fun c => (h c).post fun _ _ h => h.1

theorem Passes.step (h : Passes p) (c : Cursor) : Ensures (Passed c) p fun _ => Passed c :=
  .at_each fun d hd => (h d).post fun _ _ h => hd.trans h

theorem Passes.moved (h : Passes p) (c : Cursor) : Ensures (Moved c) p fun _ => Moved c :=
  .at_each fun d hd => (h d).post fun _ _ he => hd.trans he.toMoved

theorem Passes.onward (h : Passes p) (c : Cursor) :
    Ensures (fun d => Passed c d ∧ c.position < d.position) p
      fun _ d => Passed c d ∧ c.position < d.position :=
  .at_each fun _ hd => (h _).post fun _ _ h => ⟨hd.1.trans h, Nat.lt_of_lt_of_le hd.2 h.le⟩

theorem Consumes.after_point (h : Consumes p) (c : Cursor) :
    Ensures (Slipped c) p fun _ => Passed c :=
  .at_each fun d hd => (h d).post fun _ _ he => .of_slipped hd he

/-- A parser all of whose steps pass tokens. -/
theorem passes_of (h : ∀ c, Ensures (Passed c) p fun _ => Passed c) : Passes p :=
  fun c => (h c).of fun _ hd => hd ▸ Passed.refl c

/-! ### Keywords, symbols and names -/

theorem advance_next (c : Cursor) : Ensures (· = c) advance fun _ d => d = c.next := by
  rintro d _ d' rfl hrun
  cases hrun
  rfl

theorem identifier_next (c : Cursor) : Ensures (· = c) identifier
    fun _ d => d = c.next ∧ c.current.any Token.isIdentifier = true := by
  refine .getThen ?_
  rintro d rfl
  cases hcur : d.current with
  | none => exact .failHere _
  | some token =>
    refine .ite (fun h => ?_) fun _ => .failHere _
    exact (advance_next d).bind fun _ => .pure fun _ he => ⟨he, h⟩

theorem advance_consumes (h : c.current = some t) (ht : t.Passable) :
    Ensures (· = c) advance fun _ d => Passed c d ∧ c.position < d.position := by
  intro d _ d' hd hrun
  cases hrun
  subst hd
  exact ⟨.next h ht, by rw [next_position h]; exact Nat.lt_succ_self _⟩

/-- A point is accepted only to read on. -/
theorem acceptPoint (c : Cursor) :
    Ensures (Passed c) (acceptSymbol ".")
      fun b d => if b then Slipped c d else Passed c d := by
  refine .getThen fun d hd => .ite (fun h => ?_) fun _ => .pure fun _ he => he ▸ hd
  obtain ⟨t, hcur, ht⟩ := (any_eq_true _ _).1 h
  intro e _ e' he hrun
  cases hrun
  subst he
  exact hd.toSlipped.trans (.next hcur (by rw [t.kind_of_isSymbol ht]; nofun))

/-- A parser that passes a token if it is the right one. -/
def Accepts (test : Token → Bool) (a : Parser Bool) : Prop :=
  ∀ c, a c = .ok (c.current.any test) (if c.current.any test then c.next else c)

theorem accepts_word (word : String) : Accepts (·.isWord word) (acceptWord word) := by
  intro c
  change (if c.isWord word then (do advance; return true : Parser Bool) else return false) c = _
  unfold Cursor.isWord
  cases c.current.any (·.isWord word) <;> rfl

theorem accepts_symbol (symbol : String) : Accepts (·.isSymbol symbol) (acceptSymbol symbol) := by
  intro c
  change (if c.isSymbol symbol then (do advance; return true : Parser Bool) else return false) c = _
  unfold Cursor.isSymbol
  cases c.current.any (·.isSymbol symbol) <;> rfl

theorem accepts_anyWord : ∀ words : List String,
    Accepts (fun t => words.any t.isWord) (acceptAnyWord words)
  | [], c => by cases c.current <;> rfl
  | word :: rest, c => by
    refine bind_eq_ok.2 ⟨_, _, accepts_word word c, ?_⟩
    cases hcur : c.current with
    | none => simpa [hcur] using accepts_anyWord rest c
    | some t =>
      cases hword : t.isWord word with
      | true => simp [hword]; rfl
      | false => simpa [hcur, hword] using accepts_anyWord rest c

section

variable {test : Token → Bool} {a : Parser Bool}

/-- A token is passed and one parser goes on, or another one goes on where it is. -/
theorem run_iteAccepts (h : Accepts test a) (p q : Parser α) (c : Cursor) :
    (a >>= fun b => if b = true then p else q) c =
      if c.current.any test = true then p c.next else q c := by
  show EStateM.bind a _ c = _
  rw [EStateM.bind, h c]
  cases c.current.any test <;> rfl

theorem Accepts.passes (h : Accepts test a) (htest : ∀ t, test t = true → t.Passable) :
    Passes a := by
  rintro c d b d' rfl hrun
  rw [h] at hrun
  cases hrun
  split
  next hany =>
    obtain ⟨t, hcur, ht⟩ := (any_eq_true _ _).1 hany
    exact .next hcur (htest t ht)
  next => exact .refl d

/-- A parser that fails unless the right token is next. -/
theorem Accepts.expect_next (h : Accepts test a) (fault : ParseFault) (c : Cursor) :
    Ensures (· = c) (do unless ← a do failHere fault : Parser Unit)
      fun _ d => d = c.next ∧ c.current.any test = true := by
  rintro d _ d' rfl hrun
  obtain ⟨_, _, ha, hrun⟩ := bind_eq_ok.1 hrun
  cases (h d).symm.trans ha
  cases hany : d.current.any test <;> rw [hany] at hrun <;> cases hrun
  exact ⟨rfl, rfl⟩

/-- Passing a token of a kind that can be passed. -/
theorem Consumes.of_next
    (h : ∀ c, Ensures (· = c) p fun _ d => d = c.next ∧ c.current.any test = true)
    (htest : ∀ t, test t = true → t.Passable) : Consumes p := by
  refine fun c => (h c).post fun _ d hd => ?_
  obtain ⟨rfl, hany⟩ := hd
  obtain ⟨t, hcur, ht⟩ := (any_eq_true _ _).1 hany
  exact ⟨.next hcur (htest t ht), by rw [next_position hcur]; exact Nat.lt_succ_self _⟩

end

theorem passes_acceptWord (word : String) : Passes (acceptWord word) :=
  (accepts_word word).passes fun t => t.passable_of_isWord

theorem passes_acceptSymbol (hpoint : symbol ≠ ".") : Passes (acceptSymbol symbol) :=
  (accepts_symbol symbol).passes fun t ht => t.passable_of_isSymbol ht hpoint

theorem passes_acceptAnyWord (words : List String) : Passes (acceptAnyWord words) :=
  (accepts_anyWord words).passes fun t ht => by
    obtain ⟨word, -, hword⟩ := List.any_eq_true.1 ht
    exact t.passable_of_isWord hword

theorem consumes_expectWord (word : String) : Consumes (expectWord word) :=
  .of_next ((accepts_word word).expect_next _) fun t => t.passable_of_isWord

theorem consumes_expectSymbol (hpoint : symbol ≠ ".") : Consumes (expectSymbol symbol) :=
  .of_next ((accepts_symbol symbol).expect_next _) fun t ht => t.passable_of_isSymbol ht hpoint

theorem passes_expectSymbol (hpoint : symbol ≠ ".") : Passes (expectSymbol symbol) :=
  (consumes_expectSymbol hpoint).passes

theorem passable_of_isIdentifier (h : t.isIdentifier = true) : t.Passable := by
  refine t.passable_of_kind ?_ ?_
  all_goals
    intro hkind
    simp [Token.isIdentifier, hkind] at h

theorem consumes_identifier : Consumes identifier :=
  .of_next identifier_next fun _ => passable_of_isIdentifier

/-! ### Phrases -/

theorem skip_moved (c : Cursor) (n : Nat) : Moved c (c.skip n) := by
  induction n generalizing c with
  | zero => exact .refl c
  | succ n ih => exact (Moved.next c).trans (ih c.next)

theorem skip_position_le (c : Cursor) (n : Nat) : (c.skip n).position ≤ c.position + n := by
  induction n generalizing c with
  | zero => exact Nat.le_refl _
  | succ n ih =>
    have hnext : c.next.position ≤ c.position + 1 := by
      unfold Cursor.next
      split <;> simp
    have := ih c.next
    show (c.next.skip n).position ≤ _
    omega

/-- The tokens that the words of a phrase cover are words. -/
theorem matchWords_words {words : List String} {index offset : Nat}
    (h : phrase.matchWords c words index offset = some length) {k : Nat} (hk : offset ≤ k)
    (hlt : k < length) : ∃ t, c.peek k = some t ∧ t.kind = .word := by
  fun_induction KeywordPhrase.matchWords phrase c words index offset with
  | case1 => cases h; omega
  | case2 word rest index offset hword ih =>
    obtain ⟨t, hpeek, ht⟩ := (any_eq_true _ _).1 hword
    rcases Nat.eq_or_lt_of_le hk with rfl | hlt'
    · exact ⟨t, hpeek, t.kind_of_isWord ht⟩
    · exact ih h hlt'
  | case3 word rest index offset _ _ ih => exact ih h hk
  | case4 => cases h

theorem matched_words (h : phrase.matched c = some length) {k : Nat} (hlt : k < length) :
    ∃ t, c.peek k = some t ∧ t.kind = .word :=
  matchWords_words (KeywordPhrase.matched_eq_some.1 h).1 (Nat.zero_le k) hlt

/-- A phrase all of whose words are needed covers as many tokens. -/
theorem length_of_matchWords (hoptional : phrase.optional = []) {words : List String}
    {index offset : Nat} (h : phrase.matchWords c words index offset = some length) :
    length = offset + words.length := by
  fun_induction KeywordPhrase.matchWords phrase c words index offset with
  | case1 => cases h; rfl
  | case2 word rest index offset _ ih => rw [ih h, List.length_cons]; omega
  | case3 word rest index offset _ hmissing ih => simp [hoptional] at hmissing
  | case4 => cases h

theorem length_of_matched (hoptional : phrase.optional = []) (h : phrase.matched c = some length) :
    length = phrase.words.length := by
  rw [length_of_matchWords hoptional (KeywordPhrase.matched_eq_some.1 h).1, Nat.zero_add]

theorem passes_acceptPhrase (phrase : KeywordPhrase) : Passes (acceptPhrase phrase) := by
  intro c
  refine .getThen ?_
  rintro d rfl
  cases hmatch : phrase.matched d with
  | none => exact .pure fun e he => he ▸ Passed.refl d
  | some length =>
    intro e b e' he hrun
    cases hrun
    subst he
    have words : ∀ i t, e.position ≤ i → i < (e.skip length).position → e.tokens[i]? = some t →
        t.kind = .word := by
      intro i t hi hlt hit
      have hbound : i < e.position + length := Nat.lt_of_lt_of_le hlt (skip_position_le e length)
      obtain ⟨u, hpeek, hu⟩ := matched_words hmatch (by omega : i - e.position < length)
      rw [Cursor.peek, Nat.add_sub_cancel' hi, hit] at hpeek
      cases hpeek
      exact hu
    refine ⟨⟨skip_moved e length, fun i t hi hlt hit => ?_⟩, fun hlt => ?_⟩
    · rw [words i t hi hlt hit]
      nofun
    · show (e.skip length).afterPoint = false
      have hlt : e.position < (e.skip length).position := hlt
      cases hlast : e.tokens[(e.skip length).position - 1]? with
      | none => simp [Cursor.afterPoint, Cursor.pointAt, (skip_moved e length).tokens, hlast]
      | some t =>
        have hkind := words _ t (by omega) (by omega) hlast
        simp [Cursor.afterPoint, Cursor.pointAt, (skip_moved e length).tokens, hlast,
          Token.isSymbol, hkind]

/-! ### Lists and names -/

theorem passes_afterAccepted {announced : Parser Bool} (ha : Passes announced) (hp : Passes p) :
    Passes (afterAccepted announced p) :=
  passes_of fun c => (ha.step c).bind fun _ =>
    .ite (fun _ => (hp.step c).bind fun _ => .pure fun _ h => h) fun _ => .pure fun _ h => h

theorem passes_collect {p : Parser (Option α)} (hp : Passes p) : Passes (collect p) := by
  have bounded : ∀ n, Passes (collectUpTo p n) := by
    intro n
    induction n with
    | zero => exact fun _ => .failHere _
    | succ n ih =>
      refine passes_of fun c => (hp.step c).bind fun first => ?_
      cases first with
      | some first => exact (ih.step c).bind fun _ => .pure fun _ h => h
      | none => exact .pure fun _ h => h
  exact passes_of fun c => .getThen fun d hd => ((bounded (d.tokens.size + 1)).step c).of
    fun _ he => he ▸ hd

theorem passes_commaSeparated (hp : Passes p) : Passes (commaSeparated p) :=
  passes_of fun c => (hp.step c).bind fun _ =>
    ((passes_collect (passes_afterAccepted (passes_acceptSymbol (by decide)) hp)).step c).bind
      fun _ => .pure fun _ h => h

end Parser

namespace Grammar

open SqlSignature.Cursor SqlSignature.Parser

/-! ### Parts of rules

What the rules of the grammar go on with after a choice, where it is the same whichever way the
choice went. Each part has a name here, so that it is looked at once. -/

/-- The name of a table after its point, if there is one. -/
def tableNameRest (withAlias : Bool) (schema : Option String) (name : String) :
    Parser TableName := do
  let label ← if withAlias then aliasName false else pure none
  return { schema, name, label }

/-- What follows the words of a predicate. -/
def worded (g : Grammar) (start : Nat) (operand : Expr) (negated : Bool) :
    Parser (Option Expr) := do
  if ← acceptWord "IN" then
    return some (← membership g start operand negated)
  else if ← acceptWord "BETWEEN" then
    let low ← g.tier .bitOr
    expectWord "AND"
    let high ← g.tier .bitOr
    return some (← finish start (.between operand low high negated))
  else if ← acceptWord "LIKE" then
    let pattern ← g.tier .bitOr
    let escape ← afterAccepted (acceptWord "ESCAPE") g.primary
    return some (← finish start (.like operand pattern escape negated))
  else if ← acceptAnyWord ["REGEXP", "RLIKE"] then
    let right ← g.tier .bitOr
    let test ← combine .regexp operand right
    if negated then return some (← finish start (.unary .not test)) else return some test
  else return none

theorem wordPredicate?_eq (g : Grammar) (operand : Expr) : wordPredicate? g operand = (do
    let c ← get
    if negatedPredicateAt c then do
      advance
      worded g operand.span.start operand (negatedPredicateAt c)
    else worded g operand.span.start operand (negatedPredicateAt c)) := rfl

/-- A choice after its operand. -/
def choiceRest (g : Grammar) (start : Nat) (operand : Option Expr) : Parser Expr := do
  let branches ← collect (afterAccepted (acceptWord "WHEN") (branch g))
  if branches.isEmpty then failHere .caseWithoutWhen
  let otherwise ← afterAccepted (acceptWord "ELSE") g.expr
  expectWord "END"
  finish start (.choice operand branches otherwise)

/-- What the arguments of a call are sorted by. -/
def argumentKeys (g : Grammar) : Parser (List Expr) := do
  let keys ← commaSeparated g.expr
  let _ ← acceptAnyWord ["ASC", "DESC"]
  return keys

/-- A bound value after its mark. -/
def placeholderRest (start : Nat) : Parser Expr := do
  let ordinal ← freshPlaceholder
  finish start (.placeholder ordinal)

/-- An assignment after its column. -/
def assignmentRest (g : Grammar) (pivot : Nat) (table : Option String) (column : String) :
    Parser Assignment := do
  expectSymbol "="
  let value ← g.expr
  return { table, column, value, span := (← get).spanFrom pivot }

/-! ### Tables and types -/

theorem passes_aliasName (allowString : Bool) : Passes (aliasName allowString) := by
  refine passes_of fun c => ((passes_acceptWord "AS").step c).bind fun explicit => .getThen ?_
  intro d hd
  cases hcur : d.current with
  | none => exact .ite (fun _ => .failHere _) fun _ => .pure fun _ he => he ▸ hd
  | some token =>
    refine .ite (fun h => ?_) fun _ => .ite (fun _ => .failHere _) fun _ =>
      .pure fun _ he => he ▸ hd
    refine (advance_consumes hcur (token.passable_of_kind ?_ ?_)).bind fun _ =>
      .pure fun _ he => hd.trans he.1
    all_goals
      intro hkind
      simp [canBeAlias, hkind] at h

/-- A name after a point. -/
theorem passes_member : Passes (afterAccepted (acceptSymbol ".") identifier) := by
  refine passes_of fun c => (acceptPoint c).bind fun point => ?_
  cases point with
  | true => exact (consumes_identifier.after_point c).bind fun _ => .pure fun _ h => h
  | false => exact .pure fun _ h => h

theorem passes_tableName (withAlias : Bool) : Passes (tableName withAlias) := by
  refine passes_of fun c => (consumes_identifier.passes.step c).bind fun first =>
    (acceptPoint c).bind fun qualified => ?_
  have ending : ∀ schema name,
      Ensures (Passed c) (tableNameRest withAlias schema name) fun _ => Passed c := by
    intro schema name
    refine .ite (fun _ => ?_) fun _ => .pure fun _ h => h
    exact ((passes_aliasName false).step c).bind fun _ => .pure fun _ h => h
  cases qualified with
  | true => exact (consumes_identifier.after_point c).bind fun name => ending (some first) name
  | false => exact ending none first

/-- The words that belong to the name of a type. -/
theorem passes_castTarget (name : String) : Passes (castTarget name) := by
  unfold castTarget
  split
  case h_1 | h_2 =>
    exact passes_of fun c => ((passes_acceptWord _).step c).bind fun _ =>
      ((passes_acceptWord _).step c).bind fun _ => .pure fun _ h => h
  case h_6 =>
    exact passes_of fun c => ((passes_acceptWord _).step c).bind fun _ => .pure fun _ h => h
  all_goals exact passes_of fun c => .pure fun _ h => h

/-- What is skipped up to a symbol is not looked at. -/
theorem moved_skipToUpTo (symbol : String) (n : Nat) (c : Cursor) :
    Ensures (Moved c) (skipToUpTo symbol n) fun _ => Moved c := by
  induction n with
  | zero => exact .pure fun _ h => h
  | succ n ih =>
    refine .getThen fun d hd => .ite (fun _ => .pure fun _ he => he ▸ hd) fun _ => ?_
    refine Ensures.bind (Q := fun _ => Moved c) ?_ fun _ => ih
    intro e _ e' he hrun
    cases hrun
    exact hd.trans (he ▸ Moved.next e)

theorem moved_skipTo (symbol : String) (c : Cursor) :
    Ensures (Moved c) (skipTo symbol) fun _ => Moved c :=
  .getThen fun d hd => (moved_skipToUpTo symbol (d.tokens.size + 1) c).of fun _ he => he ▸ hd

theorem moved_typeName (c : Cursor) : Ensures (Moved c) typeName fun _ => Moved c := by
  refine (consumes_identifier.passes.moved c).bind fun name =>
    ((passes_castTarget _).moved c).bind fun target =>
      ((passes_acceptSymbol (by decide)).moved c).bind fun _ => ?_
  refine .ite (fun _ => ?_) fun _ => .pure fun _ h => h
  exact (moved_skipTo ")" c).bind fun _ =>
    ((passes_expectSymbol (by decide)).moved c).bind fun _ => .pure fun _ h => h

/-- Where a phrase of `NOT` and a word of a predicate stands, the word is next but one. -/
theorem word_of_standsAt {phrase : KeywordPhrase} {word : String}
    (hwords : phrase.words = ["NOT", word]) (hoptional : phrase.optional = [])
    (hmem : word ∈ ["IN", "BETWEEN", "LIKE", "REGEXP"]) {c : Cursor}
    (h : phrase.standsAt c = true) :
    ∃ t u, c.current = some t ∧ t.isWord "NOT" = true ∧ c.next.current = some u ∧
      ["IN", "BETWEEN", "LIKE", "REGEXP"].any u.isWord = true := by
  obtain ⟨length, hmatch⟩ := Option.isSome_iff_exists.1 h
  have hmatch := (KeywordPhrase.matched_eq_some.1 hmatch).1
  rw [hwords] at hmatch
  simp only [KeywordPhrase.matchWords, hoptional, List.contains_nil, Bool.false_eq_true, if_false,
    ite_none_right_eq_some] at hmatch
  obtain ⟨hnot, hword, -⟩ := hmatch
  obtain ⟨t, ht, hisNot⟩ := (any_eq_true _ _).1 hnot
  obtain ⟨u, hu, hisWord⟩ := (any_eq_true _ _).1 hword
  refine ⟨t, u, ht, hisNot, ?_, List.any_eq_true.2 ⟨word, hmem, hisWord⟩⟩
  rw [Cursor.current, Cursor.next_tokens, Cursor.next_position ht]
  exact hu

theorem word_of_negatedPredicateAt {c : Cursor} (h : negatedPredicateAt c = true) :
    ∃ t u, c.current = some t ∧ t.isWord "NOT" = true ∧ c.next.current = some u ∧
      ["IN", "BETWEEN", "LIKE", "REGEXP"].any u.isWord = true := by
  simp only [negatedPredicateAt, Bool.or_eq_true] at h
  rcases h with ((hin | hbetween) | hlike) | hregexp
  · exact word_of_standsAt rfl rfl (by decide) hin
  · exact word_of_standsAt rfl rfl (by decide) hbetween
  · exact word_of_standsAt rfl rfl (by decide) hlike
  · exact word_of_standsAt rfl rfl (by decide) hregexp

end Grammar

end SqlSignature

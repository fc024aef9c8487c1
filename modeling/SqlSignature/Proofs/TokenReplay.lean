import SqlSignature.Proofs.CursorMoves
import SqlSignature.Proofs.ParserReplay
/-!
# SqlSignature.Proofs.TokenReplay

The parsers that every rule is made of are replayed: those that pass tokens, phrases and names, that
build nodes, and that repeat a step. A parser that looks at tokens without passing them has to be
sure that they lie in the stretch; after the copy it finds nothing, or `AND`.
-/

open Option

namespace SqlSignature

open Cursor

namespace Parser

open Passage

/-! ### Tokens -/

section

variable {s : Passage} {c d : Cursor}

/-- Passing a token that is there. -/
theorem replaysAt_advance {t : Token} (h : c.current = some t) :
    ReplaysAt s 1 0 0 c d advance advance :=
  .of_run rfl rfl (next_text c) (next_tokens c) (next_position h)
    fun hlevel hend => ⟨rfl, hlevel.next hend⟩

/-- What follows a token that is there starts after it. -/
theorem replaysAt_advanceThen {α : Type} [Viewed α] {n m lo : Nat} {p q : Parser α} {t : Token}
    (h : c.current = some t) (hnext : ReplaysAt s (n - 1) m (lo + 1) c.next d.next p q) :
    ReplaysAt s n m lo c d (advance >>= fun _ => p) (advance >>= fun _ => q) := by
  refine (replaysAt_advance h).bindRun (r := n - 1) (by omega) (fun _ _ hrun => ?_)
    fun _ _ _ _ hrun hrun' _ _ _ _ _ => ?_
  · cases hrun
    exact hnext.moves
  · cases hrun
    cases hrun'
    exact hnext.weaken (by omega)

theorem blind_anyWord {words : List String} (h : lackAnd words = true) :
    Blind fun t => words.any t.isWord where
  same _ _ htu := List.any_congr rfl fun word => htu.isWord word
  and u hu := List.any_eq_false.2 fun word hword =>
    Bool.eq_false_iff.1 ((blind_isWord (ne_and_of_lackAnd h word hword)).and u hu)

section

variable {test : Token → Bool} {a : Parser Bool} (h : Accepts test a)

include h

theorem Accepts.announces (htest : Blind test) : Announces s 0 a a where
  answers c := ⟨_, _, h c, by split <;> simp⟩
  moves c b c' hc hrun := by
    rw [h] at hrun
    cases hrun
    cases hc₀ : c.current.any test with
    | true =>
      obtain ⟨t, hcur, -⟩ := (any_eq_true _ _).1 hc₀
      rw [if_pos rfl, next_tokens, next_position hcur]
      exact ⟨hc, Nat.le_refl _⟩
    | false => exact ⟨hc, Nat.le_refl _⟩
  replays c d hlevel b c' hrun hend := by
    rw [h] at hrun
    cases hrun
    cases hc₀ : c.current.any test with
    | true =>
      obtain ⟨t, hcur, -⟩ := (any_eq_true _ _).1 hc₀
      rw [hc₀, if_pos rfl, next_position hcur] at hend
      have hd : d.current.any test = true := (foreseen_peek htest 0).forth hlevel hend hc₀
      exact ⟨d.next, by rw [h, hd]; rfl, hlevel.next hend⟩
    | false =>
      have hd : d.current.any test = false := hlevel.any_current_eq_false htest hc₀
      exact ⟨d, by rw [h, hd]; rfl, hlevel⟩

/-- A choice by the next token, which is known. -/
theorem Accepts.iteAt {α : Type} [Viewed α] {n m lo : Nat} {p p' q q' : Parser α}
    (htest : Blind test) (htrue : c.current.any test = true → Replays s (n - 1) m (lo + 1) p q)
    (hfalse : c.current.any test = false → ReplaysAt s n m lo c d p' q') :
    ReplaysAt s n m lo c d (a >>= fun x => if x = true then p else p')
      (a >>= fun x => if x = true then q else q') := by
  cases hc₀ : c.current.any test with
  | true =>
    refine (h.announces htest).bindAt fun x c₁ ha => ?_
    rw [h, hc₀] at ha
    cases ha
    simpa using htrue hc₀
  | false =>
    have hp : (a >>= fun x => if x = true then p else p') c = p' c := by
      rw [run_iteAccepts h, hc₀]
      rfl
    refine .of_level (by rw [Moves, hp]; exact (hfalse hc₀).moves) fun hlevel _ => ?_
    refine (hfalse hc₀).congr hp ?_
    rw [run_iteAccepts h, hlevel.any_current_eq_false htest hc₀]
    rfl

/-- A token that has to be the right one is in the stretch, and may be any. -/
theorem Accepts.expect (hsame : ∀ t u : Token, t.Alike u → test u = test t) {fault : ParseFault}
    (hfault : fault ≠ .nestingTooDeep ∧ fault ≠ .invalidNumber) :
    Replays s 1 0 0 (a >>= fun x => if x = true then pure () else failHere fault)
      (a >>= fun x => if x = true then pure () else failHere fault) := by
  intro c d
  cases hc₀ : c.current.any test with
  | false =>
    refine .failed (by rw [run_iteAccepts h, hc₀]; rfl) (c.raisedOver c.position hfault)
      fun hs hlevel => ?_
    have hd : d.current.any test = false :=
      (hlevel.any_peek hsame (k := 0) (.inr hs)).trans hc₀
    exact ⟨d.errorFrom fault d.position, d, by rw [run_iteAccepts h, hd]; rfl, rfl⟩
  | true =>
    obtain ⟨t, hcur, -⟩ := (any_eq_true _ _).1 hc₀
    have hp : (a >>= fun x => if x = true then pure () else failHere fault) c = advance c := by
      rw [run_iteAccepts h, hc₀]
      rfl
    refine .of_level (by rw [Moves, hp]; exact (replaysAt_advance hcur (d := d)).moves)
      fun hlevel hend => (replaysAt_advance hcur).congr hp ?_
    have hd : d.current.any test = true := (hlevel.any_peek hsame (k := 0) hend).trans hc₀
    rw [run_iteAccepts h, hd]
    rfl

end

theorem announces_acceptWord (word : String) (h : lackAnd [word] = true) :
    Announces s 0 (acceptWord word) (acceptWord word) :=
  (accepts_word word).announces (blind_isWord (ne_and_of_lackAnd h word List.mem_cons_self))

theorem announces_acceptSymbol (symbol : String) :
    Announces s 0 (acceptSymbol symbol) (acceptSymbol symbol) :=
  (accepts_symbol symbol).announces (blind_isSymbol symbol)

theorem announces_acceptAnyWord (words : List String) (h : lackAnd words = true) :
    Announces s 0 (acceptAnyWord words) (acceptAnyWord words) :=
  (accepts_anyWord words).announces (blind_anyWord h)

theorem replays_expectWord (word : String) : Replays s 1 0 0 (expectWord word) (expectWord word) :=
  (accepts_word word).expect (fun _ _ htu => htu.isWord word) (by simp)

theorem replays_expectSymbol (symbol : String) :
    Replays s 1 0 0 (expectSymbol symbol) (expectSymbol symbol) :=
  (accepts_symbol symbol).expect (blind_isSymbol symbol).same (by simp)

theorem replays_identifier : Replays s 1 0 0 identifier identifier := by
  refine replays_get fun c d => ?_
  generalize hx : c.current = x
  generalize hy : d.current = y
  apply ReplaysAt.current hx hy (Nat.le_refl 1)
  · exact replays_failHere (by simp) c d
  · intro t u htu hcur
    refine .iteSame (by rw [htu.isIdentifier]) ?_ (replays_failHere (by simp) c d)
    exact (replaysAt_advance hcur).bind fun _ _ _ => replays_pure htu.name (by omega)

/-- What follows a name starts after it. -/
theorem replaysAt_identifierThen {α : Type} [Viewed α] {n m lo : Nat} {k l : String → Parser α}
    (hnext : ∀ name name', s.Agrees name name' →
      ReplaysAt s (n - 1) m (lo + 1) c.next d.next (k name) (l name')) :
    ReplaysAt s n m lo c d (identifier >>= k) (identifier >>= l) := by
  refine (replays_identifier c d).bindRun (r := n - 1) (by omega) (fun name _ hname => ?_)
    fun name name' _ _ hname hname' hagree _ _ _ _ => ?_
  · obtain ⟨rfl, -⟩ := identifier_next c rfl hname
    exact (hnext name _ (s.agrees_view name)).moves
  · obtain ⟨rfl, -⟩ := identifier_next c rfl hname
    obtain ⟨rfl, -⟩ := identifier_next d rfl hname'
    exact (hnext name name' hagree).weaken (by omega)

end

end Parser

/-! ### Phrases -/

namespace KeywordPhrase

variable {words : List String} {length : Nat}

/-- Whether no word of a phrase is `AND`, and its last word may not be missing. -/
def endsPlainly (phrase : KeywordPhrase) : Bool :=
  Passage.lackAnd phrase.words && !phrase.words.isEmpty &&
    phrase.optional.all fun index => decide (index + 1 < phrase.words.length)

theorem le_of_matchWords {phrase : KeywordPhrase} {c : Cursor} {index offset : Nat}
    (h : phrase.matchWords c words index offset = some length) : offset ≤ length := by
  fun_induction KeywordPhrase.matchWords phrase c words index offset with
  | case1 => cases h; exact Nat.le_refl _
  | case2 word rest index offset _ ih => exact Nat.le_of_succ_le (ih h)
  | case3 word rest index offset _ _ ih => exact ih h
  | case4 => cases h

section

variable {phrase : KeywordPhrase} (hlast : ∀ i ∈ phrase.optional, i + 1 < phrase.words.length)

include hlast

/-- The last word of a phrase covers a token. -/
theorem lt_of_matchWords {c : Cursor} {index offset : Nat}
    (hindex : index + words.length = phrase.words.length) (hne : words ≠ [])
    (h : phrase.matchWords c words index offset = some length) : offset < length := by
  fun_induction KeywordPhrase.matchWords phrase c words index offset with
  | case1 => exact absurd rfl hne
  | case2 word rest index offset _ _ => exact le_of_matchWords h
  | case3 word rest index offset _ hoptional ih =>
    have hmore := hlast index (by simpa using hoptional)
    rw [List.length_cons] at hindex
    refine ih (by omega) (fun hrest => ?_) h
    subst hrest
    simp at hindex
    omega
  | case4 => cases h

variable {s : Passage} {c d : Cursor} (hlevel : s.Level c d)

include hlevel

omit hlast in
theorem matchWords_to_copy (hwords : ∀ word ∈ words, Text.sameName word "AND" = false)
    {index offset : Nat} (hend : s.Reaches (c.position + length))
    (h : phrase.matchWords c words index offset = some length) :
    phrase.matchWords d words index offset = some length := by
  fun_induction KeywordPhrase.matchWords phrase c words index offset with
  | case1 => exact h
  | case2 word rest index offset hword ih =>
    have hlt : offset + 1 ≤ length := le_of_matchWords h
    have hd := (foreseen_peek (Passage.blind_isWord (hwords word (.head _))) offset).forth hlevel
      (hend.mono (by omega)) hword
    rw [matchWords, if_pos hd]
    exact ih (fun w hw => hwords w (.tail _ hw)) h
  | case3 word rest index offset hword hoptional ih =>
    have hle : offset ≤ length := le_of_matchWords h
    have hd : ¬(d.peek offset).any (·.isWord word) = true := fun hd =>
      hword ((foreseen_peek (Passage.blind_isWord (hwords word (.head _))) offset).back hlevel
        (hend.mono (by omega)) hd)
    rw [matchWords, if_neg hd, if_pos hoptional]
    exact ih (fun w hw => hwords w (.tail _ hw)) h
  | case4 => cases h

/-- A phrase that stands at the copy lies in the stretch: after the copy there is none of its
words, and its last word is needed. -/
theorem matchWords_of_copy (hwords : ∀ word ∈ words, Text.sameName word "AND" = false)
    {index offset : Nat} (hindex : index + words.length = phrase.words.length)
    (hoffset : c.position + offset ≤ s.stop)
    (h : phrase.matchWords d words index offset = some length) :
    phrase.matchWords c words index offset = some length ∧ c.position + length ≤ s.stop := by
  fun_induction KeywordPhrase.matchWords phrase d words index offset with
  | case1 =>
    cases h
    exact ⟨rfl, hoffset⟩
  | case2 word rest index offset hword ih =>
    obtain ⟨hc, hlt⟩ :=
      hlevel.of_copy (Passage.blind_isWord (hwords word (.head _))) hoffset hword
    rw [matchWords, if_pos hc]
    rw [List.length_cons] at hindex
    exact ih (fun w hw => hwords w (.tail _ hw)) (by omega) hlt h
  | case3 word rest index offset hword hoptional ih =>
    have hmore := hlast index (by simpa using hoptional)
    rw [List.length_cons] at hindex
    obtain ⟨hrest, hend⟩ := ih (fun w hw => hwords w (.tail _ hw)) (by omega) hoffset h
    have hlt : offset < length := by
      refine lt_of_matchWords hlast (by omega) (fun hnil => ?_) h
      subst hnil
      simp at hindex
      omega
    have hc : ¬(c.peek offset).any (·.isWord word) = true := fun hc =>
      hword (hlevel.to_copy (Passage.blind_isWord (hwords word (.head _))) (by omega) hc)
    rw [matchWords, if_neg hc, if_pos hoptional]
    exact ⟨hrest, hend⟩
  | case4 => cases h

end

section

variable {phrase : KeywordPhrase} (hplain : phrase.endsPlainly = true)

include hplain

theorem words_ne_and : ∀ word ∈ phrase.words, Text.sameName word "AND" = false := by
  simp only [endsPlainly, Bool.and_eq_true] at hplain
  exact Passage.ne_and_of_lackAnd hplain.1.1

theorem words_ne_nil : phrase.words ≠ [] := by
  simp only [endsPlainly, Bool.and_eq_true, Bool.not_eq_true', List.isEmpty_eq_false_iff] at hplain
  exact hplain.1.2

theorem last_needed : ∀ i ∈ phrase.optional, i + 1 < phrase.words.length := by
  simp only [endsPlainly, Bool.and_eq_true, List.all_eq_true, decide_eq_true_eq] at hplain
  exact hplain.2

theorem matched_pos {c : Cursor} (h : phrase.matched c = some length) : 0 < length :=
  lt_of_matchWords (last_needed hplain) (Nat.zero_add _) (words_ne_nil hplain)
    (matched_eq_some.1 h).1

variable {s : Passage} {c d : Cursor} (hlevel : s.Level c d)

include hlevel

theorem matched_to_copy (h : phrase.matched c = some length)
    (hend : s.Reaches (c.position + length + phrase.delimiter.isSome.toNat)) :
    phrase.matched d = some length := by
  obtain ⟨hwords, hdelimiter⟩ := matched_eq_some.1 h
  refine matched_eq_some.2 ⟨matchWords_to_copy hlevel (words_ne_and hplain)
    (hend.mono (Nat.le_add_right _ _)) hwords, fun symbol hsymbol => ?_⟩
  have hsome : phrase.delimiter.isSome.toNat = 1 := by rw [Option.mem_def.1 hsymbol]; rfl
  rw [hsome] at hend
  exact (foreseen_peek (Passage.blind_isSymbol symbol) length).forth hlevel hend
    (hdelimiter symbol hsymbol)

theorem matched_of_copy (h : phrase.matched d = some length) :
    phrase.matched c = some length ∧
      c.position + length + phrase.delimiter.isSome.toNat ≤ s.stop := by
  obtain ⟨hwords, hdelimiter⟩ := matched_eq_some.1 h
  obtain ⟨hwords', hend⟩ := matchWords_of_copy (last_needed hplain) hlevel (words_ne_and hplain)
    (Nat.zero_add _) hlevel.inside hwords
  cases hsymbol : phrase.delimiter with
  | none => exact ⟨matched_eq_some.2 ⟨hwords', by rw [hsymbol]; nofun⟩, hend⟩
  | some symbol =>
    obtain ⟨hc, hlt⟩ := hlevel.of_copy (Passage.blind_isSymbol symbol) hend
      (hdelimiter symbol hsymbol)
    refine ⟨matched_eq_some.2 ⟨hwords', fun symbol' hsymbol' => ?_⟩, hlt⟩
    cases hsymbol.symm.trans hsymbol'
    exact hc

omit hlevel in
/-- Whether a phrase stands at a place. -/
theorem foreseen_standsAt (hoptional : phrase.optional = []) :
    Foreseen s (phrase.words.length + phrase.delimiter.isSome.toNat) 0 c d
      (phrase.standsAt c = true) (phrase.standsAt d = true) where
  forth hlevel hend h := by
    obtain ⟨length, hc⟩ := Option.isSome_iff_exists.1 h
    have hlength := Parser.length_of_matched hoptional hc
    exact Option.isSome_iff_exists.2
      ⟨length, matched_to_copy hplain hlevel hc (hend.mono (by omega))⟩
  back hlevel _ h := by
    obtain ⟨length, hd⟩ := Option.isSome_iff_exists.1 h
    exact Option.isSome_iff_exists.2 ⟨length, (matched_of_copy hplain hlevel hd).1⟩

end

end KeywordPhrase

theorem Cursor.skip_position {c : Cursor} {n : Nat} (h : ∀ k < n, ∃ t, c.peek k = some t) :
    (c.skip n).position = c.position + n := by
  induction n generalizing c with
  | zero => rfl
  | succ n ih =>
    obtain ⟨t, ht⟩ := h 0 (Nat.zero_lt_succ n)
    have hnext := next_position (c := c) ht
    have hrest : ∀ k < n, ∃ t, c.next.peek k = some t := by
      intro k hk
      obtain ⟨u, hu⟩ := h (k + 1) (Nat.succ_lt_succ hk)
      refine ⟨u, ?_⟩
      rw [Cursor.peek, next_tokens, hnext, Nat.add_assoc, Nat.add_comm 1 k]
      exact hu
    rw [Cursor.skip, ih hrest, hnext]
    omega

theorem Passage.Level.skip {s : Passage} {c d : Cursor} (h : s.Level c d) {n : Nat}
    (hn : s.Reaches (c.position + n)) : s.Level (c.skip n) (d.skip n) := by
  induction n generalizing c d with
  | zero => exact h
  | succ n ih =>
    have hnext : c.next.position ≤ c.position + 1 := Parser.skip_position_le c 1
    exact ih (h.next (hn.mono (by omega))) (hn.mono (by omega))

namespace Parser

open Passage

theorem run_acceptPhrase (phrase : KeywordPhrase) (c : Cursor) :
    acceptPhrase phrase c = match phrase.matched c with
      | some length => .ok true (c.skip length)
      | none => .ok false c := by
  change (match phrase.matched c with
    | some length => (do modify (Cursor.skip · length); return true : Parser Bool)
    | none => return false) c = _
  cases phrase.matched c <;> rfl

theorem skip_matched {phrase : KeywordPhrase} {c : Cursor} {length : Nat}
    (h : phrase.matched c = some length) : (c.skip length).position = c.position + length :=
  skip_position fun _ hk => (matched_words h hk).imp fun _ => And.left

theorem announces_acceptPhrase {s : Passage} (phrase : KeywordPhrase)
    (h : phrase.endsPlainly = true) :
    Announces s phrase.delimiter.isSome.toNat (acceptPhrase phrase) (acceptPhrase phrase) where
  answers c := by
    rw [run_acceptPhrase]
    cases phrase.matched c with
    | none => exact ⟨_, _, rfl, rfl⟩
    | some length => exact ⟨_, _, rfl, (skip_moved c length).text⟩
  moves c b c' hc hrun := by
    rw [run_acceptPhrase] at hrun
    cases hmatch : phrase.matched c with
    | none =>
      rw [hmatch] at hrun
      cases hrun
      exact ⟨hc, Nat.le_refl _⟩
    | some length =>
      rw [hmatch] at hrun
      cases hrun
      have hpos := phrase.matched_pos h hmatch
      rw [(skip_moved c length).tokens, skip_matched hmatch, Bool.toNat_true]
      exact ⟨hc, by omega⟩
  replays c d hlevel b c' hrun hend := by
    rw [run_acceptPhrase] at hrun
    cases hmatch : phrase.matched c with
    | none =>
      rw [hmatch] at hrun
      cases hrun
      refine ⟨d, ?_, hlevel⟩
      rw [run_acceptPhrase]
      cases hcopy : phrase.matched d with
      | none => rfl
      | some length => cases hmatch.symm.trans (phrase.matched_of_copy h hlevel hcopy).1
    | some length =>
      rw [hmatch] at hrun
      cases hrun
      rw [skip_matched hmatch, Bool.toNat_true, Nat.one_mul] at hend
      refine ⟨d.skip length, ?_, hlevel.skip (hend.mono (Nat.le_add_right _ _))⟩
      rw [run_acceptPhrase, phrase.matched_to_copy h hlevel hmatch hend]

/-- A phrase of words alone. -/
theorem announces_acceptWords {s : Passage} (phrase : KeywordPhrase)
    (h : phrase.endsPlainly = true) (hdelimiter : phrase.delimiter = none) :
    Announces s 0 (acceptPhrase phrase) (acceptPhrase phrase) := by
  have hannounces := announces_acceptPhrase (s := s) phrase h
  rw [hdelimiter] at hannounces
  exact hannounces

/-! ### Nodes -/

section

variable {s : Passage}

theorem replays_freshPlaceholder : Replays s 0 0 0 freshPlaceholder freshPlaceholder := fun c d =>
  .of_run rfl rfl rfl rfl rfl fun hlevel _ => by
    have hordinal : s.Agrees c.placeholders d.placeholders := by
      rw [hlevel.placeholders]
      exact s.fits.ordinal d.placeholders
    exact ⟨hordinal, hlevel.source, hlevel.copy, hlevel.place, hlevel.inside, hlevel.nodes,
      congrArg (· + 1) hlevel.placeholders⟩

theorem replays_build {span span' : Span} {form form' : ExprForm} (h : s.Agrees form form') :
    Replays s 0 0 0 (build span form) (build span' form') := fun _ _ =>
  .of_run rfl rfl rfl rfl rfl fun hlevel _ =>
    ⟨congrArg₂ (Expr.node · ⟨0, 0⟩ ·) hlevel.nodes h, hlevel.built⟩

theorem replays_finish {n m lo : Nat} {start start' : Nat} {form form' : ExprForm}
    (h : s.Agrees form form') (hn : n = 0) :
    Replays s n m lo (finish start form) (finish start' form') :=
  replays_get fun c d => (replays_build h c d).weaken (by omega)

theorem replays_someFinish {n m lo : Nat} {start start' : Nat} {form form' : ExprForm}
    (h : s.Agrees form form') (hn : n = 0) :
    Replays s n m lo (do return some (← finish start form))
      (do return some (← finish start' form')) :=
  replays_get fun c d => (replays_build h c d).bind fun _ _ hagree =>
    replays_pure hagree.some (by omega)

theorem replays_combine (op : BinaryOp) {left left' right right' : Expr}
    (hleft : s.Agrees left left') (hright : s.Agrees right right') :
    Replays s 0 0 0 (combine op left right) (combine op left' right') :=
  replays_build (congrArg₂ (ExprForm.binary op) hleft hright)

end

/-! ### Repetition -/

section

variable {α : Type} [Viewed α] {s : Passage} {n m lo : Nat}

/-- A step of a repetition: it is replayed, and passes a token if it has a result. -/
structure RoundsAt (s : Passage) (m lo : Nat) (c d : Cursor) (p q : Parser (Option α)) : Prop where
  replays : ReplaysAt s 0 m lo c d p q
  passes : ∀ a c', c.tokens = s.source → p c = .ok (some a) c' → c.position < c'.position

def Rounds (s : Passage) (m lo : Nat) (p q : Parser (Option α)) : Prop :=
  ∀ c d, RoundsAt s m lo c d p q

variable {p q : Parser (Option α)} {c d : Cursor} {fuel fuel' : Nat}
  {step : Expr → Parser (Option Expr)}

theorem Rounds.weaken {m' lo' : Nat} (h : Rounds s m lo p q) (hle : m ≤ m' ∧ lo ≤ lo') :
    Rounds s m' lo' p q :=
  fun c d => ⟨(h c d).replays.weaken ⟨Nat.le_refl 0, hle⟩, (h c d).passes⟩

theorem Rounds.replays (h : Rounds s m lo p q) : Replays s 0 m lo p q :=
  fun c d => (h c d).replays

theorem rounds_get {k l : Cursor → Parser (Option α)}
    (h : ∀ c d, RoundsAt s m lo c d (k c) (l d)) : Rounds s m lo (get >>= k) (get >>= l) :=
  fun c d => ⟨(h c d).replays.congr rfl rfl, (h c d).passes⟩

theorem RoundsAt.of_pos
    (h : ReplaysAt s n m lo c d p q) (hn : 1 ≤ n) : RoundsAt s m lo c d p q where
  replays := h.weaken (by omega)
  passes a c' hc hrun := Nat.lt_of_lt_of_le (by omega) (h.moves (some a) c' hc hrun).2

/-- What is read at the copy counts only where the copy is level with the stretch. -/
theorem RoundsAt.of_level {q' : Parser (Option α)} (h : RoundsAt s m lo c d p q)
    (hq : s.Level c d → q' d = q d) : RoundsAt s m lo c d p q' where
  replays := .of_level h.replays.moves fun hlevel _ => h.replays.congr rfl (hq hlevel)
  passes := h.passes

/-- A step that is taken if the next token is taken for something. -/
theorem RoundsAt.look {γ : Type} [Viewed γ] {look : Token → Option γ}
    {k l : Option γ → Parser (Option α)} {x y : Option γ} (hx : c.current.bind look = x)
    (hy : d.current.bind look = y) (hlook : ∀ t u, s.Matches t u → s.Agrees (look t) (look u))
    (hand : s.slack ≤ m ∨ ∀ u, u.isWord "AND" = true → look u = none)
    (hsome : ∀ r r' t, s.Agrees r r' → c.current = some t →
      ReplaysAt s 1 m lo c d (k (some r)) (l (some r')))
    (hnone : RoundsAt s m lo c d (k none) (l none)) : RoundsAt s m lo c d (k x) (l y) where
  replays := .look hx hy hlook (by rwa [Nat.zero_add])
    (fun r r' t hr ht => (hsome r r' t hr ht).weaken (by omega)) hnone.replays
  passes a c' hc hrun := by
    cases x with
    | some r =>
      obtain ⟨t, ht, -⟩ := Option.bind_eq_some_iff.1 hx
      exact ((hsome r _ t (s.agrees_view r) ht).moves (some a) c' hc hrun).2
    | none => exact hnone.passes a c' hc hrun

/-- A step, and what follows. If the step has a result, it has passed a token of the copy. -/
theorem RoundsAt.bind {β : Type} [Viewed β] {p q : Parser (Option β)}
    {k l : Option β → Parser α} (h : RoundsAt s m lo c d p q)
    (hnone : Replays s 0 m lo (k none) (l none)) (hmoves : ∀ b c₁, Moves s 0 c₁ (k (some b)))
    (hsome : ∀ b b' c₁ d₁, s.Agrees b b' → d.position < d₁.position → d.position < s.copy.size →
      ReplaysAt s 0 m (lo + 1) c₁ d₁ (k (some b)) (l (some b'))) :
    ReplaysAt s 0 m lo c d (p >>= k) (q >>= l) := by
  refine h.replays.bindRun (r := 0) (by omega) (fun x c₁ _ => ?_)
    fun x y c₁ d₁ hp _ hagree hlevel hlevel₁ _ _ => ?_
  · cases x with
    | none => exact (hnone c₁ d).moves
    | some b => exact hmoves b c₁
  · match x, y, hagree with
    | none, none, _ => exact (hnone c₁ d₁).weaken (by omega)
    | some b, some b', hagree =>
      -- where the step has a result, the copy is read further on
      have hlt := h.passes b c₁ hlevel.source hp
      have hfurther := hlevel.position_add hlevel₁ (n := 1) hlt
      have hinside := hlevel.position_lt (Nat.lt_of_lt_of_le hlt hlevel₁.inside)
      exact (hsome b b' c₁ d₁ (Option.some.inj hagree) hfurther hinside).weaken (by omega)

theorem rounds_none : Rounds s m lo (pure none : Parser (Option α)) (pure none) := fun c d =>
  ⟨replays_pure agree_none rfl c d, fun a c' _ hrun => by cases hrun⟩

/-- A step that is announced, or else another one. -/
theorem Rounds.ite {m₁ : Nat} {a b : Parser Bool} {p' q' : Parser (Option α)}
    (h : Announces s m₁ a b) (hnext : Replays s (m₁ - m) m (lo + 1) p q)
    (hrest : Rounds s m lo p' q') :
    Rounds s m lo (a >>= fun x => if x = true then p else p')
      (b >>= fun x => if x = true then q else q') := fun c d => {
  replays := h.ite (hnext.weaken (by omega)) hrest.replays c d
  passes := fun r c' hc hrun => by
    obtain ⟨x, c₁, ha, hk⟩ := bind_eq_ok.1 hrun
    obtain ⟨htokens, hpassed⟩ := h.moves c x c₁ hc ha
    cases x with
    | true =>
      have := ((hnext c₁ c).moves (some r) c' htokens hk).2
      rw [Bool.toNat_true] at hpassed
      omega
    | false =>
      have := (hrest c₁ c).passes r c' htokens hk
      omega }

/-- A step, or else another one. -/
theorem Rounds.orElse {k l : Option α → Parser (Option α)} (h : Rounds s m lo p q)
    (hk : ∀ a, k (some a) = pure (some a)) (hl : ∀ a, l (some a) = pure (some a))
    (hrest : Rounds s m lo (k none) (l none)) :
    Rounds s m lo (p >>= k) (q >>= l) := fun c d => {
  replays := by
    refine (h c d).replays.bind fun a b hagree => ?_
    match a, b, hagree with
    | none, none, _ => exact hrest.replays.weaken (by omega)
    | some a, some b, hagree =>
      rw [hk, hl]
      exact replays_pure hagree (by omega)
  passes := fun r c' hc hrun => by
    obtain ⟨x, c₁, hp, hnext⟩ := bind_eq_ok.1 hrun
    obtain ⟨htokens, hpassed⟩ := (h c d).replays.moves x c₁ hc hp
    cases x with
    | some a =>
      rw [hk] at hnext
      cases hnext
      exact (h c d).passes r c' hc hp
    | none => exact Nat.lt_of_le_of_lt hpassed ((hrest c₁ d).passes r c' htokens hnext) }

/-- A step that starts with another one, and goes on if that has a result. -/
theorem Rounds.bindSome {β : Type} [Viewed β] {p q : Parser (Option β)}
    {k l : Option β → Parser (Option α)} (h : Rounds s m lo p q)
    (hsome : ∀ a b, s.Agrees a b → Replays s 0 m (lo + 1) (k (some a)) (l (some b)))
    (hk : k none = pure none) (hl : l none = pure none) :
    Rounds s m lo (p >>= k) (q >>= l) := fun c d => {
  replays := (h c d).bind (by rw [hk, hl]; exact replays_pure agree_none rfl)
    (fun a c₁ => (hsome a _ (s.agrees_view a) c₁ d).moves)
    fun a b c₁ d₁ hagree _ _ => hsome a b hagree c₁ d₁
  passes := fun r c' hc hrun => by
    obtain ⟨x, c₁, hp, hnext⟩ := bind_eq_ok.1 hrun
    obtain ⟨htokens, hpassed⟩ := (h c d).replays.moves x c₁ hc hp
    cases x with
    | none =>
      rw [hk] at hnext
      cases hnext
    | some a =>
      have hlt := (h c d).passes a c₁ hc hp
      have := ((hsome a _ (s.agrees_view a) c₁ d).moves (some r) c' htokens hnext).2
      omega }

theorem rounds_afterAccepted {a b : Parser Bool} {p q : Parser α} (h : Announces s 0 a b)
    (hnext : Replays s n m lo p q) :
    Rounds s m (lo - 1) (afterAccepted a p) (afterAccepted b q) :=
  have hnext' : Replays s n m (lo - 1 + 1) p q := hnext.weaken (by omega)
  .ite h (hnext'.bind fun _ _ hagree => replays_pure hagree.some (by omega)) rounds_none

/-- A repetition at the copy has rounds for all tokens there are, and as many as in the stretch if
that is a whole text. -/
structure Fueled (s : Passage) (d : Cursor) (fuel fuel' : Nat) : Prop where
  enough : s.copy.size - d.position < fuel'
  whole : s.Whole → fuel' = fuel

theorem Fueled.next {d' : Cursor} (h : Fueled s d (fuel + 1) (fuel' + 1))
    (hlt : d.position < d'.position) (hinside : d.position < s.copy.size) :
    Fueled s d' fuel fuel' where
  enough := by
    have := h.enough
    omega
  whole hs := Nat.succ.inj (h.whole hs)

theorem fueled_rounds (h : s.Level c d) :
    Fueled s d (c.tokens.size + 1) (d.tokens.size + 1) where
  enough := by
    rw [h.copy]
    omega
  whole hs := by rw [h.copy, h.source, (s.entire hs).2.2.2]

theorem Fueled.exists_succ (h : Fueled s d fuel fuel') : ∃ n, fuel' = n + 1 :=
  Nat.exists_eq_add_one.2 (Nat.zero_lt_of_lt h.enough)

/-- Where no rounds are left, the run fails; over a whole text there always are some. -/
theorem Fueled.failed (h : Fueled s d 0 fuel') {q : Parser α} :
    ReplaysAt s n m lo c d (failHere .nestingTooDeep) q :=
  .exhausted rfl fun hs _ => absurd (h.whole hs ▸ h.enough) (Nat.not_lt_zero _)

omit [Viewed α] in
theorem moves_collectUpTo (h : ∀ c, Moves s 0 c p) (fuel : Nat) (c : Cursor) :
    Moves s 0 c (collectUpTo p fuel) := by
  induction fuel generalizing c with
  | zero =>
    intro _ _ _ hrun
    cases hrun
  | succ fuel ih =>
    refine (h c).bind fun x c₁ _ => ?_
    cases x with
    | none => exact moves_pure
    | some first => exact (ih c₁).bind fun _ _ _ => moves_pure

theorem replaysAt_collectUpTo (h : Rounds s m lo p q) (hfuel : Fueled s d fuel fuel') :
    ReplaysAt s 0 m lo c d (collectUpTo p fuel) (collectUpTo q fuel') := by
  induction fuel generalizing fuel' c d with
  | zero => exact hfuel.failed
  | succ fuel ih =>
    obtain ⟨fuel', rfl⟩ := hfuel.exists_succ
    have hmoves := moves_collectUpTo fun c => (h c d).replays.moves
    refine (h c d).bind (replays_pure agree_nil rfl)
      (fun _ c₁ => (hmoves fuel c₁).bind fun _ _ _ => moves_pure) ?_
    intro first first' c₁ d₁ hagree hlt hinside
    exact (ih (hfuel.next hlt hinside)).bind fun _ _ hrest =>
      replays_pure (hagree.cons hrest) (by omega)

theorem replays_collect (h : Rounds s m lo p q) : Replays s 0 m lo (collect p) (collect q) :=
  replays_get fun c d => .of_level (moves_collectUpTo (fun c => (h c d).replays.moves) _ c)
    fun hlevel _ => replaysAt_collectUpTo h (fueled_rounds hlevel)

theorem replays_commaSeparated {p q : Parser α} (h : Replays s 1 m lo p q) :
    Replays s 1 m lo (commaSeparated p) (commaSeparated q) :=
  h.bind fun _ _ hagree =>
    (replays_collect (rounds_afterAccepted (announces_acceptSymbol ",") h)).bind
      fun _ _ hagree' => replays_pure (hagree.cons hagree') (by omega)

theorem moves_extendUpTo (h : ∀ e c, Moves s 0 c (step e)) (fuel : Nat) (e : Expr) (c : Cursor) :
    Moves s 0 c (extendUpTo step fuel e) := by
  induction fuel generalizing e c with
  | zero =>
    intro _ _ _ hrun
    cases hrun
  | succ fuel ih =>
    refine (h e c).bind fun x c₁ _ => ?_
    cases x with
    | none => exact moves_pure
    | some longer => exact ih longer c₁

theorem replaysAt_extendUpTo {step' : Expr → Parser (Option Expr)}
    (h : ∀ e e', s.Agrees e e' → Rounds s m lo (step e) (step' e')) {e e' : Expr}
    (he : s.Agrees e e') (hfuel : Fueled s d fuel fuel') :
    ReplaysAt s 0 m lo c d (extendUpTo step fuel e) (extendUpTo step' fuel' e') := by
  induction fuel generalizing fuel' c d e e' with
  | zero => exact hfuel.failed
  | succ fuel ih =>
    obtain ⟨fuel', rfl⟩ := hfuel.exists_succ
    have hmoves := moves_extendUpTo fun e c => (h e _ (s.agrees_view e) c d).replays.moves
    refine (h e e' he c d).bind (replays_pure he rfl) (fun longer c₁ => hmoves fuel longer c₁) ?_
    intro longer longer' c₁ d₁ hagree hlt hinside
    exact (ih hagree (hfuel.next hlt hinside)).weaken (by omega)

theorem replays_extend {step' : Expr → Parser (Option Expr)}
    (h : ∀ e e', s.Agrees e e' → Rounds s m lo (step e) (step' e')) {e e' : Expr}
    (he : s.Agrees e e') (hn : n = 0) : Replays s n m lo (extend step e) (extend step' e') := by
  subst hn
  exact replays_get fun c d =>
    .of_level (moves_extendUpTo (fun e c => (h e _ (s.agrees_view e) c d).replays.moves) _ e c)
      fun hlevel _ => replaysAt_extendUpTo h he (fueled_rounds hlevel)

theorem moves_skipToUpTo (symbol : String) (fuel : Nat) (c : Cursor) :
    Moves s 0 c (skipToUpTo symbol fuel) := fun _ _ hc hrun =>
  have hmoved := Grammar.moved_skipToUpTo symbol fuel c (.refl c) hrun
  ⟨hmoved.tokens.trans hc, hmoved.le⟩

theorem replaysAt_skipToUpTo (symbol : String) (hfuel : c.tokens.size - c.position < fuel)
    (hfuel' : Fueled s d fuel fuel') :
    ReplaysAt s 0 1 0 c d (skipToUpTo symbol fuel) (skipToUpTo symbol fuel') := by
  induction fuel generalizing fuel' c d with
  | zero => exact absurd hfuel (Nat.not_lt_zero _)
  | succ fuel ih =>
    obtain ⟨fuel', rfl⟩ := hfuel'.exists_succ
    refine ReplaysAt.congr (p := if c.atEnd || c.isSymbol symbol then pure () else do
        advance; skipToUpTo symbol fuel)
      (q := if d.atEnd || d.isSymbol symbol then pure () else do advance; skipToUpTo symbol fuel')
      ?_ rfl rfl
    have hsymbol : Foreseen s 1 1 c d (c.isSymbol symbol = true) (d.isSymbol symbol = true) :=
      (foreseen_isSymbol symbol).mono (Nat.le_refl 1) (Nat.zero_le 1)
    refine .ite (foreseen_atEnd.or hsymbol) (Nat.le_refl 1)
      (fun _ => replays_pure (by rfl) rfl c d) fun hstop => ?_
    simp only [Cursor.atEnd, Bool.or_eq_true, decide_eq_true_eq, not_or, Nat.not_le] at hstop
    have hcur : c.current = some c.tokens[c.position] := Array.getElem?_eq_getElem hstop.1
    have hposition := next_position hcur
    have hmoves : Moves s 0 c (do advance; skipToUpTo symbol fuel) :=
      (replaysAt_advance hcur (d := d)).moves.bind fun _ _ _ => moves_skipToUpTo symbol fuel _
    refine .of_level hmoves fun hlevel hend => replaysAt_advanceThen hcur ?_
    have hlevel₁ := hlevel.next hend
    have hd₁ := hlevel.position_add hlevel₁ (n := 1) (by omega)
    have hinside := hlevel.position_lt (Nat.lt_of_lt_of_le (by omega) hlevel₁.inside)
    exact (ih (by rw [next_tokens]; omega) (hfuel'.next hd₁ hinside)).weaken (by omega)

/-- What is skipped lies in the stretch if the symbol does. -/
theorem replays_skipTo (symbol : String) : Replays s 0 1 0 (skipTo symbol) (skipTo symbol) :=
  replays_get fun c d => .of_level (moves_skipToUpTo symbol _ c) fun hlevel _ =>
    replaysAt_skipToUpTo symbol (by omega) (fueled_rounds hlevel)

end

end Parser

end SqlSignature

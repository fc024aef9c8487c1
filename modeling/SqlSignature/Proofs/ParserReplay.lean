import SqlSignature.Proofs.TreeViews
import SqlSignature.Proofs.Ensures
/-!
# SqlSignature.Proofs.ParserReplay

Reading the same tokens a second time. A `Passage` is a stretch of tokens and a copy of it among
other tokens, in which words may be spelt in another case; the copy is at the end there, or `AND`
follows. A parser replays a run (`Replays`) if, whenever it goes over tokens of the stretch only, it
also succeeds on the copy, moves on as far, and gives a result that agrees. No rule but the one for
conjunctions looks for an `AND`, so that what stands after the stretch in the first place does not
matter; where the rule for conjunctions has the last word, the run has to stop before the end of the
stretch. If there is nothing but the stretch and nothing but the copy (`Passage.Whole`), then both
runs have the same outcome, even if they fail, and what they nest in suffices for both.
-/

namespace SqlSignature

/-! ### Tokens that are alike -/

/-- Two tokens that say the same, wherever they stand. -/
def Token.Same (t u : Token) : Prop := u.kind = t.kind ∧ u.text = t.text

/-- Two tokens of one kind that say the same; words may differ in case. -/
structure Token.Alike (t u : Token) : Prop where
  kind : u.kind = t.kind
  text : t.kind ≠ .word → u.text = t.text
  word : t.kind = .word → Text.sameName t.text u.text = true

theorem Token.Same.alike {t u : Token} (h : t.Same u) : t.Alike u :=
  ⟨h.1, fun _ => h.2, fun _ => by rw [h.2]; exact Text.sameName_self _⟩

namespace Token.Alike

variable {t u : Token} (h : t.Alike u)

include h

theorem lower_text : Text.lower u.text = Text.lower t.text := by
  by_cases hkind : t.kind = .word
  · exact (Text.sameName_iff.1 (h.word hkind)).symm
  · rw [h.text hkind]

theorem isWord (word : String) : u.isWord word = t.isWord word := by
  rw [Token.isWord, Token.isWord, h.kind, Text.sameName, Text.sameName, h.lower_text]

theorem isSymbol (symbol : String) : u.isSymbol symbol = t.isSymbol symbol := by
  rw [Token.isSymbol, Token.isSymbol, h.kind]
  by_cases hkind : t.kind = .word
  · rw [hkind]
    rfl
  · rw [h.text hkind]

theorem isIdentifier : u.isIdentifier = t.isIdentifier := by
  rw [Token.isIdentifier, Token.isIdentifier, h.kind]

end Token.Alike

/-! ### Passages -/

/-- Two views in which the results of two runs can agree, where the first run has met `base` bound
values more than the second. -/
structure View.Fits (v w : View) (base : Nat) : Prop where
  after : w.after v = v
  number : ∀ {i j : Nat}, w.number j = v.number i → w.number (j + 1) = v.number (i + 1)
  ordinal : ∀ k, w.ordinal k = v.ordinal (base + k)
  name : w.name = v.name
  lower : ∀ {a b : String}, w.name b = v.name a → Text.lower b = Text.lower a
  capitals : ∀ {a b : String}, w.name b = v.name a → Text.capitals b = Text.capitals a

theorem View.fits_bare (base : Nat) : Fits (.bare (· - base)) (.bare id) base where
  after := rfl
  number _ := rfl
  ordinal k := (Nat.add_sub_cancel_left base k).symm
  name := rfl
  lower := congrArg Text.lower
  capitals := congrArg Text.capitals

/-- A stretch of tokens and a copy of it. -/
structure Passage where
  source : Array Token
  copy : Array Token
  /-- Where the stretch starts, and where the copy does. -/
  first : Nat
  place : Nat
  /-- Where the stretch ends. -/
  stop : Nat
  /-- How many tokens before the end a run has to stop that looks for `AND`. -/
  slack : Nat
  /-- How many more bound values there are before the stretch than before the copy. -/
  base : Nat
  /-- What of a result has to be the same. -/
  view : View
  copyView : View
  fits : view.Fits copyView base
  le : first ≤ stop
  slack_le : slack ≤ 1
  same : ∀ k, first + k < stop → ∃ t u, source[first + k]? = some t ∧ copy[place + k]? = some u ∧
    t.Alike u ∧ Agree view copyView t.text u.text
  after : ∀ u, copy[place + (stop - first)]? = some u → slack = 1 ∧ u.isWord "AND" = true
  /-- Whether runs that fail are compared, too: then there are no tokens but those of the stretch,
  and none but those of the copy. -/
  whole : Bool
  entire : whole = true → first = 0 ∧ place = 0 ∧ stop = source.size ∧ copy.size = source.size

namespace Passage

/-- Results of reading the stretch and of reading the copy agree. -/
abbrev Agrees {α : Type} [Viewed α] (s : Passage) (a b : α) : Prop := Agree s.view s.copyView a b

theorem agrees_view {α : Type} [Viewed α] (s : Passage) (a : α) :
    s.Agrees a (Viewed.view s.view a) :=
  agree_view s.fits.after a

/-- A token of the stretch and its copy. -/
structure Matches (s : Passage) (t u : Token) : Prop extends t.Alike u where
  name : s.Agrees t.text u.text

theorem matches_self (s : Passage) (t : Token) : s.Matches t t :=
  ⟨Token.Same.alike ⟨rfl, rfl⟩, congrFun s.fits.name t.text⟩

abbrev Whole (s : Passage) : Prop := s.whole = true

/-- What is looked at lies in the stretch, or else there is nothing. -/
def Reaches (s : Passage) (index : Nat) : Prop := index ≤ s.stop ∨ s.Whole

theorem Reaches.mono {s : Passage} {i j : Nat} (h : s.Reaches j) (hij : i ≤ j) : s.Reaches i :=
  h.imp_left (Nat.le_trans hij)

/-- Two cursors at the same place of a stretch and of its copy. -/
structure Level (s : Passage) (c d : Cursor) : Prop where
  source : c.tokens = s.source
  copy : d.tokens = s.copy
  place : ∃ k, c.position = s.first + k ∧ d.position = s.place + k
  inside : c.position ≤ s.stop
  nodes : s.copyView.number d.nodes = s.view.number c.nodes
  placeholders : c.placeholders = s.base + d.placeholders

/-- What a rule tests a token for: it does not look at the place of the token or at the case of a
word, and the test does not hold of `AND`. -/
structure Blind (test : Token → Bool) : Prop where
  same : ∀ t u : Token, t.Alike u → test u = test t
  and : ∀ u, u.isWord "AND" = true → test u = false

theorem blind_isWord {word : String} (h : Text.sameName word "AND" = false) :
    Blind (·.isWord word) where
  same t u htu := htu.isWord word
  and u hu := by
    simp only [Token.isWord, Bool.and_eq_true, beq_iff_eq] at hu
    refine Bool.eq_false_iff.2 fun hword => ?_
    rw [Token.isWord, Bool.and_eq_true, Text.sameName_comm] at hword
    rw [Text.sameName_trans hword.2 hu.2] at h
    cases h

/-- Whether none of some words is `AND`. It is told letter by letter, so that it can be decided. -/
def lackAnd (words : List String) : Bool :=
  words.all fun word => word.toList.map Char.toLower != ['a', 'n', 'd']

theorem ne_and_of_lackAnd {words : List String} (h : lackAnd words = true) :
    ∀ word ∈ words, Text.sameName word "AND" = false := by
  intro word hword
  have hletters := List.all_eq_true.1 h word hword
  refine Bool.eq_false_iff.2 fun hsame => ?_
  rw [Text.sameName_iff_toList.1 hsame] at hletters
  exact absurd hletters (by decide)

theorem blind_isSymbol (symbol : String) : Blind (·.isSymbol symbol) where
  same t u htu := htu.isSymbol symbol
  and u hu := by
    simp only [Token.isWord, Bool.and_eq_true, beq_iff_eq] at hu
    simp [Token.isSymbol, hu.1]

variable {s : Passage} {c d : Cursor}

section

variable (h : s.Level c d)

include h

variable {k : Nat} {test : Token → Bool}

theorem Level.peek_same (hk : c.position + k < s.stop) :
    ∃ t u, c.peek k = some t ∧ d.peek k = some u ∧ s.Matches t u := by
  obtain ⟨i, hc, hd⟩ := h.place
  obtain ⟨t, u, ht, hu, htu, hname⟩ := s.same (i + k) (by omega)
  refine ⟨t, u, ?_, ?_, htu, hname⟩
  · rw [Cursor.peek, h.source, hc, Nat.add_assoc]
    exact ht
  · rw [Cursor.peek, h.copy, hd, Nat.add_assoc]
    exact hu

theorem Level.current_same (hlt : c.position < s.stop) :
    ∃ t u, c.current = some t ∧ d.current = some u ∧ s.Matches t u :=
  h.peek_same (k := 0) hlt

/-- After the copy there is nothing, or `AND`. -/
theorem Level.peek_after (hk : c.position + k = s.stop) {u : Token} (hu : d.peek k = some u) :
    s.slack = 1 ∧ u.isWord "AND" = true := by
  obtain ⟨i, hc, hd⟩ := h.place
  refine s.after u ?_
  rw [Cursor.peek, h.copy, hd] at hu
  have hle := s.le
  rw [show s.place + (s.stop - s.first) = s.place + i + k by omega]
  exact hu

/-- Tokens that are looked at are a token of the stretch and its copy, or both are missing. -/
theorem Level.peek (hk : s.Reaches (c.position + k + 1)) :
    Option.Rel s.Matches (c.peek k) (d.peek k) := by
  by_cases hlt : c.position + k < s.stop
  · obtain ⟨t, u, ht, hu, htu⟩ := h.peek_same hlt
    rw [ht, hu]
    exact .some htu
  · have hs : s.Whole := hk.resolve_left hlt
    obtain ⟨i, hc, hd⟩ := h.place
    obtain ⟨hfirst, hplace, hstop, hsize⟩ := s.entire hs
    rw [Cursor.peek, Cursor.peek, h.source, h.copy, Array.getElem?_eq_none (by omega),
      Array.getElem?_eq_none (by omega)]
    exact .none

theorem Level.current (hk : s.Reaches (c.position + 1)) :
    Option.Rel s.Matches c.current d.current :=
  h.peek (k := 0) hk

theorem Level.any_peek (htest : ∀ t u : Token, t.Alike u → test u = test t)
    (hk : s.Reaches (c.position + k + 1)) : (d.peek k).any test = (c.peek k).any test := by
  match c.peek k, d.peek k, h.peek hk with
  | _, _, .some htu => exact htest _ _ htu.toAlike
  | _, _, .none => rfl

/-- A test that holds of the copy holds within the stretch. -/
theorem Level.of_copy (htest : Blind test) (hk : c.position + k ≤ s.stop)
    (hd : (d.peek k).any test = true) : (c.peek k).any test = true ∧ c.position + k < s.stop := by
  rcases Nat.lt_or_eq_of_le hk with hlt | heq
  · exact ⟨h.any_peek htest.same (.inl hlt) ▸ hd, hlt⟩
  · obtain ⟨u, hu, hholds⟩ := (Option.any_eq_true _ _).1 hd
    rw [htest.and u (h.peek_after heq hu).2] at hholds
    cases hholds

/-- A test that holds within the stretch holds of the copy. -/
theorem Level.to_copy (htest : Blind test) (hk : c.position + k < s.stop)
    (hc : (c.peek k).any test = true) : (d.peek k).any test = true :=
  (h.any_peek htest.same (.inl hk)).trans hc

theorem Level.any_current_eq_false (htest : Blind test) (hc : c.current.any test = false) :
    d.current.any test = false :=
  Bool.eq_false_iff.2 fun hd =>
    Bool.eq_false_iff.1 hc (h.of_copy htest (k := 0) h.inside hd).1

theorem Level.atEnd (hk : s.Reaches (c.position + 1)) : d.atEnd = c.atEnd := by
  have hnone : ∀ c : Cursor, c.atEnd = c.current.isNone := fun c =>
    Bool.eq_iff_iff.2 (by simp [Cursor.atEnd, Cursor.current])
  rw [hnone, hnone]
  match c.current, d.current, h.current hk with
  | _, _, .some _ => rfl
  | _, _, .none => rfl

/-- Both cursors move on. -/
theorem Level.next (hlt : s.Reaches (c.position + 1)) : s.Level c.next d.next := by
  obtain ⟨i, hci, hdi⟩ := h.place
  match hc : c.current, hd : d.current, h.current hlt with
  | some t, some u, _ =>
    have hc' := (Array.getElem?_eq_some_iff.1 hc).1
    have hd' := (Array.getElem?_eq_some_iff.1 hd).1
    have hstop : c.position + 1 ≤ s.stop := by
      rcases hlt with hlt | hs
      · exact hlt
      · rw [(s.entire hs).2.2.1, ← h.source]
        exact hc'
    rw [Cursor.next, if_pos hc', Cursor.next, if_pos hd']
    exact ⟨h.source, h.copy, ⟨i + 1, by rw [hci]; rfl, by rw [hdi]; rfl⟩, hstop, h.nodes,
      h.placeholders⟩
  | none, none, _ =>
    have hc' := Array.getElem?_eq_none_iff.1 hc
    have hd' := Array.getElem?_eq_none_iff.1 hd
    rw [Cursor.next, if_neg (Nat.not_lt.2 hc'), Cursor.next, if_neg (Nat.not_lt.2 hd')]
    exact h

theorem Level.position_lt (hlt : c.position < s.stop) : d.position < s.copy.size := by
  obtain ⟨t, u, -, hu, -⟩ := h.current_same hlt
  rw [← h.copy]
  exact (Array.getElem?_eq_some_iff.1 hu).1

/-- One more node, at both places. -/
theorem Level.built : s.Level { c with nodes := c.nodes + 1 } { d with nodes := d.nodes + 1 } :=
  ⟨h.source, h.copy, h.place, h.inside, s.fits.number h.nodes, h.placeholders⟩

end

theorem Level.position_le (h : s.Level c d) (hs : s.Whole) : d.position ≤ s.copy.size := by
  obtain ⟨i, hc, hd⟩ := h.place
  obtain ⟨hfirst, hplace, hstop, hsize⟩ := s.entire hs
  have hinside := h.inside
  omega

/-- How far the copy has been read. -/
theorem Level.position_add {c' d' : Cursor} (h : s.Level c d) (h' : s.Level c' d') {n : Nat}
    (hn : c.position + n ≤ c'.position) : d.position + n ≤ d'.position := by
  obtain ⟨i, hc, hd⟩ := h.place
  obtain ⟨j, hc', hd'⟩ := h'.place
  omega

end Passage

/-! ### Replaying -/

section

variable {α β : Type} [Viewed α] [Viewed β] {s : Passage} {n m lo : Nat} {c d : Cursor}
  {text : String}

/-- An error that a cursor over some tokens of a text raises, wherever it stands. A number is only
called invalid if it denotes no literal, and nothing nests too deep. -/
def ParseError.RaisedOver (e : ParseError) (text : String) (tokens : Array Token) : Prop :=
  ∃ (c : Cursor) (fault : ParseFault) (pivot : Nat),
    e = c.errorFrom fault pivot ∧ c.text = text ∧ c.tokens = tokens ∧ fault ≠ .nestingTooDeep ∧
      (fault = .invalidNumber → ∃ t ∈ tokens, t.kind = .number ∧ Literal.ofNumber? t.text = none)

theorem Cursor.raisedOver (c : Cursor) {fault : ParseFault} (pivot : Nat)
    (h : fault ≠ .nestingTooDeep ∧ fault ≠ .invalidNumber) :
    (c.errorFrom fault pivot).RaisedOver c.text c.tokens :=
  ⟨c, fault, pivot, rfl, rfl, rfl, h.1, fun heq => absurd heq h.2⟩

/-- Two outcomes of runs, the first one over a text: results that agree at the same place, or the
same fault. -/
inductive SameOutcome (s : Passage) (text : String) :
    EStateM.Result ParseError Cursor α → EStateM.Result ParseError Cursor α → Prop where
  | ok {a b : α} {c d : Cursor} (result : s.Agrees a b) (place : s.Level c d)
      (text_eq : c.text = text) : SameOutcome s text (.ok a c) (.ok b d)
  | error {e f : ParseError} {c d : Cursor} (fault : f.fault = e.fault)
      (raised : e.RaisedOver text s.source) : SameOutcome s text (.error e c) (.error f d)

variable {p q : Parser α} {k l : α → Parser β}

theorem SameOutcome.bind (h : SameOutcome s text (p c) (q d))
    (hnext : ∀ a b c' d', p c = .ok a c' → q d = .ok b d' → s.Agrees a b → s.Level c' d' →
      SameOutcome s c'.text (k a c') (l b d')) :
    SameOutcome s text ((p >>= k) c) ((q >>= l) d) := by
  show SameOutcome s text (EStateM.bind p k c) (EStateM.bind q l d)
  rw [EStateM.bind, EStateM.bind]
  generalize hp : p c = x at h ⊢
  generalize hq : q d = y at h ⊢
  cases h with
  | ok result place htext => exact htext ▸ hnext _ _ _ _ hp hq result place
  | error fault raised => exact .error fault raised

/-- A run from a place passes at least `n` tokens. -/
def Moves {α : Type} (s : Passage) (n : Nat) (c : Cursor) (p : Parser α) : Prop :=
  ∀ a c', c.tokens = s.source → p c = .ok a c' →
    c'.tokens = s.source ∧ c.position + n ≤ c'.position

omit [Viewed α] in
theorem Moves.mono {n' : Nat} (h : Moves s n c p) (hle : n' ≤ n) :
    Moves s n' c p := fun a c' hc hrun =>
  ⟨(h a c' hc hrun).1, Nat.le_trans (Nat.add_le_add_left hle _) (h a c' hc hrun).2⟩

omit [Viewed α] in
theorem moves_pure {a : α} : Moves s 0 c (pure a) := fun _ _ hc hrun => by
  cases hrun
  exact ⟨hc, Nat.le_refl _⟩

omit [Viewed α] [Viewed β] in
theorem Moves.bind {n₁ : Nat} (h : Moves s n₁ c p)
    (hnext : ∀ a c', p c = .ok a c' → Moves s (n - n₁) c' (k a)) : Moves s n c (p >>= k) := by
  intro b c₂ hc hrun
  obtain ⟨a, c₁, hp, hk⟩ := bind_eq_ok.1 hrun
  obtain ⟨htokens, hpassed⟩ := h a c₁ hc hp
  obtain ⟨htokens', hpassed'⟩ := hnext a c₁ hp b c₂ htokens hk
  exact ⟨htokens', by omega⟩

/-- A place is not before another one. Instances find this where places are counted on. -/
class Onward (lo lo' : Nat) : Prop where
  le : lo ≤ lo'

instance (lo : Nat) : Onward 0 lo := ⟨Nat.zero_le lo⟩

instance (lo : Nat) : Onward lo lo := ⟨Nat.le_refl lo⟩

instance {lo lo' k : Nat} [h : Onward lo lo'] : Onward lo (lo' + k) :=
  ⟨Nat.le_add_right_of_le h.le⟩

instance {lo lo' : Nat} [h : Onward lo (lo' + 1)] : Onward (lo - 1) lo' :=
  ⟨Nat.sub_le_of_le_add h.le⟩

/-- A run from a place passes at least `n` tokens. If it stops at least `m` tokens before the end of
a stretch, then it is replayed at the copy, from the place `lo` on. If the stretch is a whole text,
then the outcome from there on is the same at the copy. -/
structure ReplaysAt (s : Passage) (n m lo : Nat) (c d : Cursor) (p q : Parser α) : Prop where
  moves : Moves s n c p
  replays : s.Level c d → lo ≤ d.position → ∀ a c', p c = .ok a c' → c'.position + m ≤ s.stop →
    ∃ b d', q d = .ok b d' ∧ s.Agrees a b ∧ s.Level c' d'
  outcome : s.Whole → s.Level c d → lo ≤ d.position → SameOutcome s c.text (p c) (q d)

/-- Every run is replayed. -/
def Replays (s : Passage) (n m lo : Nat) (p q : Parser α) : Prop :=
  ∀ c d, ReplaysAt s n m lo c d p q

theorem ReplaysAt.weaken {n' m' lo' : Nat} (h : ReplaysAt s n m lo c d p q)
    (hle : n' ≤ n ∧ m ≤ m' ∧ lo ≤ lo') : ReplaysAt s n' m' lo' c d p q where
  moves := h.moves.mono hle.1
  replays hlevel hd a c' hrun hend := h.replays hlevel (by omega) a c' hrun (by omega)
  outcome hs hlevel hd := h.outcome hs hlevel (by omega)

theorem Replays.weaken {n' m' lo' : Nat} (h : Replays s n m lo p q)
    (hle : n' ≤ n ∧ m ≤ m' ∧ lo ≤ lo') : Replays s n' m' lo' p q :=
  fun c d => (h c d).weaken hle

/-- What is read at the copy counts only where the copy is level with the stretch, and as far as
the run goes. -/
theorem ReplaysAt.of_level (hmoves : Moves s n c p)
    (h : s.Level c d → s.Reaches (c.position + n + m) → ReplaysAt s n m lo c d p q) :
    ReplaysAt s n m lo c d p q where
  moves := hmoves
  replays hlevel hd a c' hrun hend :=
    (h hlevel (.inl (by have := (hmoves a c' hlevel.source hrun).2; omega))).replays hlevel hd a c'
      hrun hend
  outcome hs hlevel hd := (h hlevel (.inr hs)).outcome hs hlevel hd

/-- Past the end of the copy nothing is replayed, so that the second parser may be any. -/
theorem Replays.beyond (h : Replays s n m lo p q) (hlo : s.copy.size ≤ lo) (hn : 1 ≤ n)
    (hs : ¬s.Whole) (q' : Parser α) : Replays s n m lo p q' := fun c d => {
  moves := (h c d).moves
  replays := fun hlevel hd a c' hrun hend => by
    have hpassed := ((h c d).moves a c' hlevel.source hrun).2
    have hinside := hlevel.position_lt (by omega)
    omega
  outcome := fun hs' => absurd hs' hs }

/-- Where a run fails, there is nothing to replay. -/
theorem ReplaysAt.failed {e : ParseError} {c' : Cursor} (hp : p c = .error e c')
    (he : e.RaisedOver c.text c.tokens)
    (hq : s.Whole → s.Level c d → ∃ f d', q d = .error f d' ∧ f.fault = e.fault) :
    ReplaysAt s n m lo c d p q where
  moves _ _ _ hrun := by cases hp.symm.trans hrun
  replays _ _ _ _ hrun := by cases hp.symm.trans hrun
  outcome hs hlevel _ := by
    obtain ⟨f, d', hq, hfault⟩ := hq hs hlevel
    rw [hp, hq]
    exact .error hfault (hlevel.source ▸ he)

/-- A run that fails where no run over a whole text comes to. -/
theorem ReplaysAt.exhausted {e : ParseError} {c' : Cursor} (hp : p c = .error e c')
    (h : s.Whole → s.Level c d → ¬lo ≤ d.position) : ReplaysAt s n m lo c d p q where
  moves _ _ _ hrun := by cases hp.symm.trans hrun
  replays _ _ _ _ hrun := by cases hp.symm.trans hrun
  outcome hs hlevel hd := absurd hd (h hs hlevel)

/-- Runs that succeed wherever they start. -/
theorem ReplaysAt.of_run {a b : α} {c' d' : Cursor} (hp : p c = .ok a c') (hq : q d = .ok b d')
    (htext : c'.text = c.text) (htokens : c'.tokens = c.tokens)
    (hposition : c'.position = c.position + n)
    (h : s.Level c d → s.Reaches (c.position + n) → s.Agrees a b ∧ s.Level c' d') :
    ReplaysAt s n 0 0 c d p q where
  moves _ _ hc hrun := by
    cases hp.symm.trans hrun
    exact ⟨htokens.trans hc, Nat.le_of_eq hposition.symm⟩
  replays hlevel _ _ _ hrun hend := by
    cases hp.symm.trans hrun
    exact ⟨b, d', hq, h hlevel (.inl (hposition ▸ hend))⟩
  outcome hs hlevel _ := by
    rw [hp, hq]
    exact .ok (h hlevel (.inr hs)).1 (h hlevel (.inr hs)).2 htext

theorem ReplaysAt.congr {p' q' : Parser α} (h : ReplaysAt s n m lo c d p q) (hp : p' c = p c)
    (hq : q' d = q d) : ReplaysAt s n m lo c d p' q' where
  moves := by rw [Moves, hp]; exact h.moves
  replays := by rw [hp, hq]; exact h.replays
  outcome := by rw [hp, hq]; exact h.outcome

/-- One step after another. The second passes enough tokens for the first to stop early enough, and
it goes on where the first has stopped. -/
theorem ReplaysAt.bindRun {n₁ r m₁ lo₁ : Nat} (h : ReplaysAt s n₁ m₁ lo₁ c d p q)
    (hle : lo₁ ≤ lo ∧ n ≤ n₁ + r ∧ m₁ ≤ r + m)
    (hmoves : ∀ a c₁, p c = .ok a c₁ → Moves s r c₁ (k a))
    (hnext : ∀ a b c₁ d₁, p c = .ok a c₁ → q d = .ok b d₁ → s.Agrees a b → s.Level c d →
      s.Level c₁ d₁ → lo ≤ d.position → d.position + n₁ ≤ d₁.position →
        ReplaysAt s r m d₁.position c₁ d₁ (k a) (l b)) :
    ReplaysAt s n m lo c d (p >>= k) (q >>= l) where
  moves := h.moves.bind fun a c₁ hp => (hmoves a c₁ hp).mono (by omega)
  replays hlevel hd b c₂ hrun hend := by
    obtain ⟨a, c₁, hp, hk⟩ := bind_eq_ok.1 hrun
    obtain ⟨htokens, hpassed⟩ := h.moves a c₁ hlevel.source hp
    have hpassed' := (hmoves a c₁ hp b c₂ htokens hk).2
    obtain ⟨a', d₁, hq, hagree, hlevel₁⟩ := h.replays hlevel (by omega) a c₁ hp (by omega)
    have hd₁ := hlevel.position_add hlevel₁ hpassed
    obtain ⟨b', d₂, hl, hagree', hlevel₂⟩ :=
      (hnext a a' c₁ d₁ hp hq hagree hlevel hlevel₁ hd hd₁).replays hlevel₁ (Nat.le_refl _) b c₂ hk
        hend
    exact ⟨b', d₂, bind_eq_ok.2 ⟨a', d₁, hq, hl⟩, hagree', hlevel₂⟩
  outcome hs hlevel hd := (h.outcome hs hlevel (by omega)).bind
    fun a b c₁ d₁ hp hq hagree hlevel₁ => by
      have hd₁ := hlevel.position_add hlevel₁ (h.moves a c₁ hlevel.source hp).2
      exact (hnext a b c₁ d₁ hp hq hagree hlevel hlevel₁ hd hd₁).outcome hs hlevel₁ (Nat.le_refl _)

theorem ReplaysAt.bind {n₁ m₁ lo₁ : Nat} [hlo : Onward lo₁ lo] (h : ReplaysAt s n₁ m₁ lo₁ c d p q)
    (hnext : ∀ a b, s.Agrees a b → Replays s (max (n - n₁) (m₁ - m)) m (lo + n₁) (k a) (l b)) :
    ReplaysAt s n m lo c d (p >>= k) (q >>= l) :=
  -- the second step passes tokens whatever the copy is
  h.bindRun ⟨hlo.le, by omega, by omega⟩
    (fun a c₁ _ => (hnext a _ (s.agrees_view a) c₁ d).moves)
    fun a b c₁ d₁ _ _ hagree _ _ _ _ => (hnext a b hagree c₁ d₁).weaken (by omega)

theorem Replays.bind {n₁ m₁ lo₁ : Nat} [Onward lo₁ lo] (h : Replays s n₁ m₁ lo₁ p q)
    (hnext : ∀ a b, s.Agrees a b → Replays s (max (n - n₁) (m₁ - m)) m (lo + n₁) (k a) (l b)) :
    Replays s n m lo (p >>= k) (q >>= l) :=
  fun c d => (h c d).bind hnext

theorem replays_pure {a b : α} (h : s.Agrees a b) (hn : n = 0) :
    Replays s n m lo (pure a) (pure b) := fun _ _ =>
  (ReplaysAt.of_run (n := 0) rfl rfl rfl rfl rfl fun hlevel _ => ⟨h, hlevel⟩).weaken (by omega)

theorem Replays.map {f : α → β} (h : Replays s n m lo p q)
    (hf : ∀ a b, s.Agrees a b → s.Agrees (f a) (f b)) : Replays s n m lo (f <$> p) (f <$> q) := by
  rw [map_eq_pure_bind, map_eq_pure_bind]
  exact h.bind fun a b hagree => replays_pure (hf a b hagree) (by omega)

theorem ReplaysAt.get {k l : Cursor → Parser α} (h : ReplaysAt s n m lo c d (k c) (l d)) :
    ReplaysAt s n m lo c d (get >>= k) (get >>= l) :=
  h.congr rfl rfl

theorem replays_get {k l : Cursor → Parser α} (h : ∀ c d, ReplaysAt s n m lo c d (k c) (l d)) :
    Replays s n m lo (get >>= k) (get >>= l) :=
  fun c d => (h c d).get

/-- A result that tells where it was read. -/
theorem replays_getPure {a b : Cursor → α} (hn : n = 0) (h : ∀ c d, s.Agrees (a c) (b d)) :
    Replays s n m lo (do return a (← get)) (do return b (← get)) :=
  replays_get fun c d => replays_pure (h c d) hn c d

section

variable {fault : ParseFault} (h : fault ≠ .nestingTooDeep ∧ fault ≠ .invalidNumber)
  {pivot pivot' : Nat}

include h

theorem replays_failHere :
    Replays s n m lo (Parser.failHere fault : Parser α) (Parser.failHere fault) :=
  fun c _ => .failed rfl (c.raisedOver _ h) fun _ _ => ⟨_, _, rfl, rfl⟩

omit [Viewed β] in
theorem replays_failHereThen {k l : β → Parser α} :
    Replays s n m lo (Parser.failHere fault >>= k) (Parser.failHere fault >>= l) :=
  fun c _ => .failed rfl (c.raisedOver _ h) fun _ _ => ⟨_, _, rfl, rfl⟩

theorem replays_fail :
    Replays s n m lo (Parser.fail fault pivot : Parser α) (Parser.fail fault pivot') :=
  fun c _ => .failed rfl (c.raisedOver _ h) fun _ _ => ⟨_, _, rfl, rfl⟩

omit [Viewed β] in
theorem replays_failThen {k l : β → Parser α} :
    Replays s n m lo (Parser.fail fault pivot >>= k) (Parser.fail fault pivot' >>= l) :=
  fun c _ => .failed rfl (c.raisedOver _ h) fun _ _ => ⟨_, _, rfl, rfl⟩

end

/-! ### Choices -/

/-- What is looked up ahead. If it holds of the stretch, and the `k` tokens that were looked at lie
in the stretch, then it holds of the copy; and it does not hold of the copy alone, if `n` tokens lie
in the stretch. -/
structure Foreseen (s : Passage) (k n : Nat) (c d : Cursor) (x y : Prop) : Prop where
  forth : s.Level c d → s.Reaches (c.position + k) → x → y
  back : s.Level c d → s.Reaches (c.position + n) → y → x

section

variable {k : Nat} {x y : Prop}

theorem Foreseen.of_iff (h : y ↔ x) : Foreseen s k n c d x y := ⟨fun _ _ => h.2, fun _ _ => h.1⟩

theorem Foreseen.mono {k' n' : Nat} (h : Foreseen s k n c d x y) (hk : k ≤ k')
    (hn : n ≤ n') : Foreseen s k' n' c d x y where
  forth hlevel hend := h.forth hlevel (hend.mono (Nat.add_le_add_left hk _))
  back hlevel hend := h.back hlevel (hend.mono (Nat.add_le_add_left hn _))

theorem Foreseen.or {x y x' y' : Bool} (h : Foreseen s k n c d (x = true) (y = true))
    (h' : Foreseen s k n c d (x' = true) (y' = true)) :
    Foreseen s k n c d ((x || x') = true) ((y || y') = true) := by
  rw [Bool.or_eq_true, Bool.or_eq_true]
  exact ⟨fun hlevel hend => Or.imp (h.forth hlevel hend) (h'.forth hlevel hend),
    fun hlevel hend => Or.imp (h.back hlevel hend) (h'.back hlevel hend)⟩

theorem foreseen_peek {test : Token → Bool} (htest : Passage.Blind test) (k : Nat) :
    Foreseen s (k + 1) k c d ((c.peek k).any test = true) ((d.peek k).any test = true) where
  forth hlevel hend := (hlevel.any_peek htest.same hend).trans
  back hlevel hend hd := by
    rcases hend with hend | hs
    · exact (hlevel.of_copy htest hend hd).1
    · exact hlevel.any_peek htest.same (.inr hs) ▸ hd

theorem foreseen_isWord (word : String) (h : Passage.lackAnd [word] = true) :
    Foreseen s 1 0 c d (c.isWord word = true) (d.isWord word = true) :=
  foreseen_peek (Passage.blind_isWord (Passage.ne_and_of_lackAnd h word List.mem_cons_self)) 0

theorem foreseen_isSymbol (symbol : String) :
    Foreseen s 1 0 c d (c.isSymbol symbol = true) (d.isSymbol symbol = true) :=
  foreseen_peek (Passage.blind_isSymbol symbol) 0

theorem foreseen_atEnd : Foreseen s 1 1 c d (c.atEnd = true) (d.atEnd = true) where
  forth hlevel hend := (hlevel.atEnd hend).trans
  back hlevel hend := (hlevel.atEnd hend).symm.trans

/-- A choice by what is looked up ahead. -/
theorem ReplaysAt.ite [Decidable x] [Decidable y] {n₁ : Nat} {p p' q q' : Parser α}
    (h : Foreseen s k n₁ c d x y) (hn : n₁ ≤ n + m)
    (htrue : x → ReplaysAt s (max n (k - m)) m lo c d p q)
    (hfalse : ¬x → ReplaysAt s n m lo c d p' q') :
    ReplaysAt s n m lo c d (if x then p else p') (if y then q else q') := by
  by_cases hx : x
  · rw [if_pos hx]
    have hreplays : ReplaysAt s (max n (k - m)) m lo c d p (if y then q else q') := by
      refine .of_level (htrue hx).moves fun hlevel hend => ?_
      rw [if_pos (h.forth hlevel (hend.mono (by omega)) hx)]
      exact htrue hx
    exact hreplays.weaken (by omega)
  · rw [if_neg hx]
    refine .of_level (hfalse hx).moves fun hlevel hend => ?_
    rw [if_neg fun hy => hx (h.back hlevel (hend.mono (by omega)) hy)]
    exact hfalse hx

/-- A choice by a value that is the same in both places. -/
theorem ReplaysAt.iteSame [Decidable x] [Decidable y] {p p' q q' : Parser α} (hxy : y ↔ x)
    (htrue : ReplaysAt s n m lo c d p q) (hfalse : ReplaysAt s n m lo c d p' q') :
    ReplaysAt s n m lo c d (if x then p else p') (if y then q else q') :=
  .ite (k := 0) (.of_iff hxy) (Nat.zero_le _) (fun _ => htrue.weaken (by omega)) fun _ => hfalse

theorem Replays.ite [Decidable x] [Decidable y] {p p' q q' : Parser α} (hxy : y ↔ x)
    (htrue : Replays s n m lo p q) (hfalse : Replays s n m lo p' q') :
    Replays s n m lo (if x then p else p') (if y then q else q') :=
  fun c d => .iteSame hxy (htrue c d) (hfalse c d)

end

/-- A parser that passes a token has one before it, which is the same in both places. -/
theorem ReplaysAt.current {k l : Option Token → Parser α} {x y : Option Token}
    (hx : c.current = x) (hy : d.current = y) (hn : 1 ≤ n)
    (hnone : ReplaysAt s n m lo c d (k none) (l none))
    (hsome : ∀ t u, s.Matches t u → c.current = some t →
      ReplaysAt s n m lo c d (k (some t)) (l (some u))) :
    ReplaysAt s n m lo c d (k x) (l y) := by
  have hmoves : Moves s n c (k x) := by
    cases x with
    | none => exact hnone.moves
    | some t => exact (hsome t t (s.matches_self t) hx).moves
  refine .of_level hmoves fun hlevel hend => ?_
  have hrel : Option.Rel s.Matches x y := hx ▸ hy ▸ hlevel.current (hend.mono (by omega))
  cases hrel with
  | none => exact hnone
  | some htu => exact hsome _ _ htu hx

/-- A choice by what the next token is taken for. If it is taken for something, it is passed. -/
theorem ReplaysAt.look {γ : Type} [Viewed γ] {look : Token → Option γ} {k l : Option γ → Parser α}
    {x y : Option γ} (hx : c.current.bind look = x) (hy : d.current.bind look = y)
    (hlook : ∀ t u, s.Matches t u → s.Agrees (look t) (look u))
    (hand : s.slack ≤ n + m ∨ ∀ u, u.isWord "AND" = true → look u = none)
    (hsome : ∀ r r' t, s.Agrees r r' → c.current = some t →
      ReplaysAt s (max n 1) m lo c d (k (some r)) (l (some r')))
    (hnone : ReplaysAt s n m lo c d (k none) (l none)) :
    ReplaysAt s n m lo c d (k x) (l y) := by
  have same : s.Level c d → s.Reaches (c.position + 1) → s.Agrees x y := by
    intro hlevel hend
    rw [← hx, ← hy]
    match c.current, d.current, hlevel.current hend with
    | _, _, .some htu => exact hlook _ _ htu
    | _, _, .none => exact agree_none
  cases x with
  | some r =>
    obtain ⟨t, ht, -⟩ := Option.bind_eq_some_iff.1 hx
    have hreplays : ReplaysAt s (max n 1) m lo c d (k (some r)) (l y) := by
      refine .of_level (hsome r _ t (s.agrees_view r) ht).moves fun hlevel hend => ?_
      have hagree := same hlevel (hend.mono (by omega))
      cases y with
      | none => cases hagree
      | some r' => exact hsome r r' t (Option.some.inj hagree) ht
    exact hreplays.weaken (by omega)
  | none =>
    refine .of_level hnone.moves fun hlevel hend => ?_
    have hsame : s.Reaches (c.position + 1) → y = none := fun hend => by
      have hagree := same hlevel hend
      cases y with
      | none => rfl
      | some r => cases hagree
    have hy : y = none := by
      rcases hend with hend | hs
      · rcases Nat.lt_or_eq_of_le hlevel.inside with hlt | heq
        · exact hsame (.inl hlt)
        · cases hu : d.current with
          | none => rw [← hy, hu, Option.bind_none]
          | some u =>
            -- the copy goes on with `AND`
            obtain ⟨hslack, hword⟩ := hlevel.peek_after (k := 0) heq hu
            rcases hand with hmargin | hand
            · omega
            · rw [← hy, hu, Option.bind_some, hand u hword]
      · exact hsame (.inr hs)
    rw [hy]
    exact hnone

end

/-! ### Announcements -/

section

variable {α : Type} [Viewed α] {s : Passage} {n m lo : Nat} {c d : Cursor}

/-- What follows is announced by some tokens, which are passed, or not, and then none need be. The
answer is the same at the copy, if it does not depend on what stands after the stretch; it may
depend on `m` tokens more than it passes. -/
structure Announces (s : Passage) (m : Nat) (p q : Parser Bool) : Prop where
  answers : ∀ c, ∃ b c', p c = .ok b c' ∧ c'.text = c.text
  moves : ∀ c b c', c.tokens = s.source → p c = .ok b c' →
    c'.tokens = s.source ∧ c.position + b.toNat ≤ c'.position
  replays : ∀ c d, s.Level c d → ∀ b c', p c = .ok b c' → s.Reaches (c'.position + b.toNat * m) →
    ∃ d', q d = .ok b d' ∧ s.Level c' d'

theorem Announces.replaysAt {p q : Parser Bool} (h : Announces s m p q) {b : Bool} {c' : Cursor}
    (hp : p c = .ok b c') : ReplaysAt s b.toNat (b.toNat * m) 0 c d p q where
  moves _ _ hc hrun := by
    cases hp.symm.trans hrun
    exact h.moves c b c' hc hp
  replays hlevel _ _ _ hrun hend := by
    cases hp.symm.trans hrun
    obtain ⟨d', hq, hlevel'⟩ := h.replays c d hlevel b c' hp (.inl hend)
    exact ⟨b, d', hq, rfl, hlevel'⟩
  outcome hs hlevel _ := by
    obtain ⟨_, _, hp', htext⟩ := h.answers c
    cases hp.symm.trans hp'
    obtain ⟨d', hq, hlevel'⟩ := h.replays c d hlevel b c' hp (.inr hs)
    rw [hp, hq]
    exact .ok rfl hlevel' htext

/-- What follows an announcement starts further on. -/
theorem Announces.bindAt {m₁ : Nat} {a b : Parser Bool} {k l : Bool → Parser α}
    (h : Announces s m₁ a b)
    (hnext : ∀ x c₁, a c = .ok x c₁ →
      Replays s (max (n - x.toNat) (x.toNat * m₁ - m)) m (lo + x.toNat) (k x) (l x)) :
    ReplaysAt s n m lo c d (a >>= k) (b >>= l) := by
  obtain ⟨x, c₁, ha, -⟩ := h.answers c
  refine (h.replaysAt ha).bindRun (r := max (n - x.toNat) (x.toNat * m₁ - m)) (by omega)
    (fun y c₂ hy => ?_) fun y z c₂ d₁ hy _ hyz _ _ _ _ => ?_
  · cases ha.symm.trans hy
    exact (hnext x c₁ ha c₁ d).moves
  · cases ha.symm.trans hy
    obtain rfl : z = x := hyz
    exact (hnext z c₁ ha c₁ d₁).weaken (by omega)

theorem Announces.bind {m₁ : Nat} {a b : Parser Bool} {k l : Bool → Parser α}
    (h : Announces s m₁ a b) (hnext : ∀ x, Replays s (max n (m₁ - m)) m lo (k x) (l x)) :
    Replays s n m lo (a >>= k) (b >>= l) := fun c d => h.bindAt fun x _ _ => by
  cases x with
  | true => exact (hnext true).weaken (by simp only [Bool.toNat_true]; omega)
  | false => exact (hnext false).weaken (by simp only [Bool.toNat_false]; omega)

theorem Announces.ite {m₁ : Nat} {a b : Parser Bool} {p p' q q' : Parser α}
    (h : Announces s m₁ a b)
    (htrue : Replays s (max (n - 1) (m₁ - m)) m (lo + 1) p q)
    (hfalse : Replays s n m lo p' q') :
    Replays s n m lo (a >>= fun x => if x = true then p else p')
      (b >>= fun x => if x = true then q else q') := fun c d => by
  refine h.bindAt fun x _ _ => ?_
  cases x with
  | true => simpa using htrue
  | false => simpa using hfalse

end

end SqlSignature

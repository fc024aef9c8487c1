import SqlSignature.Proofs.ConjunctRuns
import SqlSignature.Proofs.GrammarReplay
import SqlSignature.Proofs.TokenSlices
/-!
# SqlSignature.Proofs.GluedConjuncts

The texts of conjuncts, glued with `AND`, and read again. In the glued text stand copies of the
tokens of the pieces (`Follow`), in which the runs that read the pieces can be replayed. If no piece
has a connective, this gives the conjuncts back. If one has, then the tier for conjunctions stops in
its copy, where its connective stands, and does not come to the end of the text (`Extended.level`).
This makes the condition exact: `rereads_pieces_iff`.
-/

open List

namespace SqlSignature

theorem Expr.connective?_view (v : View) (e : Expr) : (e.view v).connective? = e.connective? := by
  obtain ⟨id, span, form⟩ := e
  cases form <;> simp [Expr.connective?, ExprForm.connective?, Expr.view, ExprForm.view, Expr.form]

theorem Agree.connective?_eq {v w : View} {e e' : Expr} (h : Agree v w e e') :
    e'.connective? = e.connective? := by
  rw [← Expr.connective?_view w e', ← Expr.connective?_view v e]
  exact congrArg Expr.connective? h

namespace Grammar

open SqlSignature.Cursor SqlSignature.Parser

namespace Piece

variable {origin : Cursor} (p : Piece origin)

theorem read : Read p.start p.expr p.stop := (builds_upTo p.depth).tier _ p.sound p.run

/-- The number of tokens of a piece. -/
def size : Nat := p.stop.position - p.start.position

/-- What the tokens of a piece say. -/
def contents : List (TokenKind × String) := (p.start.window p.stop).map Token.content

theorem position_lt : p.start.position < p.stop.position := by
  obtain ⟨i, j, hi, hij, hj, -⟩ := p.read.edge
  omega

theorem length_contents : p.contents.length = p.size := by
  have hinside := p.read.built.inside
  simp only [contents, window, length_map, length_take, length_drop,
    Array.length_toList, size]
  omega

theorem getElem?_contents {k : Nat} (hk : k < p.size) :
    ∃ t, origin.tokens[p.start.position + k]? = some t ∧ p.contents[k]? = some t.content := by
  have hinside := p.read.built.inside
  rw [p.tokens] at hinside
  unfold size at hk
  have hlt : p.start.position + k < origin.tokens.size := by omega
  refine ⟨_, Array.getElem?_eq_getElem hlt, ?_⟩
  rw [contents, window, p.tokens, getElem?_map, getElem?_take_of_lt hk,
    getElem?_drop, Array.getElem?_toList, Array.getElem?_eq_getElem hlt]
  rfl

/-- The text of a piece has its tokens, wherever it stands. -/
theorem closed (hscan : Token.scan origin.text = .ok origin.tokens.toList) :
    Token.Closed (p.expr.text origin.text).toList p.contents := by
  have hlt := p.position_lt
  have hinside := p.read.built.inside
  have htokens := p.read.built.tokens
  rw [p.tokens] at hinside htokens
  obtain ⟨first, hfirst⟩ : ∃ t, origin.tokens[p.start.position]? = some t :=
    ⟨_, Array.getElem?_eq_getElem (by omega)⟩
  obtain ⟨last, hlast⟩ : ∃ t, origin.tokens[p.stop.position - 1]? = some t :=
    ⟨_, Array.getElem?_eq_getElem (by omega)⟩
  have hpoint := p.read.built.closed hlt
  rw [afterPoint, decide_eq_true (by omega), Bool.true_and, pointAt, htokens, hlast] at hpoint
  obtain ⟨inner, hslice, hclosed⟩ := Token.closed_slice hscan
    ((Array.getElem?_toList).trans hfirst) ((Array.getElem?_toList).trans hlast) (by omega) hpoint
  have hstart : p.expr.span.start = first.start :=
    p.spans.1.trans (tokenStart_of_some (by rw [p.tokens]; exact hfirst))
  have hstop : p.expr.span.stop = last.stop := by
    refine p.spans.2.trans ?_
    rw [previousStop, if_neg (by omega)]
    exact tokenStop_of_some (by rw [htokens]; exact hlast)
  rw [show p.stop.position - 1 + 1 = p.stop.position by omega] at hclosed
  rw [Expr.text, Span.text, Text.slice, hstart, hstop, hslice, Option.getD_some,
    String.toList_ofList, contents, window, p.tokens]
  exact hclosed

/-! ### Copies of pieces -/

/-- The tokens of a piece stand at a place among others. -/
def StandsAt (copy : Array Token) (place : Nat) : Prop :=
  ∀ k < p.size, ∃ t u, origin.tokens[p.start.position + k]? = some t ∧ copy[place + k]? = some u ∧
    t.Same u

theorem standsAt_of_contents {copy : Array Token} (before : List (TokenKind × String))
    {after : List (TokenKind × String)}
    (h : copy.toList.map Token.content = before ++ (p.contents ++ after)) :
    p.StandsAt copy before.length := by
  intro k hk
  obtain ⟨t, ht, hcontent⟩ := p.getElem?_contents hk
  have hcopy : (copy.toList.map Token.content)[before.length + k]? = some t.content := by
    rw [h, getElem?_append_right (Nat.le_add_right _ _), Nat.add_sub_cancel_left,
      getElem?_append_left (by rw [p.length_contents]; exact hk), hcontent]
  rw [getElem?_map, Array.getElem?_toList] at hcopy
  obtain ⟨u, hu, hsame⟩ := Option.map_eq_some_iff.1 hcopy
  exact ⟨t, u, ht, hu, congrArg Prod.fst hsame, congrArg Prod.snd hsame⟩

end Piece

/-- From a place on, there are the tokens of pieces, each with `AND` before it, and no others. -/
inductive Follow {origin : Cursor} (copy : Array Token) : Nat → List (Piece origin) → Prop
  | nil : Follow copy copy.size []
  | cons {place : Nat} {u : Token} {p : Piece origin} {ps : List (Piece origin)}
      (token : copy[place]? = some u) (word : u.isWord "AND" = true)
      (stands : p.StandsAt copy (place + 1)) (others : Follow copy (place + 1 + p.size) ps) :
      Follow copy place (p :: ps)

variable {origin : Cursor} {copy : Array Token}

theorem follow_of_contents {before : List (TokenKind × String)} {ps : List (Piece origin)}
    (h : copy.toList.map Token.content =
      before ++ ps.flatMap fun p => (.word, "AND") :: p.contents) :
    Follow copy before.length ps := by
  induction ps generalizing before with
  | nil =>
    have hsize : copy.size = before.length := by
      simpa using congrArg List.length h
    rw [← hsize]
    exact .nil
  | cons p ps ih =>
    rw [flatMap_cons, cons_append] at h
    have hcopy : (copy.toList.map Token.content)[before.length]? = some (.word, "AND") := by
      rw [h, getElem?_append_right (Nat.le_refl _), Nat.sub_self]
      rfl
    rw [getElem?_map, Array.getElem?_toList] at hcopy
    obtain ⟨u, hu, hword⟩ := Option.map_eq_some_iff.1 hcopy
    obtain ⟨hkind, htext⟩ := Prod.mk.inj hword
    have hsplit : copy.toList.map Token.content = (before ++ [(.word, "AND")]) ++
        (p.contents ++ ps.flatMap fun p => (.word, "AND") :: p.contents) := by
      rw [h]
      simp
    have hstands := p.standsAt_of_contents _ hsplit
    rw [← append_assoc] at hsplit
    have hothers := ih hsplit
    rw [length_append, p.length_contents] at hothers
    rw [length_append] at hstands hothers
    exact .cons hu (by simp [Token.isWord, hkind, htext]) hstands hothers

/-- After a piece there is nothing, or `AND`. -/
theorem Follow.isWord {place : Nat} {ps : List (Piece origin)} (h : Follow copy place ps)
    {u : Token} (hu : copy[place]? = some u) : u.isWord "AND" = true := by
  cases h with
  | nil => simp at hu
  | cons token word stands others => exact Option.some.inj (token.symm.trans hu) ▸ word

theorem Follow.size_eq {place : Nat} (h : Follow copy place ([] : List (Piece origin))) :
    copy.size = place := by
  cases h
  rfl

/-! ### Reading a copy -/

/-- A cursor among the tokens of a copy, where `base` bound values are not counted. -/
structure Arrives (copy : Array Token) (base place count : Nat) (d : Cursor) : Prop where
  tokens : d.tokens = copy
  position : d.position = place
  placeholders : count = base + d.placeholders

section

variable {origin : Cursor} {copy : Array Token} {base place count : Nat} {d d' : Cursor}

/-- A piece and its copy. -/
def Piece.passage (p : Piece origin) (base : Nat) (hstands : p.StandsAt copy place)
    (hafter : ∀ u, copy[place + p.size]? = some u → u.isWord "AND" = true) : Passage where
  source := origin.tokens
  copy := copy
  first := p.start.position
  place := place
  stop := p.stop.position
  slack := if copy.size ≤ place + p.size then 0 else 1
  base := base
  view := .bare (· - base)
  copyView := .bare id
  fits := View.fits_bare base
  le := Nat.le_of_lt p.position_lt
  slack_le := by split <;> omega
  same k hk := by
    obtain ⟨t, u, ht, hu, htu⟩ := hstands k (by unfold Piece.size; omega)
    exact ⟨t, u, ht, hu, htu.alike, htu.2⟩
  after u hu := by
    have hlt := (Array.getElem?_eq_some_iff.1 hu).1
    exact ⟨if_neg (Nat.not_le_of_lt hlt), hafter u hu⟩
  whole := false
  entire := nofun

variable {p : Piece origin} {hstands : p.StandsAt copy place}
  {hafter : ∀ u, copy[place + p.size]? = some u → u.isWord "AND" = true}

theorem Arrives.level (h : Arrives copy base place p.start.placeholders d) :
    (p.passage base hstands hafter).Level p.start d where
  source := p.tokens
  copy := h.tokens
  place := ⟨0, rfl, h.position⟩
  inside := Nat.le_of_lt p.position_lt
  nodes := rfl
  placeholders := h.placeholders

theorem arrives_of_level (h : (p.passage base hstands hafter).Level p.stop d) :
    Arrives copy base (place + p.size) p.stop.placeholders d := by
  obtain ⟨k, hstop, hd⟩ := h.place
  refine ⟨h.copy, ?_, h.placeholders⟩
  rw [hd, Piece.size, hstop]
  exact congrArg (place + ·) (Nat.add_sub_cancel_left _ _).symm

/-- How many nodes there are does not matter. -/
theorem Piece.level_withNodes {c : Cursor} (h : (p.passage base hstands hafter).Level c d)
    (m n : Nat) :
    (p.passage base hstands hafter).Level { c with nodes := m } { d with nodes := n } :=
  ⟨h.source, h.copy, h.place, h.inside, rfl, h.placeholders⟩

end

variable {s : Passage} {depth depth' : Nat} {tier : Tier} {c c' d d' : Cursor}
  {e first left front : Expr}

/-- A conjunction that goes on in the copy, after whatever operand, ends where it ends in a stretch
that it does not reach the end of. -/
theorem Extended.level (h : Extended (operation? (upTo depth) .conjunction) first c front c')
    (hc : c.Sound) (hs : ¬s.Whole) (hdepth : 16 * s.copy.size + Tier.negation.rank ≤ depth')
    (hend : c'.position < s.stop) (hlevel : s.Level c d)
    (hcopy : Extended (operation? (upTo depth') .conjunction) left d e d') : s.Level c' d' := by
  have hlt : c.position < s.stop := Nat.lt_of_le_of_lt (h.position_le hc).1 hend
  induction h generalizing left d with
  | @done first c c' last =>
    obtain ⟨rfl, hnone⟩ := operation?_eq_none last
    obtain ⟨t, u, ht, hu, htu⟩ := hlevel.current_same hlt
    rcases hcopy.connective? rfl with ⟨-, rfl, -⟩ | ⟨hop, -⟩
    · exact hlevel
    · rw [hu, Option.bind_some, operator?_alike _ htu.toAlike] at hop
      rw [ht, Option.bind_some, hop] at hnone
      cases hnone
  | @more first longer longest c c₁ c' step others ih =>
    obtain ⟨op, right, c₂, hop, hright, rfl, rfl⟩ := operation?_eq_some step
    obtain ⟨t, u, ht, hu, htu⟩ := hlevel.current_same hlt
    have hop' : d.current.bind Tier.conjunction.operator? = some op := by
      rw [hu, Option.bind_some, operator?_alike _ htu.toAlike]
      rwa [ht] at hop
    have hsound := (stepped_operation hc step).sound
    have hle : c₂.position ≤ c'.position := (others.position_le hsound).1
    cases hcopy with
    | done last =>
      rw [(operation?_eq_none last).2] at hop'
      cases hop'
    | more step' others' =>
      obtain ⟨op', right', d₂, -, hright', rfl, rfl⟩ := operation?_eq_some step'
      obtain ⟨right'', d₃, hrun, -, hlevel₂⟩ :=
        replay_tier .negation hs hdepth (hlevel.next (.inl hlt)) hright
          (show c₂.position + 0 ≤ s.stop by omega)
      obtain ⟨rfl, rfl⟩ := EStateM.Result.ok.inj (hrun.symm.trans hright')
      exact ih hsound hend hlevel₂.built others' (show c₂.position < s.stop by omega)

/-! ### Conjuncts in the copy -/

section

variable {origin : Cursor} {copy : Array Token} {base place n : Nat} {right : Expr} {d₁ : Cursor}
  {p : Piece origin}

theorem Piece.groupAt : p.start.groupAt p.start.position = false :=
  groupAt_of_spans p.read p.spans

variable (hdepth : 16 * copy.size + Tier.negation.rank ≤ depth')

section

variable (harrives : Arrives copy base place p.start.placeholders d)
  (hstands : p.StandsAt copy place)
  (hafter : ∀ u, copy[place + p.size]? = some u → u.isWord "AND" = true)

include hdepth harrives hstands hafter

/-- A conjunct without a connective is read in the copy as a whole. -/
theorem Piece.exists_copy (hplain : p.expr.connective? = none) :
    ∃ right d₁, (upTo depth').tier .negation d = .ok right d₁ ∧
      Agree (.bare (· - base)) (.bare id) p.expr right ∧
      Arrives copy base (place + p.size) p.stop.placeholders d₁ := by
  have hrun := p.run
  rw [Expr.ownTier, hplain] at hrun
  obtain ⟨right, d₁, hcopy, hagree, hlevel⟩ := replay_tier (s := p.passage base hstands hafter)
    .negation Bool.false_ne_true hdepth harrives.level hrun (Nat.le_refl _)
  exact ⟨right, d₁, hcopy, hagree, arrives_of_level hlevel⟩

/-- A conjunct that is read in the copy up to the end of the copy, as operand of a conjunction, has
no connective: otherwise the conjunction would end where its connective stands. -/
theorem Piece.connective?_eq_none (hand : p.expr.connective? ≠ some .and)
    (hright : (upTo depth').tier .negation d = .ok right d₁)
    (hcopy : Extended (operation? (upTo depth') .conjunction) left { d₁ with nodes := n } e d')
    (hend : d'.atEnd = true) : p.expr.connective? = none := by
  cases hconn : p.expr.connective? with
  | none => rfl
  | some op =>
    have hrun := p.run
    rw [Expr.ownTier, hconn] at hrun
    obtain ⟨depth, first, c₁, front, c₂, hfirst, hfront, hlt⟩ :=
      exists_conjunction p.sound hrun p.groupAt hconn fun h => hand (h ▸ hconn)
    have hsound := ((builds_upTo depth).tier _ p.sound hfirst).built.sound_right
    have hle := (hfront.position_le hsound).1
    obtain ⟨right', d₂, hread, -, hlevel⟩ := replay_tier (s := p.passage base hstands hafter)
      .negation Bool.false_ne_true hdepth harrives.level hfirst
      (show c₁.position + 0 ≤ p.stop.position by omega)
    obtain ⟨rfl, rfl⟩ := EStateM.Result.ok.inj (hread.symm.trans hright)
    have hlevel' := hfront.level hsound Bool.false_ne_true hdepth hlt
      (Piece.level_withNodes hlevel c₁.nodes n) hcopy
    have hinside := hlevel'.position_lt hlt
    have htokens := hlevel'.copy
    rw [atEnd, decide_eq_true_eq, htokens] at hend
    omega

end

/-- What there is to know at the `AND` before a piece. -/
theorem Arrives.next {u : Token} {count : Nat} (h : Arrives copy base place count d)
    (hu : copy[place]? = some u) (hword : u.isWord "AND" = true) :
    d.current.bind Tier.conjunction.operator? = some .and ∧
      Arrives copy base (place + 1) count d.next := by
  have hcur : d.current = some u := by
    rw [current, h.tokens, h.position]
    exact hu
  refine ⟨?_, h.tokens ▸ next_tokens d, ?_, ?_⟩
  · simp [hcur, Tier.operator?, Tier.words, hword]
  · rw [next_position hcur, h.position]
  · rw [next_placeholders]
    exact h.placeholders

variable {ps : List (Piece origin)} {a b : Nat} (h : Follow copy place ps)
  (hchained : Chained Piece.Numbered a ps b) (harrives : Arrives copy base place a d)

include hdepth h hchained harrives

/-- Conjuncts that are read to the end of the copy have no connectives. -/
theorem Follow.connective?_eq_none (hand : ∀ p ∈ ps, p.expr.connective? ≠ some .and)
    (hcopy : Extended (operation? (upTo depth') .conjunction) left d e d')
    (hend : d'.atEnd = true) : ∀ p ∈ ps, p.expr.connective? = none := by
  induction h generalizing a left d with
  | nil => exact fun p hp => absurd hp not_mem_nil
  | @cons place u p ps token word stands others ih =>
    obtain ⟨count, ⟨rfl, rfl⟩, hchained⟩ := hchained.of_cons
    obtain ⟨hop, hnext⟩ := harrives.next token word
    cases hcopy with
    | done last =>
      rw [(operation?_eq_none last).2] at hop
      cases hop
    | more step others' =>
      obtain ⟨op, right, d₁, -, hright, rfl, rfl⟩ := operation?_eq_some step
      have hplain := p.connective?_eq_none hdepth hnext stands (fun _ => others.isWord)
        (hand p mem_cons_self) hright others' hend
      obtain ⟨right', d₂, hread, -, harrives'⟩ :=
        p.exists_copy hdepth hnext stands (fun _ => others.isWord) hplain
      obtain ⟨rfl, rfl⟩ := EStateM.Result.ok.inj (hread.symm.trans hright)
      have hothers := ih hchained (d := { d₂ with nodes := d₂.nodes + 1 })
        ⟨harrives'.tokens, harrives'.position, harrives'.placeholders⟩
        (fun q hq => hand q (mem_cons_of_mem _ hq)) others'
      exact forall_mem_cons.2 ⟨hplain, hothers⟩

/-- Conjuncts without connectives are read to the end of the copy, as what they are. -/
theorem Follow.exists_extended (hplain : ∀ p ∈ ps, p.expr.connective? = none) (left : Expr) :
    ∃ e d' es, Extended (operation? (upTo depth') .conjunction) left d e d' ∧ d'.tokens = copy ∧
      d'.position = copy.size ∧ e.conjuncts = left.conjuncts ++ es ∧
      Agree (.bare (· - base)) (.bare id) (ps.map Piece.expr) es := by
  induction h generalizing a left d with
  | nil =>
    have hnone : d.current.bind Tier.conjunction.operator? = none := by
      simp [current, harrives.tokens, harrives.position]
    exact ⟨left, d, [], .done (operation?_of_none hnone), harrives.tokens, harrives.position,
      (append_nil _).symm, agree_nil⟩
  | @cons place u p ps token word stands others ih =>
    obtain ⟨count, ⟨rfl, rfl⟩, hchained⟩ := hchained.of_cons
    obtain ⟨hop, hnext⟩ := harrives.next token word
    obtain ⟨right, d₁, hright, hagree, harrives'⟩ :=
      p.exists_copy hdepth hnext stands (fun _ => others.isWord) (hplain p mem_cons_self)
    obtain ⟨e, d', es, hextended, htokens, hposition, hconjuncts, hagrees⟩ :=
      ih hchained (d := { d₁ with nodes := d₁.nodes + 1 })
        ⟨harrives'.tokens, harrives'.position, harrives'.placeholders⟩
        (fun q hq => hplain q (mem_cons_of_mem _ hq))
        (.node d₁.nodes (left.span.join right.span) (.binary .and left right))
    have hsingle : right.conjuncts = [right] := conjuncts_of_ne_and (by
      rw [hagree.connective?_eq, hplain p mem_cons_self]
      exact (Option.some_ne_none _).symm)
    refine ⟨e, d', right :: es, .more (operation?_of_operator hop hright) hextended, htokens,
      hposition, ?_, hagree.cons hagrees⟩
    rw [hconjuncts, Expr.conjuncts, hsingle, append_assoc]
    rfl

end

end Grammar

/-! ### Texts of predicates -/

/-- The predicate that a text is. -/
def Expr.ofText? (text : String) : Option Expr :=
  match Cursor.ofText text with
  | .ok start =>
    match Grammar.parseExpr start with
    | .ok e stop => if stop.atEnd then some e else none
    | .error _ _ => none
  | .error _ => none

theorem Expr.ofText?_eq_some_iff {text : String} {tokens : List Token} {e : Expr}
    (hscan : Token.scan text = .ok tokens) :
    Expr.ofText? text = some e ↔
      ∃ stop, (Grammar.upTo (Grammar.depthFor tokens.toArray.size)).expr
          ⟨text, tokens.toArray, 0, 0, 0⟩ = .ok e stop ∧ stop.atEnd = true := by
  rw [Expr.ofText?, Cursor.ofText_eq_ok_iff.2 ⟨tokens, hscan, rfl⟩]
  show (match (Grammar.upTo (Grammar.depthFor tokens.toArray.size)).expr
      ⟨text, tokens.toArray, 0, 0, 0⟩ with
    | .ok e stop => if stop.atEnd then some e else none
    | .error _ _ => none) = some e ↔ _
  split
  next found stop hrun =>
    constructor
    · intro h
      split at h
      · cases h
        exact ⟨stop, hrun, ‹_›⟩
      · cases h
    · rintro ⟨stop', hrun', hend⟩
      obtain ⟨rfl, rfl⟩ := EStateM.Result.ok.inj (hrun.symm.trans hrun')
      exact if_pos hend
  next error stop hrun =>
    constructor
    · intro h
      cases h
    · rintro ⟨stop', hrun', -⟩
      cases hrun.symm.trans hrun'

/-- A text is a predicate whose conjuncts are those given, but for the numbers of nodes, the spans
and the count at which bound values start. -/
def Rereads (text : String) (conjuncts : List Expr) : Prop :=
  ∃ e base, Expr.ofText? text = some e ∧ Agree (.bare (· - base)) (.bare id) conjuncts e.conjuncts

namespace Grammar

section

variable {origin : Cursor} {p : Piece origin} {ps : List (Piece origin)} {copy : Array Token}
  {d d' : Cursor} {e : Expr} {a b base : Nat}
  (hd : d.Sound) (harrives : Arrives copy base 0 a d) (hstands : p.StandsAt copy 0)
  (hfollow : Follow copy (0 + p.size) ps) (hchained : Chained Piece.Numbered a (p :: ps) b)

theorem depthFor_eq (n : Nat) : depthFor n = 16 * n + 13 + 3 := by
  rw [depthFor]
  omega

include harrives hstands hfollow hchained

include hd in
theorem exists_conjuncts (hplain : ∀ q ∈ p :: ps, q.expr.connective? = none) :
    ∃ e d', (upTo (depthFor copy.size)).expr d = .ok e d' ∧ d'.atEnd = true ∧
      Agree (.bare (· - base)) (.bare id) ((p :: ps).map Piece.expr) e.conjuncts := by
  have hdepth : 16 * copy.size + Tier.negation.rank ≤ 16 * copy.size + 13 :=
    Nat.add_le_add_left (by decide) _
  obtain ⟨hp, hps⟩ := forall_mem_cons.1 hplain
  obtain ⟨count, ⟨rfl, rfl⟩, hchained⟩ := hchained.of_cons
  obtain ⟨first, d₁, hfirst, hagree, harrives₁⟩ :=
    p.exists_copy hdepth harrives hstands (fun _ => hfollow.isWord) hp
  obtain ⟨e, d', es, hextended, htokens, hposition, hconjuncts, hagrees⟩ :=
    hfollow.exists_extended hdepth hchained harrives₁ hps first
  have hend : d'.atEnd = true := decide_eq_true (by rw [htokens, hposition])
  refine ⟨e, d', ?_, hend, ?_⟩
  · rw [depthFor_eq]
    exact run_of_atEnd .disjunction rfl hd (run_of_atEnd .exclusion rfl hd
      (run_of_extended .conjunction rfl hd hfirst hextended) hend) hend
  · have hsingle : first.conjuncts = [first] := conjuncts_of_ne_and (by
      rw [hagree.connective?_eq, hp]
      nofun)
    rw [hconjuncts, hsingle]
    exact hagree.cons hagrees

omit hfollow hchained in
/-- One conjunct by itself is read whatever it is. -/
theorem exists_conjunct (hsize : copy.size = 0 + p.size) (ha : p.start.placeholders = a)
    (hconn : p.expr.connective? ≠ none) (hand : p.expr.connective? ≠ some .and) :
    ∃ e d', (upTo (depthFor copy.size)).expr d = .ok e d' ∧ d'.atEnd = true ∧
      Agree (.bare (· - base)) (.bare id) [p.expr] e.conjuncts := by
  subst ha
  have hafter : ∀ u, copy[0 + p.size]? = some u → u.isWord "AND" = true := by
    rw [← hsize]
    simp
  have hslack : (p.passage base hstands hafter).slack = 0 := if_pos (Nat.le_of_eq hsize)
  have hrun := p.run
  rw [Expr.ownTier, if_pos (Option.isSome_iff_ne_none.2 hconn)] at hrun
  have hdepth : 16 * copy.size + Tier.disjunction.rank ≤ depthFor copy.size := by
    have hrank : Tier.disjunction.rank ≤ 16 := by decide
    rw [depthFor_eq]
    omega
  obtain ⟨e, d', hread, hagree, hlevel⟩ := replay_tier (s := p.passage base hstands hafter)
    .disjunction Bool.false_ne_true hdepth harrives.level hrun
    (Nat.le_of_eq (congrArg (p.stop.position + ·) hslack))
  have harrives' := arrives_of_level hlevel
  refine ⟨e, d', hread, decide_eq_true ?_, ?_⟩
  · rw [harrives'.tokens, harrives'.position, hsize]
  · rw [conjuncts_of_ne_and (by rwa [hagree.connective?_eq])]
    exact hagree.cons agree_nil

theorem forall_connective?_eq_none (hps : ps ≠ [])
    (hand : ∀ q ∈ p :: ps, q.expr.connective? ≠ some .and)
    (hrun : (upTo (depthFor copy.size)).expr d = .ok e d') (hend : d'.atEnd = true)
    (hlength : e.conjuncts.length = (p :: ps).length) :
    ∀ q ∈ p :: ps, q.expr.connective? = none := by
  have hdepth : 16 * copy.size + Tier.negation.rank ≤ 16 * copy.size + 13 :=
    Nat.add_le_add_left (by decide) _
  have hisAnd : e.connective? = some .and := by
    by_cases h : e.connective? = some .and
    · exact h
    · rw [conjuncts_of_ne_and h] at hlength
      exact absurd (eq_nil_of_length_eq_zero (by simpa using hlength.symm)) hps
  obtain ⟨depth, first, d₁, hsame, hfirst, hextended⟩ := run_and hrun hisAnd
  obtain rfl : depth = 16 * copy.size + 13 := by
    rw [depthFor_eq] at hsame
    omega
  obtain ⟨count, ⟨rfl, rfl⟩, hchained⟩ := hchained.of_cons
  obtain ⟨handp, handps⟩ := forall_mem_cons.1 hand
  have hp := p.connective?_eq_none hdepth harrives hstands (fun _ => hfollow.isWord) handp hfirst
    hextended hend
  obtain ⟨first', d₂, hread, -, harrives₁⟩ :=
    p.exists_copy hdepth harrives hstands (fun _ => hfollow.isWord) hp
  obtain ⟨rfl, rfl⟩ := EStateM.Result.ok.inj (hread.symm.trans hfirst)
  exact forall_mem_cons.2
    ⟨hp, hfollow.connective?_eq_none hdepth hchained harrives₁ handps hextended hend⟩

end

/-- Pieces with `AND` between them are read as the same conjuncts if there is but one, or none has a
connective; otherwise they are not. -/
theorem rereads_pieces_iff {origin : Cursor} {p : Piece origin} {ps : List (Piece origin)}
    {a b : Nat}
    (hscan : Token.scan origin.text = .ok origin.tokens.toList)
    (hchained : Chained Piece.Numbered a (p :: ps) b)
    (hand : ∀ q ∈ p :: ps, q.expr.connective? ≠ some .and) :
    Rereads (" AND ".intercalate ((p :: ps).map fun q => q.expr.text origin.text))
        ((p :: ps).map Piece.expr) ↔
      ps = [] ∨ ∀ q ∈ p :: ps, q.expr.connective? = none := by
  obtain ⟨tokens, hglued, hcontents⟩ :=
    (Token.closed_intercalate fun q (_ : q ∈ p :: ps) => q.closed hscan).scan
  generalize (" AND ".intercalate ((p :: ps).map fun q => q.expr.text origin.text)) = glued at *
  have hd : Cursor.Sound ⟨glued, tokens.toArray, 0, 0, 0⟩ :=
    Cursor.sound_ofText (Cursor.ofText_eq_ok_iff.2 ⟨tokens, hglued, rfl⟩)
  have harrives : Arrives tokens.toArray a 0 a ⟨glued, tokens.toArray, 0, 0, 0⟩ := ⟨rfl, rfl, rfl⟩
  have hstands : p.StandsAt tokens.toArray 0 :=
    p.standsAt_of_contents [] hcontents
  have hfollow : Follow tokens.toArray (0 + p.size) ps := by
    rw [Nat.zero_add, ← p.length_contents]
    exact follow_of_contents hcontents
  constructor
  · rintro ⟨e, base, hread, hagree⟩
    obtain ⟨stop, hrun, hend⟩ := (Expr.ofText?_eq_some_iff hglued).1 hread
    refine or_iff_not_imp_left.2 fun hps => ?_
    have hlength : e.conjuncts.length = (p :: ps).length := by
      rw [hagree.length_eq, length_map]
    exact forall_connective?_eq_none harrives hstands hfollow hchained hps hand hrun hend hlength
  · intro h
    have hread : ∃ e d', (upTo (depthFor tokens.toArray.size)).expr
        ⟨glued, tokens.toArray, 0, 0, 0⟩ = .ok e d' ∧ d'.atEnd = true ∧
        Agree (.bare (· - a)) (.bare id) ((p :: ps).map Piece.expr) e.conjuncts := by
      by_cases hplain : ∀ q ∈ p :: ps, q.expr.connective? = none
      · exact exists_conjuncts hd harrives hstands hfollow hchained hplain
      · obtain rfl := h.resolve_right hplain
        obtain ⟨count, ⟨ha, -⟩, -⟩ := hchained.of_cons
        exact exists_conjunct harrives hstands hfollow.size_eq ha (by simpa using hplain)
          (hand p mem_cons_self)
    obtain ⟨e, d', hrun, hend, hagree⟩ := hread
    exact ⟨e, a, (Expr.ofText?_eq_some_iff hglued).2 ⟨d', hrun, hend⟩, hagree⟩

end Grammar

end SqlSignature

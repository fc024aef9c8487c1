import SqlSignature.Proofs.GrammarBuilt
/-!
# SqlSignature.Proofs.ExpressionEdges

Where the text of an expression starts and stops, against the tokens that were passed to read it.
The parentheses around an expression are not in its text, and neither is a collation behind it. If
such an expression is an operand at the edge of another one, then the text of the other lacks them,
too (`Framed`). An expression keeps its edges if there is no such operand (`Expr.KeepsEdges`); then
it was read in a group, or its text has all tokens that were passed (`frames_upTo`).
-/

open List

namespace SqlSignature

/-! ### Tokens around a stretch of text -/

namespace Token

/-- The first token at or behind an offset. -/
def behind? (tokens : List Token) (offset : Nat) : Option Token :=
  tokens.find? fun t => decide (offset ≤ t.start)

/-- The last token that stops at or before an offset. -/
def before? (tokens : List Token) (offset : Nat) : Option Token :=
  (tokens.takeWhile fun t => decide (t.stop ≤ offset)).getLast?

/-- Whether a group is opened right before an offset. -/
def opensBefore (tokens : List Token) (offset : Nat) : Bool :=
  (before? tokens offset).any (·.isSymbol "(")

/-- Whether a collation follows right behind an offset. -/
def collatesBehind (tokens : List Token) (offset : Nat) : Bool :=
  (behind? tokens offset).any (·.isWord "COLLATE")

/-- Whether a group is closed right behind an offset, or a collation follows. -/
def closesBehind (tokens : List Token) (offset : Nat) : Bool :=
  (behind? tokens offset).any fun t => t.isSymbol ")" || t.isWord "COLLATE"

/-- Whether a group is opened right before a stretch of text, and one is closed right behind it. -/
def enclose (tokens : List Token) (span : Span) : Bool :=
  opensBefore tokens span.start && closesBehind tokens span.stop

end Token

namespace Cursor

variable {c : Cursor}

theorem exists_of_mem_take {n : Nat} {t : Token} (h : t ∈ c.tokens.toList.take n) :
    ∃ i < n, c.tokens[i]? = some t := by
  obtain ⟨i, hi, hget⟩ := mem_take_iff_getElem.1 h
  refine ⟨i, by omega, ?_⟩
  rw [← Array.getElem?_toList, ← hget]
  exact getElem?_eq_getElem _

theorem Sound.behind?_tokenStop (hc : c.Sound) {j : Nat} (hj : j < c.tokens.size) :
    Token.behind? c.tokens.toList (c.tokenStop j) = c.tokens[j + 1]? := by
  have hfront : (c.tokens.toList.take (j + 1)).find?
      (fun t => decide (c.tokenStop j ≤ t.start)) = none := by
    refine find?_eq_none.2 fun t ht => ?_
    obtain ⟨i, hi, hget⟩ := exists_of_mem_take ht
    have hstop := hc.tokenStop_le hj (Nat.le_of_lt_succ hi)
    have hproper := (hc.proper_at hget).1
    rw [tokenStop_of_some hget] at hstop
    simp only [decide_eq_true_eq]
    omega
  have hrest : (c.tokens.toList.drop (j + 1)).find?
      (fun t => decide (c.tokenStop j ≤ t.start)) = (c.tokens.toList.drop (j + 1)).head? := by
    cases hdrop : c.tokens.toList.drop (j + 1) with
    | nil => rfl
    | cons t ts =>
      have hget : c.tokens[j + 1]? = some t := by
        rw [← Array.getElem?_toList, ← head?_drop, hdrop]
        rfl
      have hle := hc.tokenStop_le_tokenStart hj (Nat.lt_succ_self j)
      rw [tokenStart_of_some hget] at hle
      rw [find?_cons_of_pos (by simpa using hle)]
      rfl
  rw [Token.behind?, ← take_append_drop (j + 1) c.tokens.toList, find?_append, hfront,
    Option.none_or, hrest, head?_drop, Array.getElem?_toList]

theorem Sound.before?_tokenStart (hc : c.Sound) {i : Nat} (hi : i + 1 < c.tokens.size) :
    Token.before? c.tokens.toList (c.tokenStart (i + 1)) = c.tokens[i]? := by
  have hfront : ∀ t ∈ c.tokens.toList.take (i + 1),
      decide (t.stop ≤ c.tokenStart (i + 1)) = true := by
    intro t ht
    obtain ⟨k, hk, hget⟩ := exists_of_mem_take ht
    simpa using hc.stop_le_tokenStart hget hk
  have hrest : (c.tokens.toList.drop (i + 1)).takeWhile
      (fun t => decide (t.stop ≤ c.tokenStart (i + 1))) = [] := by
    have hget : c.tokens[i + 1]? = some c.tokens[i + 1] := Array.getElem?_eq_getElem hi
    have hproper := hc.start_lt_stop hi
    rw [tokenStop_of_some hget] at hproper
    rw [drop_eq_getElem_cons (by simpa using hi), takeWhile_cons_of_neg]
    simpa using hproper
  rw [Token.before?, ← take_append_drop (i + 1) c.tokens.toList,
    takeWhile_append_of_pos hfront, hrest, append_nil, getLast?_take]
  rw [if_neg (Nat.succ_ne_zero i), Nat.add_sub_cancel, Array.getElem?_toList,
    Array.getElem?_eq_getElem (Nat.lt_of_succ_lt hi)]
  rfl

end Cursor

/-! ### Edges of an expression -/

namespace Expr

/-- No operand that an expression starts with stands in parentheses. -/
def KeepsLeft (tokens : List Token) (e : Expr) : Prop :=
  ∀ n ∈ e.form.nodes, n.span.start = e.span.start → Token.enclose tokens n.span = false

/-- No operand that an expression ends with stands in parentheses. -/
def KeepsRight (tokens : List Token) (e : Expr) : Prop :=
  ∀ n ∈ e.form.nodes, n.span.stop = e.span.stop → Token.enclose tokens n.span = false

/-- An expression whose text has all parentheses that its operands stand in, and its collation: at
its edges, where the text would lose them, there are none. -/
structure KeepsEdges (tokens : List Token) (e : Expr) : Prop where
  left : e.KeepsLeft tokens
  right : e.KeepsRight tokens
  last : Token.collatesBehind tokens e.span.stop = false

instance (tokens : List Token) (e : Expr) : Decidable (e.KeepsEdges tokens) :=
  decidable_of_iff ((∀ n ∈ e.form.nodes, n.span.start = e.span.start →
      Token.enclose tokens n.span = false) ∧
    (∀ n ∈ e.form.nodes, n.span.stop = e.span.stop → Token.enclose tokens n.span = false) ∧
    Token.collatesBehind tokens e.span.stop = false)
    ⟨fun ⟨left, right, last⟩ => ⟨left, right, last⟩, fun h => ⟨h.left, h.right, h.last⟩⟩

theorem mem_nodes_self (e : Expr) : e ∈ e.nodes := by
  cases e
  exact mem_cons_self

theorem form_nodes_subset (e : Expr) : e.form.nodes ⊆ e.nodes := by
  cases e
  exact subset_cons_self _ _

variable {tokens : List Token} {part e : Expr}

theorem KeepsLeft.inner (h : e.KeepsLeft tokens) (hnodes : part.nodes ⊆ e.form.nodes)
    (hstart : e.span.start = part.span.start) :
    part.KeepsLeft tokens ∧ Token.enclose tokens part.span = false :=
  ⟨fun n hn hn' => h n (hnodes (part.form_nodes_subset hn)) (hn'.trans hstart.symm),
    h part (hnodes part.mem_nodes_self) hstart.symm⟩

theorem KeepsRight.inner (h : e.KeepsRight tokens) (hnodes : part.nodes ⊆ e.form.nodes)
    (hstop : e.span.stop = part.span.stop) :
    part.KeepsRight tokens ∧ Token.enclose tokens part.span = false :=
  ⟨fun n hn hn' => h n (hnodes (part.form_nodes_subset hn)) (hn'.trans hstop.symm),
    h part (hnodes part.mem_nodes_self) hstop.symm⟩

end Expr

namespace Cursor

/-- An expression that was read from the place `c` up to the place `c'` inside a group. -/
structure Grouped (c : Cursor) (e : Expr) (c' : Cursor) : Prop where
  opens : Token.opensBefore c.tokens.toList e.span.start = true
  closes : Token.closesBehind c.tokens.toList e.span.stop = true
  inner : ∃ c₁ c₂ depth, Passed c c₁ ∧ c.position < c₁.position ∧
    (Grammar.upTo depth).expr c₁ = .ok e c₂ ∧ Passed c₂ c'

theorem Grouped.enclosed {c c' : Cursor} {e : Expr} (h : Grouped c e c') :
    Token.enclose c.tokens.toList e.span = true := by
  rw [Token.enclose, h.opens, h.closes]
  rfl

/-- How the edges of an expression that was read from the place `c` up to the place `c'` lie to
these. Only parentheses and collations are passed that it does not reach over. -/
structure Framed (c : Cursor) (e : Expr) (c' : Cursor) : Prop where
  start : e.span.start = c.tokenStart c.position ∨ Token.opensBefore c.tokens.toList e.span.start
  stop : e.span.stop = c'.previousStop ∨ Token.closesBehind c.tokens.toList e.span.stop
  edges : Grouped c e c' ∨
    (e.KeepsLeft c.tokens.toList → e.span.start = c.tokenStart c.position) ∧
      (e.KeepsRight c.tokens.toList →
        e.span.stop = c'.previousStop ∨ Token.collatesBehind c.tokens.toList e.span.stop)

variable {c c₁ c₂ c' d : Cursor} {e left right : Expr}

namespace Framed

theorem ofExact (hstart : e.span.start = c.tokenStart c.position)
    (hstop : e.span.stop = c'.previousStop) : Framed c e c' :=
  ⟨.inl hstart, .inl hstop, .inr ⟨fun _ => hstart, fun _ => .inl hstop⟩⟩

/-- An expression that starts with one that was read before. -/
theorem grow (h : Framed c left d) (hstart : e.span.start = left.span.start)
    (hnodes : left.nodes ⊆ e.form.nodes)
    (hstop : e.span.stop = c'.previousStop ∨ Token.closesBehind c.tokens.toList e.span.stop)
    (hright : e.KeepsRight c.tokens.toList →
      e.span.stop = c'.previousStop ∨ Token.collatesBehind c.tokens.toList e.span.stop) :
    Framed c e c' := by
  refine ⟨hstart ▸ h.start, hstop, .inr ⟨fun hleft => ?_, hright⟩⟩
  obtain ⟨hkeeps, houtside⟩ := hleft.inner hnodes hstart
  rcases h.edges with hgroup | ⟨hexact, -⟩
  · rw [hgroup.enclosed] at houtside
    cases houtside
  · exact hstart.trans (hexact hkeeps)

/-- An operation with its two operands. -/
theorem combine {id : Nat} {op : BinaryOp} (hleft : Framed c left c₁) (hright : Framed c₂ right d)
    (htokens : c₂.tokens = c.tokens) (hprevious : c'.previousStop = d.previousStop)
    (hspan : left.span.join right.span = ⟨left.span.start, right.span.stop⟩) :
    Framed c (.node id (left.span.join right.span) (.binary op left right)) c' := by
  have hnodes : left.nodes ⊆ (ExprForm.binary op left right).nodes := subset_append_left _ _
  have hnodes' : right.nodes ⊆ (ExprForm.binary op left right).nodes := subset_append_right _ _
  refine hleft.grow (by rw [Expr.span_node, hspan]) hnodes ?_ fun hkeeps => ?_
  · rw [Expr.span_node, hspan, hprevious, ← htokens]
    exact hright.stop
  · have hstop : (Expr.node id (left.span.join right.span) (.binary op left right)).span.stop =
        right.span.stop := by rw [Expr.span_node, hspan]
    obtain ⟨hkeeps, houtside⟩ := hkeeps.inner hnodes' hstop
    rw [hstop, hprevious, ← htokens]
    rw [← htokens] at hkeeps houtside
    rcases hright.edges with hgroup | ⟨-, hexact⟩
    · rw [hgroup.enclosed] at houtside
      cases houtside
    · exact hexact hkeeps

end Framed

end Cursor

namespace Grammar

open SqlSignature.Cursor SqlSignature.Parser

variable {P : Cursor → Prop} {g : Grammar} {start : Nat}

/-! ### Frames -/

/-- A parser whose results are framed. -/
def Frames (p : Parser Expr) : Prop := ∀ ⦃c e c'⦄, c.Sound → p c = .ok e c' → Framed c e c'

variable {tier : Tier} {c d c' : Cursor} {left e : Expr}

/-- A node that reaches up to the last token stops where that does. -/
theorem stop_eq_of_ended {inner : List Expr} (h : Ended c start inner e c') :
    e.span.stop = c'.previousStop :=
  Nat.le_antisymm (h.stop_le_previousStop (.refl c')) h.stop

theorem framed_of_whole (h : Whole c e c') : Framed c e c' := .ofExact h.start (stop_eq_of_ended h)

theorem Grows.framed (hg : g.Builds) (hframes : Frames (g.tier tier.next)) (hleft : Read c left d)
    (hframed : Framed c left d) (h : Grows g tier c d left e c') : Framed c e c' := by
  cases h with
  | ended h =>
    have hstop := stop_eq_of_ended h
    exact hframed.grow h.start h.inner (.inl hstop) fun _ => .inl hstop
  | @combined op right c₁ c₂ passed operator right_run =>
    have hpassed := hleft.pass passed
    have hsound := hpassed.built.sound_right
    exact hframed.combine (hframes hsound right_run) hpassed.built.tokens rfl
      (hpassed.join_span (hg.tier _ hsound right_run))

theorem frames_extend {step : Expr → Parser (Option Expr)} (hg : g.Builds)
    (hframes : Frames (g.tier tier.next)) (hstep : Extends g tier step) :
    Frames (do extend step (← g.tier tier.next)) := by
  intro c e c' hc hrun
  obtain ⟨first, c₁, hfirst, hrun⟩ := bind_eq_ok.1 hrun
  refine (Ensures.extend (P := fun e d => Read c e d ∧ Framed c e d) (fun e => ?_) first
    ⟨hg.tier _ hc hfirst, hframes hc hfirst⟩ hrun).2
  rintro d longer d' ⟨hread, hframed⟩ hrun
  have hgrown := hstep hread rfl hrun
  refine ⟨hgrown.read hg hread, ?_⟩
  cases longer with
  | some longer => exact Grows.framed hg hframes hread hframed hgrown
  | none => exact hgrown ▸ hframed

/-- Behind an expression that reaches up to the last token stands the next token. -/
theorem behind?_eq_current (hread : Read c e c') (h : e.span.stop = c'.previousStop) :
    Token.behind? c.tokens.toList e.span.stop = c'.current := by
  obtain ⟨i, j, _, _, hj, _⟩ := hread.edge
  have hinside := hread.built.inside
  have hsound := hread.built.sound
  rw [h, previousStop, if_neg (by omega), hread.built.tokenStop_eq,
    hsound.behind?_tokenStop (by omega), current, hread.built.tokens, Nat.sub_add_cancel (by omega)]

/-- A collation is passed, but not reached over. -/
theorem framed_collate {d : Cursor} (hread : Read c e d) (h : Framed c e d)
    (hword : d.isWord "COLLATE" = true) (hp : Passed d c') : Framed c e c' := by
  have hcollates : e.span.stop = d.previousStop →
      Token.collatesBehind c.tokens.toList e.span.stop = true := fun hstop => by
    rw [Token.collatesBehind, behind?_eq_current hread hstop]
    exact hword
  have hcloses : Token.collatesBehind c.tokens.toList e.span.stop = true →
      Token.closesBehind c.tokens.toList e.span.stop = true := fun hcollates => by
    obtain ⟨t, ht, hcollate⟩ := (Option.any_eq_true _ _).1 hcollates
    exact (Option.any_eq_true _ _).2 ⟨t, ht, by rw [hcollate, Bool.or_true]⟩
  refine ⟨h.start, .inr ?_, ?_⟩
  · exact h.stop.elim (fun hstop => hcloses (hcollates hstop)) fun hclosed => hclosed
  · rcases h.edges with hgroup | ⟨hleft, hright⟩
    · obtain ⟨c₁, c₂, depth, hopen, hlt, hrun, hclose⟩ := hgroup.inner
      exact .inl ⟨hgroup.opens, hgroup.closes, c₁, c₂, depth, hopen, hlt, hrun, hclose.trans hp⟩
    · exact .inr ⟨hleft, fun hkeeps => .inr ((hright hkeeps).elim hcollates fun h => h)⟩

theorem frames_signed (hg : g.Builds) (hprimary : Frames g.primary) : Frames (signed g) := by
  intro c e c' hc hrun
  rcases signed_cases hg hc hrun with hwhole | hoperand | ⟨d, hoperand, hcollate, hpassed⟩
  · exact framed_of_whole hwhole
  · exact hprimary hc hoperand
  · exact framed_collate (hg.primary hc hoperand) (hprimary hc hoperand) hcollate hpassed

theorem frames_negation (hg : g.Builds) (hpredicate : Frames (g.tier .predicate)) :
    Frames (negation g) := by
  intro c e c' hc hrun
  rcases negation_cases hg hc hrun with hwhole | hoperand
  · exact framed_of_whole hwhole
  · exact hpredicate hc hoperand

theorem frames_tierRule (hg : g.Builds) (hframes : ∀ t, Frames (g.tier t))
    (hprimary : Frames g.primary) (tier : Tier) : Frames (tierRule g tier) := by
  cases tier
  case negation => exact frames_negation hg (hframes _)
  case unary => exact frames_signed hg hprimary
  case predicate =>
    exact @frames_extend g .predicate _ hg (hframes _) fun _ _ _ => grown_predicate hg
  all_goals exact frames_extend hg (hframes _) fun _ e d _ => grown_operation _ e d

/-! ### Primary expressions -/

/-- A group is passed, but not reached over. -/
theorem framed_of_enclosed {depth : Nat} (hframes : Frames (upTo depth).expr) (hc : c.Sound)
    (h : Enclosed (upTo depth) c e c') : Framed c e c' := by
  obtain ⟨t, hcur, hopen⟩ := (Option.any_eq_true _ _).1 h.opens
  obtain ⟨c₂, hrun, hclose, rfl⟩ := h.inner
  have hpassed : Passed c c.next := .next hcur (t.passable_of_isSymbol hopen (by decide))
  have hsound := (Built.ofPassed hc hpassed).sound_right
  have hread := (builds_upTo depth).expr hsound hrun
  have hframed := hframes hsound hrun
  have htokens : c.next.tokens = c.tokens := hpassed.tokens
  have hopens : Token.opensBefore c.tokens.toList e.span.start = true := by
    refine htokens ▸ hframed.start.elim (fun hstart => ?_) id
    obtain ⟨i, j, hi, hij, hj, _⟩ := hread.edge
    have hinside := hread.built.inside
    rw [next_position hcur] at hi
    rw [hstart, next_position hcur, Token.opensBefore, hsound.before?_tokenStart (by omega),
      htokens]
    exact h.opens
  have hcloses : Token.closesBehind c.tokens.toList e.span.stop = true := by
    refine htokens ▸ hframed.stop.elim (fun hstop => ?_) id
    rw [Token.closesBehind, behind?_eq_current hread hstop]
    obtain ⟨u, hu, hsymbol⟩ := (Option.any_eq_true _ _).1 hclose
    exact (Option.any_eq_true _ _).2 ⟨u, hu, by rw [hsymbol, Bool.true_or]⟩
  obtain ⟨u, hu, hsymbol⟩ := (Option.any_eq_true _ _).1 hclose
  have hlt : c.position < c.next.position := by
    rw [next_position hcur]
    exact Nat.lt_succ_self _
  refine ⟨.inr hopens, .inr hcloses,
    .inl ⟨hopens, hcloses, c.next, c₂, depth, hpassed, hlt, hrun, ?_⟩⟩
  exact .next hu (u.passable_of_isSymbol hsymbol (by decide))

theorem frames_upTo (depth : Nat) :
    (∀ tier, Frames ((upTo depth).tier tier)) ∧ Frames (upTo depth).primary := by
  induction depth with
  | zero =>
    refine ⟨fun tier c e c' _ hrun => ?_, fun c e c' _ hrun => ?_⟩
    · cases hrun
    · cases hrun
  | succ depth ih =>
    refine ⟨frames_tierRule (builds_upTo depth) ih.1 ih.2, fun c e c' hc hrun => ?_⟩
    rcases primary_primaryRule (builds_upTo depth) hc rfl hrun with hwhole | ⟨-, henclosed⟩
    · exact framed_of_whole hwhole
    · exact framed_of_enclosed (ih.1 _) hc henclosed

end Grammar

end SqlSignature

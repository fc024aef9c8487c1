import Mathlib.Data.List.Range
import SqlSignature.Grammar.Statement
import SqlSignature.Proofs.CursorMoves
import SqlSignature.Proofs.TreeNodes
/-!
# SqlSignature.Proofs.NodesBuilt

What a run of a parser builds. Every node that is built ends up in the result, once, and the nodes
carry the numbers that were given out. Every placeholder among the tokens that were passed becomes a
node with the next ordinal, at the place where it stands, unless it stands in the type that a cast
names, which is skipped unseen. A node spans the nodes below it, and nodes of which neither is below
the other stand behind each other. The nodes of a left operand are built before those of the right
one. `Cursor.Built` says so for a run and what it has built so far, and `Statement.nodes_built` for
a whole statement.
-/

open List

namespace SqlSignature

/-! ### Spans -/

/-- A span lies inside another one. -/
def Span.Within (inner outer : Span) : Prop :=
  outer.start ≤ inner.start ∧ inner.stop ≤ outer.stop

/-- A span ends before another one begins. -/
def Span.Before (a b : Span) : Prop := a.stop ≤ b.start

/-! ### Placeholders in a text and in a tree -/

/-- Where a placeholder stands, and its ordinal. -/
def Expr.mark? (e : Expr) : Option (Nat × Nat) :=
  e.ordinal?.map fun ordinal => (e.span.start, ordinal)

theorem Expr.filterMap_ordinal? (es : List Expr) :
    es.filterMap ordinal? = (es.filterMap mark?).map Prod.snd := by
  rw [map_filterMap]
  refine filterMap_congr fun e _ => ?_
  rw [mark?, Option.map_map]
  exact Option.map_id'.symm

/-- Whether an offset lies in the type that a cast names, behind the operand of the cast. -/
def Expr.inTarget (e : Expr) (offset : Nat) : Bool :=
  match e.form with
  | .cast operand _ => decide (operand.span.stop ≤ offset) && decide (offset < e.span.stop)
  | _ => false

/-- Where the placeholders among some tokens start. -/
def Token.placeholderStarts (tokens : List Token) : List Nat :=
  (tokens.filter fun t => t.kind == .placeholder).map Token.start

theorem Token.placeholderStarts_append (ts us : List Token) :
    placeholderStarts (ts ++ us) = placeholderStarts ts ++ placeholderStarts us := by
  simp [placeholderStarts]

/-- Whether the operands of an operator are built one after the other. -/
def ExprForm.LeftFirst (form : ExprForm) : Prop :=
  ∀ op left right, form = .binary op left right → ∀ n ∈ left.nodes, ∀ m ∈ right.nodes, n.id < m.id

namespace Cursor

/-- The tokens between two places. -/
def window (c c' : Cursor) : List Token :=
  (c.tokens.toList.drop c.position).take (c'.position - c.position)

/-- Where the placeholders between two places start, those in the types of casts left out. -/
def boundStarts (c : Cursor) (built : List Expr) (c' : Cursor) : List Nat :=
  (Token.placeholderStarts (c.window c')).filter fun offset => !built.any (·.inTarget offset)

/-- A span from where a token starts to where a token stops, both in a range. The first does not
open a group, and the last is no point. -/
def Edged (c : Cursor) (first last : Nat) (span : Span) : Prop :=
  ∃ i j, first ≤ i ∧ i ≤ j ∧ j < last ∧ span.start = c.tokenStart i ∧ span.stop = c.tokenStop j ∧
    c.groupAt i = false ∧ c.pointAt j = false

/-- What a run has built since a place `c`, up to the place `c'`. -/
structure Built (c : Cursor) (built : List Expr) (c' : Cursor) : Prop where
  sound : c.Sound
  text : c'.text = c.text
  tokens : c'.tokens = c.tokens
  le : c.position ≤ c'.position
  inside : c'.position ≤ c.tokens.size
  closed : c.position < c'.position → c'.afterPoint = false
  nodes : c'.nodes = c.nodes + built.length
  ids : (built.map Expr.id).Perm (List.range' c.nodes built.length)
  /-- A node is built after the nodes below it. -/
  below : ∀ e ∈ built, ∀ n ∈ e.form.nodes, n.id < e.id
  edges : ∀ e ∈ built, c.Edged c.position c'.position e.span
  covers : ∀ e ∈ built, ∀ n ∈ e.form.nodes, n.span.Within e.span
  /-- What is built later is above what was built earlier, or stands behind it. -/
  ordered : ∀ e ∈ built, ∀ f ∈ built, e.id < f.id → e ∈ f.form.nodes ∨ e.span.Before f.span
  targets : ∀ e ∈ built, ∀ offset, e.inTarget offset = true → c.tokenStart c.position ≤ offset
  placeholders : c'.placeholders = c.placeholders + (c.boundStarts built c').length
  marks : (built.filterMap Expr.mark?).Perm ((c.boundStarts built c').zipIdx c.placeholders)
  /-- Placeholders are numbered in the order in which they are built. -/
  numbered : ∀ e ∈ built, ∀ f ∈ built, ∀ i ∈ e.ordinal?, ∀ j ∈ f.ordinal?, e.id < f.id → i < j
  operands : ∀ e ∈ built, e.form.LeftFirst

/-- An expression that was read from the place `c` up to the place `c'`. -/
structure Read (c : Cursor) (e : Expr) (c' : Cursor) : Prop where
  built : Built c e.nodes c'
  /-- All its placeholders lie before its end. -/
  marks_lt : ∀ n ∈ e.nodes, ∀ m ∈ n.mark?, m.1 < e.span.stop

/-! ### Windows -/

theorem mem_window {c c' : Cursor} {t : Token} (h : t ∈ c.window c') :
    ∃ i, c.position ≤ i ∧ i < c'.position ∧ c.tokens[i]? = some t := by
  obtain ⟨k, hk, rfl⟩ := mem_iff_getElem.1 h
  simp only [window, length_take, length_drop, Array.length_toList] at hk
  refine ⟨c.position + k, by omega, by omega, ?_⟩
  simp only [window, getElem_take, getElem_drop, Array.getElem_toList]
  exact Array.getElem?_eq_getElem _

theorem window_append {c c₁ c₂ : Cursor} (htokens : c₁.tokens = c.tokens)
    (h₁ : c.position ≤ c₁.position) (h₂ : c₁.position ≤ c₂.position) :
    c.window c₂ = c.window c₁ ++ c₁.window c₂ := by
  have hsplit : c₂.position - c.position =
      (c₁.position - c.position) + (c₂.position - c₁.position) := by omega
  rw [window, hsplit, take_add, drop_drop, window, window, htokens,
    Nat.add_sub_cancel' h₁]

/-- A window over tokens that are no placeholders has no placeholders. -/
theorem Passed.placeholderStarts {c c' : Cursor} (h : Passed c c') :
    Token.placeholderStarts (c.window c') = [] := by
  simp only [Token.placeholderStarts, map_eq_nil_iff, filter_eq_nil_iff, beq_iff_eq]
  intro t ht
  obtain ⟨i, hi, hlt, hit⟩ := mem_window ht
  exact h.plain i t hi hlt hit

theorem mem_placeholderStarts {c c' : Cursor} {o : Nat}
    (h : o ∈ Token.placeholderStarts (c.window c')) :
    ∃ i t, c.position ≤ i ∧ i < c'.position ∧ c.tokens[i]? = some t ∧ t.start = o := by
  obtain ⟨t, ht, rfl⟩ := mem_map.1 h
  obtain ⟨i, hi, hlt, hit⟩ := mem_window (mem_of_mem_filter ht)
  exact ⟨i, t, hi, hlt, hit, rfl⟩

/-! ### Edges -/

theorem Edged.mono {c : Cursor} {a b a' b' : Nat} {span : Span} (h : c.Edged a b span)
    (ha : a' ≤ a) (hb : b ≤ b') : c.Edged a' b' span := by
  obtain ⟨i, j, hi, hij, hj, hrest⟩ := h
  exact ⟨i, j, by omega, hij, by omega, hrest⟩

theorem Edged.of_eq {c c' : Cursor} {a b : Nat} {span : Span} (h : c'.Edged a b span)
    (htokens : c'.tokens = c.tokens) (htext : c'.text = c.text) : c.Edged a b span := by
  simpa only [Edged, tokenStart, tokenStop, groupAt, pointAt, htokens, htext] using h

variable {c c' c₁ c₂ c₃ : Cursor} {built more : List Expr} {e left right : Expr}

/-- Before a place, the last token has stopped. -/
theorem Sound.previousStop_le (hc : c.Sound) : c.previousStop ≤ c.tokenStart c.position := by
  unfold previousStop
  split
  · exact Nat.zero_le _
  · have := hc.inside
    exact hc.tokenStop_le_tokenStart (by omega) (by omega)

/-! ### Runs -/

namespace Built

/-- Passing tokens that are no placeholders builds nothing. -/
theorem ofPassed (hc : c.Sound) (h : Passed c c') : Built c [] c' where
  sound := hc
  text := h.text
  tokens := h.tokens
  le := h.le
  inside := h.inside hc.inside
  closed := h.closed
  nodes := h.nodes
  ids := .refl _
  below := nofun
  edges := nofun
  covers := nofun
  ordered := nofun
  targets := nofun
  placeholders := by simp [boundStarts, h.placeholderStarts, h.placeholders]
  marks := by simp [boundStarts, h.placeholderStarts]
  numbered := nofun
  operands := nofun

/-- Nothing was built yet. -/
theorem refl (hc : c.Sound) : Built c [] c := .ofPassed hc (.refl c)

section

variable (h : Built c built c')

include h

theorem tokenStart_eq (i : Nat) : c'.tokenStart i = c.tokenStart i := by
  simp [tokenStart, h.tokens, h.text]

theorem tokenStop_eq (i : Nat) : c'.tokenStop i = c.tokenStop i := by
  simp [tokenStop, h.tokens, h.text]

theorem sound_right : c'.Sound where
  ordered := h.tokens ▸ h.sound.ordered
  proper := by rw [h.tokens, h.text]; exact h.sound.proper
  inside := h.tokens ▸ h.inside

theorem perm (hperm : built.Perm more) : Built c more c' := by
  have hstarts : c.boundStarts more c' = c.boundStarts built c' := by
    unfold boundStarts
    congr! 3
    rw [Bool.eq_iff_iff]
    simp only [any_eq_true, hperm.mem_iff]
  exact {
    h with
    nodes := hperm.length_eq ▸ h.nodes
    ids := hperm.length_eq ▸ ((hperm.map _).symm.trans h.ids)
    below := fun e he => h.below e (hperm.mem_iff.2 he)
    edges := fun e he => h.edges e (hperm.mem_iff.2 he)
    covers := fun e he => h.covers e (hperm.mem_iff.2 he)
    ordered := fun e he f hf => h.ordered e (hperm.mem_iff.2 he) f (hperm.mem_iff.2 hf)
    targets := fun e he => h.targets e (hperm.mem_iff.2 he)
    placeholders := hstarts ▸ h.placeholders
    marks := hstarts ▸ ((hperm.filterMap _).symm.trans h.marks)
    numbered := fun e he f hf => h.numbered e (hperm.mem_iff.2 he) f (hperm.mem_iff.2 hf)
    operands := fun e he => h.operands e (hperm.mem_iff.2 he) }

/-- The numbers that were given to nodes. -/
theorem id_range (he : e ∈ built) : c.nodes ≤ e.id ∧ e.id < c'.nodes := by
  have hmem := h.ids.mem_iff.1 (mem_map_of_mem he)
  rw [mem_range'_1, ← h.nodes] at hmem
  exact hmem

/-- The numbers that were given to placeholders. -/
theorem ordinal_range (he : e ∈ built) {i : Nat} (hi : i ∈ e.ordinal?) :
    c.placeholders ≤ i ∧ i < c'.placeholders := by
  have hmark : (e.span.start, i) ∈ e.mark? := by
    rw [Expr.mark?, Option.mem_def.1 hi]
    rfl
  have hmem := h.marks.mem_iff.1 (mem_filterMap.2 ⟨e, he, hmark⟩)
  obtain ⟨hle, hlt, -⟩ := mem_zipIdx hmem
  exact ⟨hle, h.placeholders ▸ hlt⟩

end

/-- The tokens of a run end where its last token stops. -/
theorem stop_le_previousStop (h : Built c built c₁) (hm : Moved c₁ c₂) {i : Nat}
    (hi : i < c₂.position) : c.tokenStop i ≤ c₂.previousStop := by
  have hpos : c₂.position ≠ 0 := by omega
  have hinside : c₂.position ≤ c.tokens.size := h.tokens ▸ hm.inside (h.tokens ▸ h.inside)
  rw [previousStop, if_neg hpos, tokenStop, tokenStop, hm.tokens, hm.text, h.tokens, h.text]
  exact h.sound.tokenStop_le (by omega) (by omega)

theorem target_lt (h : Built c built c') (he : e ∈ built) {o : Nat} (ho : e.inTarget o = true) :
    o < c'.previousStop := by
  obtain ⟨i, j, _, _, hj, _, hstop, _⟩ := h.edges e he
  have hlt : o < e.span.stop := by
    unfold Expr.inTarget at ho
    split at ho
    · simp only [Bool.and_eq_true, decide_eq_true_eq] at ho
      exact ho.2
    · cases ho
  exact Nat.lt_of_lt_of_le (hstop ▸ hlt) (h.stop_le_previousStop (.refl c') hj)

section

variable (h₁ : Built c built c₁) (h₂ : Built c₁ more c₂)

include h₁ h₂

/-- The placeholders of two runs in a row are those of the first and then those of the second: the
casts of the one do not reach into the other. -/
theorem boundStarts_append :
    c.boundStarts (built ++ more) c₂ = c.boundStarts built c₁ ++ c₁.boundStarts more c₂ := by
  have hfirst : ∀ o ∈ Token.placeholderStarts (c.window c₁), more.any (·.inTarget o) = false := by
    intro o ho
    obtain ⟨i, t, _, hlt, hit, rfl⟩ := mem_placeholderStarts ho
    simp only [any_eq_false]
    intro e he htarget
    have hge := h₂.targets e he _ htarget
    have hle := h₁.sound.stop_le_tokenStart hit hlt
    have hproper := (h₁.sound.proper_at hit).1
    rw [h₁.tokenStart_eq] at hge
    omega
  have hsecond : ∀ o ∈ Token.placeholderStarts (c₁.window c₂),
      built.any (·.inTarget o) = false := by
    intro o ho
    obtain ⟨i, t, hi, hlt, hit, rfl⟩ := mem_placeholderStarts ho
    simp only [any_eq_false]
    intro e he htarget
    have hlt' := h₁.target_lt he htarget
    have hprevious := h₁.sound_right.previousStop_le
    have hsize : i < c₁.tokens.size := (Array.getElem?_eq_some_iff.1 hit).1
    have hstart := h₁.sound_right.tokenStart_le hsize hi
    rw [tokenStart_of_some hit] at hstart
    omega
  rw [boundStarts, window_append h₁.tokens h₁.le h₂.le, Token.placeholderStarts_append,
    filter_append, boundStarts, boundStarts]
  congr 1
  · refine filter_congr fun o ho => ?_
    rw [any_append, hfirst o ho, Bool.or_false]
  · refine filter_congr fun o ho => ?_
    rw [any_append, hsecond o ho, Bool.false_or]

/-- What a run builds stands behind what was built before. -/
theorem before_of_built {f : Expr} (he : e ∈ built)
    (hf : f ∈ more) : e.span.Before f.span := by
  obtain ⟨_, j, _, _, hj, _, hstop, _⟩ := h₁.edges e he
  obtain ⟨k, l, hk, hkl, hl, hstart, _⟩ := h₂.edges f hf
  have hinside : c₂.position ≤ c.tokens.size := h₁.tokens ▸ h₂.inside
  rw [Span.Before, hstop, hstart, h₁.tokenStart_eq]
  exact h₁.sound.tokenStop_le_tokenStart (by omega) (by omega)

theorem trans : Built c (built ++ more) c₂ := by
  have hstarts := h₁.boundStarts_append h₂
  refine ⟨h₁.sound, h₂.text.trans h₁.text, h₂.tokens.trans h₁.tokens, Nat.le_trans h₁.le h₂.le,
    h₁.tokens ▸ h₂.inside, ?_, ?_, ?_, ?_, ?_, ?_, ?_, ?_, ?_, ?_, ?_,
    forall_mem_append.2 ⟨h₁.operands, h₂.operands⟩⟩
  · intro hlt
    by_cases hmid : c₁.position < c₂.position
    · exact h₂.closed hmid
    · have heq : c₂.position = c₁.position := Nat.le_antisymm (Nat.not_lt.1 hmid) h₂.le
      rw [heq] at hlt
      simpa only [afterPoint, pointAt, heq, h₂.tokens] using h₁.closed hlt
  · rw [h₂.nodes, h₁.nodes, length_append, Nat.add_assoc]
  · rw [map_append, length_append, ← List.range'_append_1]
    exact h₁.ids.append (h₁.nodes ▸ h₂.ids)
  · exact forall_mem_append.2 ⟨h₁.below, h₂.below⟩
  · exact forall_mem_append.2 ⟨fun e he => (h₁.edges e he).mono (Nat.le_refl _) h₂.le, fun e he =>
      ((h₂.edges e he).of_eq h₁.tokens h₁.text).mono h₁.le (Nat.le_refl _)⟩
  · exact forall_mem_append.2 ⟨h₁.covers, h₂.covers⟩
  · intro e he f hf hlt
    rcases mem_append.1 he with he | he <;> rcases mem_append.1 hf with hf | hf
    · exact h₁.ordered e he f hf hlt
    · exact .inr (h₁.before_of_built h₂ he hf)
    · have hsecond := (h₂.id_range he).1
      have hfirst := (h₁.id_range hf).2
      omega
    · exact h₂.ordered e he f hf hlt
  · intro e he o ho
    rcases mem_append.1 he with he | he
    · exact h₁.targets e he o ho
    · obtain ⟨i, j, hi, hij, hj, _⟩ := h₂.edges e he
      have := h₂.inside
      have hle := h₂.targets e he o ho
      have hpos := h₁.sound_right.tokenStart_le (i := c.position) (j := c₁.position)
        (by omega) h₁.le
      rw [h₁.tokenStart_eq] at hpos
      omega
  · rw [h₂.placeholders, h₁.placeholders, hstarts, length_append, Nat.add_assoc]
  · rw [filterMap_append, hstarts, zipIdx_append]
    exact h₁.marks.append (h₁.placeholders ▸ h₂.marks)
  · intro e he f hf i hi j hj hlt
    rcases mem_append.1 he with he | he <;> rcases mem_append.1 hf with hf | hf
    · exact h₁.numbered e he f hf i hi j hj hlt
    · -- the second run goes on where the first one has stopped
      exact Nat.lt_of_lt_of_le (h₁.ordinal_range he hi).2 (h₂.ordinal_range hf hj).1
    · have hsecond := (h₂.id_range he).1
      have hfirst := (h₁.id_range hf).2
      omega
    · exact h₂.numbered e he f hf i hi j hj hlt

end

theorem pass (h : Built c built c₁) (hp : Passed c₁ c₂) : Built c built c₂ := by
  simpa using h.trans (ofPassed h.sound_right hp)

/-- A run may be judged from an earlier place. -/
theorem before (hc : c.Sound) (hp : Passed c c₁) (h : Built c₁ built c₂) : Built c built c₂ := by
  simpa using (ofPassed hc hp).trans h

/-- Placeholders that became nodes lie before the place that was reached. -/
theorem mark_lt (h : Built c built c') (he : e ∈ built) {m : Nat × Nat} (hm : m ∈ e.mark?) :
    m.1 < c'.previousStop := by
  have hmem : m ∈ (c.boundStarts built c').zipIdx c.placeholders :=
    h.marks.mem_iff.1 (mem_filterMap.2 ⟨e, he, hm⟩)
  obtain ⟨i, t, _, hlt, hit, hstart⟩ := mem_placeholderStarts
    (mem_of_mem_filter (fst_mem_of_mem_zipIdx hmem))
  rw [← hstart]
  refine Nat.lt_of_lt_of_le (h.sound.proper_at hit).1 ?_
  rw [← tokenStop_of_some hit]
  exact h.stop_le_previousStop (.refl c') hlt

/-- A node on top of what was built; tokens may have been skipped before, if the node accounts for
them. -/
theorem build {form : ExprForm} {span : Span} (h : Built c form.nodes c₁) (hmoved : Moved c₁ c₂)
    (hclosed : c.position < c₂.position → c₂.afterPoint = false)
    (hedge : c.Edged c.position c₂.position span) (hcovers : ∀ n ∈ form.nodes, n.span.Within span)
    (hmark : (Expr.node c₁.nodes span form).mark? = none)
    (htarget : ∀ o, (Expr.node c₁.nodes span form).inTarget o = true →
      c.tokenStart c.position ≤ o)
    (hstarts : c.boundStarts (.node c₁.nodes span form :: form.nodes) c₂ =
      c.boundStarts form.nodes c₁) (hoperands : form.LeftFirst) :
    Built c (.node c₁.nodes span form :: form.nodes) { c₂ with nodes := c₂.nodes + 1 } where
  sound := h.sound
  text := hmoved.text.trans h.text
  tokens := hmoved.tokens.trans h.tokens
  le := Nat.le_trans h.le hmoved.le
  inside := h.tokens ▸ hmoved.inside (h.tokens ▸ h.inside)
  closed := hclosed
  nodes := by
    show c₂.nodes + 1 = _
    rw [hmoved.nodes, h.nodes, length_cons]
    omega
  ids := by
    rw [map_cons, Expr.id_node, length_cons, List.range'_1_concat, h.nodes]
    exact (h.ids.cons _).trans (perm_append_singleton _ _).symm
  below := forall_mem_cons.2 ⟨fun n hn => (h.id_range hn).2, h.below⟩
  edges := forall_mem_cons.2
    ⟨hedge, fun e he => (h.edges e he).mono (Nat.le_refl _) hmoved.le⟩
  covers := forall_mem_cons.2 ⟨hcovers, h.covers⟩
  ordered := by
    intro e he f hf hlt
    rcases mem_cons.1 hf with rfl | hf
    · rcases mem_cons.1 he with rfl | he
      · exact absurd hlt (Nat.lt_irrefl _)
      · exact .inl he
    · rcases mem_cons.1 he with rfl | he
      · exact absurd hlt (Nat.not_lt.2 (Nat.le_of_lt (h.id_range hf).2))
      · exact h.ordered e he f hf hlt
  targets := forall_mem_cons.2 ⟨htarget, h.targets⟩
  placeholders := by
    show c₂.placeholders = _ + (c.boundStarts _ c₂).length
    rw [hmoved.placeholders, h.placeholders, hstarts]
  marks := by
    show List.Perm _ ((c.boundStarts _ c₂).zipIdx c.placeholders)
    rw [filterMap_cons_none hmark, hstarts]
    exact h.marks
  numbered := by
    have hnone : (Expr.node c₁.nodes span form).ordinal? = none := Option.map_eq_none_iff.1 hmark
    intro e he f hf i hi j hj
    rcases mem_cons.1 he with rfl | he
    · rw [hnone] at hi
      cases hi
    rcases mem_cons.1 hf with rfl | hf
    · rw [hnone] at hj
      cases hj
    · exact h.numbered e he f hf i hi j hj
  operands := forall_mem_cons.2 ⟨hoperands, h.operands⟩

end Built

end Cursor

/-- Forms that are neither a placeholder nor a cast nor an operator with two operands. -/
def ExprForm.isPlain : ExprForm → Bool
  | .placeholder _ | .cast _ _ | .binary _ _ _ => false
  | _ => true

/-- The connectives, from which a condition is built. -/
def BinaryOp.isConnective : BinaryOp → Bool
  | .or | .xor | .and => true
  | _ => false

/-- The connective that an expression is built with. -/
def ExprForm.connective? : ExprForm → Option BinaryOp
  | .binary op _ _ => if op.isConnective then some op else none
  | _ => none

def Expr.connective? (e : Expr) : Option BinaryOp := e.form.connective?

theorem ExprForm.connective?_of_isPlain {form : ExprForm} (h : form.isPlain = true) :
    form.connective? = none := by
  cases form <;> first | rfl | cases h

theorem Expr.mark?_of_isPlain {id : Nat} {span : Span} {form : ExprForm} (h : form.isPlain = true) :
    (Expr.node id span form).mark? = none := by
  cases form <;> first | rfl | cases h

theorem Expr.inTarget_of_isPlain {id : Nat} {span : Span} {form : ExprForm}
    (h : form.isPlain = true) (o : Nat) : (Expr.node id span form).inTarget o = false := by
  cases form <;> first | rfl | cases h

namespace Cursor

variable {c c' c₁ c₂ c₃ : Cursor} {built more : List Expr} {e left right : Expr}

theorem Built.buildPlain {form : ExprForm} {span : Span} (h : Built c form.nodes c₁)
    (hplain : form.isPlain = true) (hedge : c.Edged c.position c₁.position span)
    (hcovers : ∀ n ∈ form.nodes, n.span.Within span) :
    Built c (.node c₁.nodes span form :: form.nodes) { c₁ with nodes := c₁.nodes + 1 } :=
  h.build (.refl c₁) h.closed hedge hcovers (Expr.mark?_of_isPlain hplain)
    (fun o ho => by rw [Expr.inTarget_of_isPlain hplain] at ho; cases ho)
    (by simp only [boundStarts, any_cons, Expr.inTarget_of_isPlain hplain, Bool.false_or])
    (by rintro op left right rfl; cases hplain)

namespace Read

theorem edge (h : Read c e c') : c.Edged c.position c'.position e.span :=
  h.built.edges e e.self_mem_nodes

/-- An expression spans its nodes. -/
theorem within (h : Read c e c') : ∀ n ∈ e.nodes, n.span.Within e.span := by
  cases e with
  | node id span form =>
    exact forall_mem_cons.2
      ⟨⟨Nat.le_refl _, Nat.le_refl _⟩, h.built.covers _ mem_cons_self⟩

theorem pass (h : Read c e c₁) (hp : Passed c₁ c₂) : Read c e c₂ := ⟨h.built.pass hp, h.marks_lt⟩

theorem before (hc : c.Sound) (hp : Passed c c₁) (h : Read c₁ e c₂) : Read c e c₂ :=
  ⟨h.built.before hc hp, h.marks_lt⟩

theorem tokenStart_le_stop (h : Read c e c') : c.tokenStart c.position ≤ e.span.stop := by
  obtain ⟨i, j, hi, hij, hj, _, hstop, _⟩ := h.edge
  have hinside := h.built.inside
  rw [hstop]
  exact Nat.le_trans (h.built.sound.tokenStart_le (by omega) (by omega : c.position ≤ j))
    (Nat.le_of_lt (h.built.sound.start_lt_stop (by omega)))

/-- A token behind the place that was reached stands behind the expression. -/
theorem stop_le_tokenStart (h : Read c e c') {k : Nat} (hk : c'.position ≤ k) :
    e.span.stop ≤ c.tokenStart k := by
  obtain ⟨i, j, _, _, hj, _, hstop, _⟩ := h.edge
  have hinside := h.built.inside
  rw [hstop]
  exact h.built.sound.tokenStop_le_tokenStart (by omega) (by omega)

theorem stop_le_previousStop (h : Read c e c₁) (hm : Moved c₁ c₂) :
    e.span.stop ≤ c₂.previousStop := by
  obtain ⟨i, j, _, _, hj, _, hstop, _⟩ := h.edge
  rw [hstop]
  exact h.built.stop_le_previousStop hm (Nat.lt_of_lt_of_le hj hm.le)

/-- What became a placeholder lies before the end of the expression. -/
theorem lt_stop_of_mem_boundStarts (h : Read c e c') {o : Nat} (ho : o ∈ c.boundStarts e.nodes c') :
    o < e.span.stop := by
  obtain ⟨k, hk, rfl⟩ := mem_iff_getElem.1 ho
  have hmem : ((c.boundStarts e.nodes c')[k], c.placeholders + k) ∈
      (c.boundStarts e.nodes c').zipIdx c.placeholders :=
    mem_iff_getElem.2 ⟨k, by simpa using hk, by simp⟩
  obtain ⟨n, hn, hm⟩ := mem_filterMap.1 (h.built.marks.mem_iff.2 hmem)
  exact h.marks_lt n hn _ hm

/-- What is read later starts later and stops later. -/
theorem edges_le (hleft : Read c left c₁) (hright : Read c₁ right c₂) :
    left.span.start ≤ right.span.start ∧ left.span.stop ≤ right.span.stop := by
  have hsound := hleft.built.sound
  obtain ⟨i, j, hi, hij, hj, hstart, hstop, _, _⟩ := hleft.edge
  obtain ⟨k, l, hk, hkl, hl, hstart', hstop', _, _⟩ :=
    hright.edge.of_eq hleft.built.tokens hleft.built.text
  have hinside : c₂.position ≤ c.tokens.size := hleft.built.tokens ▸ hright.built.inside
  rw [hstart, hstart', hstop, hstop']
  exact ⟨hsound.tokenStart_le (by omega) (by omega), hsound.tokenStop_le (by omega) (by omega)⟩

theorem join_span (hleft : Read c left c₁) (hright : Read c₁ right c₂) :
    left.span.join right.span = ⟨left.span.start, right.span.stop⟩ := by
  obtain ⟨hstarts, hstops⟩ := hleft.edges_le hright
  rw [Span.join, Nat.min_eq_left hstarts, Nat.max_eq_right hstops]

/-- The placeholders that a cast skips stand in its type, and no other placeholder does. -/
theorem boundStarts_cast (h : Read c e c₁) (hm : Moved c₁ c₂) (id : Nat) (target : SqlType)
    (start : Nat) (hstop : (c₂.spanFromOffset start).stop = c₂.previousStop) :
    c.boundStarts (.node id (c₂.spanFromOffset start) (.cast e target) :: e.nodes) c₂ =
      c.boundStarts e.nodes c₁ := by
  have htarget : ∀ o, (Expr.node id (c₂.spanFromOffset start) (.cast e target)).inTarget o =
      (decide (e.span.stop ≤ o) && decide (o < c₂.previousStop)) := by
    intro o
    rw [← hstop]
    rfl
  have hskipped : ∀ o ∈ Token.placeholderStarts (c₁.window c₂),
      e.span.stop ≤ o ∧ o < c₂.previousStop := by
    intro o ho
    obtain ⟨k, t, hk, hlt, hkt, rfl⟩ := mem_placeholderStarts ho
    have hpos : c₂.position - 1 < c₁.tokens.size := by
      have := hm.inside (h.built.tokens ▸ h.built.inside)
      omega
    refine ⟨?_, Nat.lt_of_lt_of_le (h.built.sound_right.proper_at hkt).1 ?_⟩
    · rw [h.built.tokens] at hkt
      exact tokenStart_of_some hkt ▸ h.stop_le_tokenStart hk
    · rw [previousStop, if_neg (by omega), tokenStop, hm.tokens, hm.text, ← tokenStop_of_some hkt]
      exact h.built.sound_right.tokenStop_le hpos (by omega)
  have hnone : ∀ o ∈ Token.placeholderStarts (c₁.window c₂),
      ¬(!(Expr.node id (c₂.spanFromOffset start) (.cast e target) :: e.nodes).any
        (·.inTarget o)) = true := by
    intro o ho
    obtain ⟨h₁, h₂⟩ := hskipped o ho
    rw [any_cons, htarget]
    simp [h₁, h₂]
  rw [boundStarts, window_append h.built.tokens h.built.le hm.le, Token.placeholderStarts_append,
    filter_append, filter_eq_nil_iff.2 hnone, append_nil, boundStarts]
  refine filter_congr fun o ho => ?_
  rw [any_cons, htarget]
  cases hany : e.nodes.any (·.inTarget o) with
  | true => simp
  | false =>
    have := h.lt_stop_of_mem_boundStarts (mem_filter.2 ⟨ho, by simp [hany]⟩)
    simp [Nat.not_le.2 this]

end Read

/-- A placeholder that takes the next ordinal. -/
theorem Read.placeholder {token : Token} (hc : c.Sound) (hcur : c.current = some token)
    (hkind : token.kind = .placeholder) :
    Read c (.node c.nodes ⟨token.start, token.stop⟩ (.placeholder c.placeholders))
      { c with
        position := c.position + 1, nodes := c.nodes + 1, placeholders := c.placeholders + 1 } := by
  have hwindow : (c.tokens.toList.drop c.position).take 1 = [token] := by
    have : c.tokens.toList[c.position]? = some token := by rw [Array.getElem?_toList]; exact hcur
    rw [take_one, head?_drop, this]
    rfl
  have hbound : ∀ c', c'.position = c.position + 1 → c.boundStarts
      (Expr.node c.nodes ⟨token.start, token.stop⟩ (.placeholder c.placeholders)).nodes c' =
        [token.start] := by
    intro c' hposition
    simp [boundStarts, window, hposition, hwindow, Token.placeholderStarts, hkind, Expr.nodes,
      ExprForm.nodes, Expr.inTarget]
  have hat : c.tokens[c.position]? = some token := hcur
  have hpoint : c.pointAt c.position = false := by simp [pointAt, hat, Token.isSymbol, hkind]
  have hedge : c.Edged c.position (c.position + 1) ⟨token.start, token.stop⟩ :=
    ⟨c.position, c.position, Nat.le_refl _, Nat.le_refl _, Nat.lt_succ_self _,
      (tokenStart_of_some hcur).symm, (tokenStop_of_some hcur).symm,
      by simp [groupAt, hat, Token.isSymbol, hkind], hpoint⟩
  refine ⟨⟨hc, rfl, rfl, Nat.le_succ _, (Array.getElem?_eq_some_iff.1 hcur).1, fun _ => ?_, rfl,
    .refl _, forall_mem_singleton.2 (forall_mem_nil _), forall_mem_singleton.2 hedge,
    forall_mem_singleton.2 (forall_mem_nil _), ?_, ?_, ?_, ?_, ?_, ?_⟩, forall_mem_singleton.2 ?_⟩
  · simpa [afterPoint, pointAt] using hpoint
  · exact forall_mem_singleton.2 (forall_mem_singleton.2 fun hlt => absurd hlt (Nat.lt_irrefl _))
  · exact forall_mem_singleton.2 fun _ h => absurd h Bool.false_ne_true
  · rw [hbound _ rfl]
    rfl
  · rw [hbound _ rfl]
    exact .refl _
  · refine forall_mem_singleton.2 (forall_mem_singleton.2 fun i _ j _ hlt => ?_)
    exact absurd hlt (Nat.lt_irrefl _)
  · exact forall_mem_singleton.2 fun _ _ _ h => ExprForm.noConfusion h
  · rintro m ⟨⟩
    exact (hc.proper_at hcur).1

/-- An expression whose first token starts at `start` is being read. -/
structure Begun (c : Cursor) (start : Nat) (nodes : List Expr) (c' : Cursor) : Prop where
  built : Built c nodes c'
  begun : ∃ i, c.position ≤ i ∧ i < c'.position ∧ start = c.tokenStart i ∧ c.groupAt i = false
  after : ∀ n ∈ nodes, start ≤ n.span.start

namespace Begun

variable {start : Nat}

theorem ofRead (h : Read c e c') : Begun c e.span.start e.nodes c' := by
  obtain ⟨i, j, hi, hij, hj, hstart, _, hgroup, _⟩ := h.edge
  exact ⟨h.built, ⟨i, hi, by omega, hstart, hgroup⟩, fun n hn => (h.within n hn).1⟩

theorem ofPassed (hc : c.Sound) (hgroup : c.groupAt c.position = false)
    (h : Passed c c' ∧ c.position < c'.position) : Begun c (c.tokenStart c.position) [] c' :=
  ⟨.ofPassed hc h.1, ⟨c.position, Nat.le_refl _, h.2, rfl, hgroup⟩, nofun⟩

section

variable (h : Begun c start built c₁)

include h

theorem trans (hm : Built c₁ more c₂) :
    Begun c start (built ++ more) c₂ := by
  obtain ⟨i, hi, hlt, rfl, hgroup⟩ := h.begun
  refine ⟨h.built.trans hm, ⟨i, hi, Nat.lt_of_lt_of_le hlt hm.le, rfl, hgroup⟩, fun n hn => ?_⟩
  rcases mem_append.1 hn with hn | hn
  · exact h.after n hn
  · obtain ⟨k, l, hk, hkl, hl, hstart, _⟩ := hm.edges n hn
    have hinside : c₂.position ≤ c.tokens.size := h.built.tokens ▸ hm.inside
    rw [hstart, h.built.tokenStart_eq]
    exact h.built.sound.tokenStart_le (by omega) (by omega)

theorem pass (hp : Passed c₁ c₂) : Begun c start built c₂ := by
  simpa using h.trans (.ofPassed h.built.sound_right hp)

/-- The span from the start up to a later place has edges, and stops where the last token does. -/
theorem span (hm : Moved c₁ c₂) (hclosed : c₂.afterPoint = false) :
    c.Edged c.position c₂.position (c₂.spanFromOffset start) ∧
      (c₂.spanFromOffset start).stop = c₂.previousStop := by
  obtain ⟨i, hi, hlt, rfl, hgroup⟩ := h.begun
  have hle := hm.le
  have hinside : c₂.position ≤ c.tokens.size :=
    h.built.tokens ▸ hm.inside (h.built.tokens ▸ h.built.inside)
  have hprevious : c₂.previousStop = c.tokenStop (c₂.position - 1) := by
    rw [previousStop, if_neg (by omega), tokenStop, tokenStop, hm.tokens, hm.text, h.built.tokens,
      h.built.text]
  have hstop : c.tokenStart i ≤ c₂.previousStop := by
    rw [hprevious]
    exact Nat.le_trans (Nat.le_of_lt (h.built.sound.start_lt_stop (by omega)))
      (h.built.sound.tokenStop_le (by omega) (by omega))
  have hmax : max c₂.previousStop (c.tokenStart i) = c₂.previousStop := by omega
  have hpoint : c.pointAt (c₂.position - 1) = false := by
    have hpos : 0 < c₂.position := by omega
    simpa [afterPoint, pointAt, hpos, hm.tokens, h.built.tokens] using hclosed
  exact ⟨⟨i, c₂.position - 1, hi, by omega, by omega, rfl, hmax.trans hprevious, hgroup, hpoint⟩,
    hmax⟩

/-- The span from the start up to a later place covers what was built. -/
theorem within (hm : Moved c₁ c₂) :
    ∀ n ∈ built, n.span.Within (c₂.spanFromOffset start) := by
  intro n hn
  obtain ⟨i, j, _, _, hj, _, hstop, _⟩ := h.built.edges n hn
  refine ⟨h.after n hn, Nat.le_trans ?_ (Nat.le_max_left _ _)⟩
  rw [hstop]
  exact h.built.stop_le_previousStop hm (Nat.lt_of_lt_of_le hj hm.le)

end

theorem position_lt (h : Begun c start built c') : c.position < c'.position := by
  obtain ⟨i, hi, hlt, _⟩ := h.begun
  omega

end Begun

/-- A node that was read, starts at an offset and reaches up to the last token that was passed, has
some nodes below it, and is not built with a connective. -/
structure Ended (c : Cursor) (start : Nat) (inner : List Expr) (e : Expr) (c' : Cursor) : Prop
    extends Read c e c' where
  start : e.span.start = start
  inner : inner ⊆ e.form.nodes
  stop : c'.previousStop ≤ e.span.stop
  plain : e.connective? = none

/-- A node that was read with all tokens that were passed. -/
abbrev Whole (c : Cursor) : Expr → Cursor → Prop := Ended c (c.tokenStart c.position) []

end Cursor

/-! ### Parsers that build -/

namespace Ensures

open Cursor

variable {α : Type} {parts : α → List Expr} {c : Cursor} {built : List Expr}

/-- The parts of a result are what was built. -/
theorem yield {a : α} (h : built.Perm (parts a)) :
    Ensures (Built c built) (Pure.pure a : Parser α) fun a => Built c (parts a) :=
  .pure fun _ hb => hb.perm h

/-- The same of a result that notes its span. -/
theorem yieldHere {f : Cursor → α} (h : ∀ d, built.Perm (parts (f d))) :
    Ensures (Built c built) (do return f (← get) : Parser α) fun a => Built c (parts a) :=
  .getAny fun d => .yield (h d)

end Ensures

namespace Parser

open Cursor

/-- A run that succeeds builds the parts of its result. -/
def Yields {α : Type} (p : Parser α) (parts : α → List Expr) : Prop :=
  ∀ ⦃c a c'⦄, c.Sound → p c = .ok a c' → Built c (parts a) c'

/-- A run that succeeds reads its result. -/
def Reads (p : Parser Expr) : Prop := ∀ ⦃c e c'⦄, c.Sound → p c = .ok e c' → Read c e c'

variable {α β : Type} {p : Parser α} {next : α → Parser β} {post : β → Cursor → Prop}
  {parts : α → List Expr} {c : Cursor} {built : List Expr} {start : Nat}

theorem Reads.yields {p : Parser Expr} (h : Reads p) : Yields p Expr.nodes :=
  fun _ _ _ hc hrun => (h hc hrun).built

theorem Reads.at_start {p : Parser Expr} (h : Reads p) (hc : c.Sound) :
    Ensures (· = c) p (Read c) := by
  rintro d e d' rfl hrun
  exact h hc hrun

theorem Yields.step (h : Yields p parts) :
    Ensures (Built c built) p fun a => Built c (built ++ parts a) :=
  fun _ _ _ hc hrun => hc.trans (h hc.sound_right hrun)

theorem Yields.begun (h : Yields p parts) :
    Ensures (Begun c start built) p fun a => Begun c start (built ++ parts a) :=
  fun _ _ _ hc hrun => hc.trans (h hc.built.sound_right hrun)

theorem Yields.bind (h : Yields p parts)
    (hnext : ∀ a, Ensures (Built c (built ++ parts a)) (next a) post) :
    Ensures (Built c built) (p >>= next) post :=
  h.step.bind hnext

theorem Passes.bind (h : Passes p) (hnext : ∀ a, Ensures (Built c built) (next a) post) :
    Ensures (Built c built) (p >>= next) post :=
  have hp : Ensures (Built c built) p fun _ => Built c built :=
    fun d _ _ hc hrun => hc.pass (h d rfl hrun)
  hp.bind hnext

theorem Passes.begun (h : Passes p) :
    Ensures (Begun c start built) p fun _ => Begun c start built :=
  fun d _ _ hc hrun => hc.pass (h d rfl hrun)

theorem Consumes.begin (h : Consumes p) (hc : c.Sound) (hgroup : c.groupAt c.position = false) :
    Ensures (· = c) p fun _ => Begun c (c.tokenStart c.position) [] :=
  (h c).post fun _ _ hp => .ofPassed hc hgroup hp

theorem yields_of (h : ∀ c, Ensures (Built c []) p fun a => Built c (parts a)) : Yields p parts :=
  fun c _ _ hc hrun => h c (.refl hc) hrun

theorem reads_of {p : Parser Expr} (h : ∀ c, c.Sound → Ensures (· = c) p (Read c)) : Reads p :=
  fun c _ _ hc hrun => h c hc rfl hrun

/-! ### Nodes -/

theorem ended_finish {form : ExprForm} {inner : List Expr} (hplain : form.isPlain = true)
    (hnodes : built.Perm form.nodes) (hinner : inner ⊆ form.nodes) :
    Ensures (Begun c start built) (finish start form) (Ended c start inner) := by
  intro d e d' hd hrun
  cases hrun
  obtain ⟨hedge, hstop⟩ := hd.span (.refl d) (hd.built.closed hd.position_lt)
  refine ⟨⟨(hd.built.perm hnodes).buildPlain hplain hedge fun n hn =>
    hd.within (.refl d) n (hnodes.mem_iff.2 hn), fun n hn m hm => ?_⟩, rfl, hinner,
    Nat.le_max_left _ _, ExprForm.connective?_of_isPlain hplain⟩
  rcases mem_cons.1 hn with rfl | hn
  · rw [Expr.mark?_of_isPlain hplain] at hm
    cases hm
  · rw [Expr.span_node, hstop]
    exact (hd.built.perm hnodes).mark_lt hn hm

/-- Reading a node with the first token that is passed. -/
theorem whole_finish {form : ExprForm} (hplain : form.isPlain = true)
    (hnodes : built.Perm form.nodes) :
    Ensures (Begun c (c.tokenStart c.position) built) (finish (c.tokenStart c.position) form)
      (Whole c) :=
  ended_finish hplain hnodes (nil_subset _)

theorem reads_combine {op : BinaryOp} {left right : Expr} :
    Ensures (fun d => ∃ c₁, Read c left c₁ ∧ Read c₁ right d) (combine op left right)
      fun e d => Read c e d ∧ e.span.start = left.span.start := by
  rintro d e d' ⟨c₁, hleft, hright⟩ hrun
  cases hrun
  obtain ⟨i, j, hi, hij, hj, hstart, hstop, hgroup, _⟩ := hleft.edge
  obtain ⟨k, l, hk, hkl, hl, hstart', hstop', _, hpoint⟩ :=
    hright.edge.of_eq hleft.built.tokens hleft.built.text
  obtain ⟨hstarts, hstops⟩ := hleft.edges_le hright
  have hspan := hleft.join_span hright
  have hle := hleft.built.le
  have hedge : c.Edged c.position d.position (left.span.join right.span) := by
    rw [hspan]
    exact ⟨i, l, hi, by omega, hl, hstart, hstop', hgroup, hpoint⟩
  have hcovers : ∀ n ∈ left.nodes ++ right.nodes, n.span.Within (left.span.join right.span) := by
    intro n hn
    rw [hspan]
    rcases mem_append.1 hn with hn | hn
    · exact ⟨(hleft.within n hn).1, Nat.le_trans (hleft.within n hn).2 hstops⟩
    · exact ⟨Nat.le_trans hstarts (hright.within n hn).1, (hright.within n hn).2⟩
  have hbuilt : Built c (ExprForm.binary op left right).nodes d := hleft.built.trans hright.built
  have hoperands : (ExprForm.binary op left right).LeftFirst := by
    rintro _ _ _ ⟨⟩ n hn m hm
    exact Nat.lt_of_lt_of_le (hleft.built.id_range hn).2 (hright.built.id_range hm).1
  refine ⟨⟨hbuilt.build (.refl d) hbuilt.closed hedge hcovers rfl nofun rfl hoperands,
    fun n hn m hm => ?_⟩, by rw [Expr.span_node, hspan]⟩
  rw [Expr.span_node, hspan]
  rcases mem_cons.1 hn with rfl | hn
  · cases hm
  rcases mem_append.1 hn with hn | hn
  · exact Nat.lt_of_lt_of_le (hleft.marks_lt n hn m hm) hstops
  · exact hright.marks_lt n hn m hm

/-- A cast accounts for the placeholders in its type. -/
theorem whole_finishCast {operand : Expr} {target : SqlType} :
    Ensures (fun d => (∃ c₁, Read c operand c₁ ∧
        Begun c (c.tokenStart c.position) operand.nodes c₁ ∧ Moved c₁ d) ∧ d.afterPoint = false)
      (finish (c.tokenStart c.position) (.cast operand target)) (Whole c) := by
  rintro d e d' ⟨⟨c₁, hread, hbegun, hmoved⟩, hclosed⟩ hrun
  cases hrun
  obtain ⟨hedge, hstop⟩ := hbegun.span hmoved hclosed
  have hstarts := hread.boundStarts_cast hmoved c₁.nodes target _ hstop
  have hbehind := hread.tokenStart_le_stop
  have hstops := hread.stop_le_previousStop hmoved
  refine ⟨?_, rfl, nil_subset _, Nat.le_max_left _ _, rfl⟩
  have hnode : ∀ span, Expr.node d.nodes span (.cast operand target) =
      .node c₁.nodes span (.cast operand target) := fun _ => by rw [hmoved.nodes]
  rw [hnode]
  have hbuilt : Built c (ExprForm.cast operand target).nodes c₁ := hread.built
  refine ⟨hbuilt.build hmoved (fun _ => hclosed) hedge (hbegun.within hmoved) rfl
    (fun o ho => ?_) hstarts nofun, fun n hn m hm => ?_⟩
  · simp only [Expr.inTarget, Expr.form_node, Bool.and_eq_true, decide_eq_true_eq] at ho
    omega
  · rcases mem_cons.1 hn with rfl | hn
    · cases hm
    · rw [Expr.span_node, hstop]
      exact Nat.lt_of_lt_of_le (hread.marks_lt n hn m hm) hstops

/-- A placeholder takes the next ordinal. -/
theorem whole_placeholder {token : Token} (hc : c.Sound) (hcur : c.current = some token)
    (hkind : token.kind = .placeholder) :
    Ensures (· = c) (do advance; Grammar.placeholderRest (c.tokenStart c.position)) (Whole c) := by
  rintro d e d' rfl hrun
  have hlt : d.position < d.tokens.size := (Array.getElem?_eq_some_iff.1 hcur).1
  have hnext : d.next = { d with position := d.position + 1 } := by simp [Cursor.next, hlt]
  obtain ⟨_, d₁, hadvance, hrun⟩ := bind_eq_ok.1 hrun
  cases hadvance
  rw [hnext, tokenStart_of_some hcur] at hrun
  cases hrun
  have hspan : max (d.tokenStop d.position) token.start = token.stop := by
    rw [tokenStop_of_some hcur]
    exact Nat.max_eq_left (Nat.le_of_lt (hc.proper_at hcur).1)
  have hnode := Read.placeholder hc hcur hkind
  rw [← hspan] at hnode
  exact ⟨hnode, (tokenStart_of_some hcur).symm, nil_subset _, Nat.le_max_left _ _, rfl⟩

end Parser

end SqlSignature

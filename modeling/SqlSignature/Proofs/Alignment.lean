import Mathlib.Data.List.Sort
import SqlSignature.Proofs.BoundOffsets
import SqlSignature.Proofs.GrammarBuilt
/-!
# SqlSignature.Proofs.Alignment

The names of the bound values are kept in the order in which binding meets the values, and the
parser numbers its placeholders in the order in which it meets those. `Statement.aligned_iff` says
when the two numberings are one: exactly if binding marks the placeholders that the scanner finds,
apart from those in the types of casts. Where binding and scanning agree on all lexemes, only a
bound value in the type of a cast brings them apart.
-/

namespace SqlSignature

/-! ### Order -/

namespace BoundText

theorem Stretch.marks_ordered (offset : Nat) (parts : List Stretch) :
    (Stretch.marks offset parts).Pairwise (· < ·) ∧
      ∀ m ∈ Stretch.marks offset parts, offset ≤ m := by
  induction parts generalizing offset with
  | nil => exact ⟨.nil, nofun⟩
  | cons stretch parts ih =>
    obtain ⟨hordered, hle⟩ := ih (offset + Text.byteSize stretch.bound)
    rw [Stretch.marks]
    cases stretch with
    | kept text => exact ⟨hordered, fun m hm => Nat.le_of_add_right_le (hle m hm)⟩
    | named | positional =>
      refine ⟨List.pairwise_cons.2 ⟨fun m hm => hle m hm, hordered⟩, fun m hm => ?_⟩
      rcases List.mem_cons.1 hm with rfl | hm
      · exact Nat.le_refl _
      · exact Nat.le_of_add_right_le (hle m hm)

theorem marks_pairwise (text : String) : (marks text).Pairwise (· < ·) :=
  (Stretch.marks_ordered _ _).1

end BoundText

/-- The placeholders of a text start one behind the other. -/
theorem Token.placeholderStarts_pairwise {text : String} {tokens : List Token}
    (h : Token.scan text = .ok tokens) : (placeholderStarts tokens).Pairwise (· < ·) := by
  have horder := (scan_eq_ok_iff.1 h).inOrder
  have hstarts : tokens.Pairwise fun t u => t.start < u.start :=
    horder.ordered.imp_of_mem fun ht _ hle => Nat.lt_of_lt_of_le (horder.within _ ht).2.1 hle
  exact List.pairwise_map.2 (hstarts.filter _)

namespace Statement

/-! ### Alignment -/

/-- Whether the placeholders of a statement are the bound values of the text that it was read from:
there are as many of them, and each stands where the bound value with its number was written. -/
structure Aligned (statement : Statement) (text : String) : Prop where
  count : statement.placeholders = (BoundText.ofText text).parameters.length
  starts : ∀ e ∈ statement.kind.nodes, ∀ ordinal, e.ordinal? = some ordinal →
    (BoundText.marks text)[ordinal]? = some e.span.start

/-- Where the placeholders start that the parser numbers. -/
def boundStarts (statement : Statement) (tokens : List Token) : List Nat :=
  (Token.placeholderStarts tokens).filter fun offset =>
    !statement.kind.nodes.any (·.inTarget offset)

theorem mem_boundStarts {statement : Statement} {tokens : List Token} {offset : Nat} :
    offset ∈ statement.boundStarts tokens ↔ offset ∈ Token.placeholderStarts tokens ∧
      ∀ e ∈ statement.kind.nodes, e.inTarget offset = false := by
  simp [boundStarts]

/-- The parser numbers the placeholders in order. -/
theorem parse_marks {text : String} {statement : Statement} (h : parse text = .ok statement) :
    ∃ tokens, Token.scan text = .ok tokens ∧
      statement.placeholders = (statement.boundStarts tokens).length ∧
      (statement.kind.nodes.filterMap Expr.mark?).Perm (statement.boundStarts tokens).zipIdx := by
  obtain ⟨start, stop, hstart, hposition, _, hzero, hbuilt, hstop, _, hcount⟩ := parse_built h
  obtain ⟨tokens, hscan, rfl⟩ := Cursor.ofText_eq_ok_iff.1 hstart
  -- the run goes over all tokens
  have hwindow : Cursor.boundStarts ⟨text, tokens.toArray, 0, 0, 0⟩ statement.kind.nodes stop =
      statement.boundStarts tokens := by
    rw [Cursor.boundStarts, Cursor.window, hstop, boundStarts]
    simp
  refine ⟨tokens, hscan, ?_, ?_⟩
  · rw [hcount, hbuilt.placeholders, hwindow, Nat.zero_add]
  · exact hwindow ▸ hbuilt.marks

/-- The numberings are one exactly if they number the same places. -/
theorem aligned_iff_eq {text : String} {statement : Statement} {starts : List Nat}
    (hcount : statement.placeholders = starts.length)
    (hmarks : (statement.kind.nodes.filterMap Expr.mark?).Perm starts.zipIdx) :
    statement.Aligned text ↔ starts = BoundText.marks text := by
  -- a placeholder node stands at the place that has its number
  have hnode : ∀ e ∈ statement.kind.nodes, ∀ ordinal, e.ordinal? = some ordinal →
      starts[ordinal]? = some e.span.start := by
    intro e he ordinal hordinal
    have hmem : (e.span.start, ordinal) ∈ statement.kind.nodes.filterMap Expr.mark? :=
      List.mem_filterMap.2 ⟨e, he, by rw [Expr.mark?, hordinal]; rfl⟩
    exact List.mk_mem_zipIdx_iff_getElem?.1 (hmarks.mem_iff.1 hmem)
  constructor
  · intro haligned
    refine List.ext_getElem? fun i => ?_
    by_cases hi : i < starts.length
    · have hmem : (starts[i], i) ∈ starts.zipIdx :=
        List.mk_mem_zipIdx_iff_getElem?.2 (List.getElem?_eq_getElem hi)
      obtain ⟨e, he, hmark⟩ := List.mem_filterMap.1 (hmarks.mem_iff.2 hmem)
      obtain ⟨ordinal, hordinal, heq⟩ := Option.map_eq_some_iff.1 hmark
      obtain ⟨hstart, rfl⟩ := Prod.mk.inj heq
      rw [haligned.starts e he ordinal hordinal, hnode e he ordinal hordinal]
    · have hlength : (BoundText.marks text).length = starts.length := by
        rw [BoundText.length_marks, ← haligned.count, hcount]
      rw [List.getElem?_eq_none (by omega), List.getElem?_eq_none (by omega)]
  · rintro rfl
    exact ⟨hcount.trans (BoundText.length_marks text), hnode⟩

/-- The placeholders of a statement are the bound values of its text exactly if binding marks the
placeholders that scanning finds outside of the types of casts. Where binding takes every lexeme as
scanning does, that is so exactly if no bound value is written in the type of a cast. -/
theorem aligned_iff {text : String} {statement : Statement}
    (h : parse (BoundText.ofText text).text = .ok statement) :
    ∃ tokens, Token.scan (BoundText.ofText text).text = .ok tokens ∧
      (statement.Aligned text ↔ ∀ offset, offset ∈ BoundText.marks text ↔
        offset ∈ Token.placeholderStarts tokens ∧
          ∀ e ∈ statement.kind.nodes, e.inTarget offset = false) ∧
      ((∀ lexed ∈ Lexed.ofText (BoundText.ofText text).text, lexed.agrees = true) →
        (statement.Aligned text ↔ ∀ offset ∈ BoundText.marks text,
          ∀ e ∈ statement.kind.nodes, e.inTarget offset = false)) := by
  obtain ⟨tokens, hscan, hcount, hmarks⟩ := parse_marks h
  have hmembers : statement.Aligned text ↔ ∀ offset, offset ∈ BoundText.marks text ↔
      offset ∈ Token.placeholderStarts tokens ∧
        ∀ e ∈ statement.kind.nodes, e.inTarget offset = false := by
    rw [aligned_iff_eq hcount hmarks]
    -- both lists are in order, so they are equal if they have the same members
    have hordered : (statement.boundStarts tokens).Pairwise (· < ·) :=
      (Token.placeholderStarts_pairwise hscan).filter _
    constructor
    · intro heq offset
      rw [← heq]
      exact mem_boundStarts
    · intro hmem
      refine hordered.eq_of_mem_iff (BoundText.marks_pairwise text) fun offset => ?_
      rw [hmem, mem_boundStarts]
  refine ⟨tokens, hscan, hmembers, fun hagree => ?_⟩
  rw [hmembers, BoundText.marks_eq_placeholderStarts hscan hagree]
  exact forall_congr' fun offset => ⟨fun hiff hmem => (hiff.1 hmem).2,
    fun hfree => ⟨fun hmem => ⟨hmem, hfree hmem⟩, And.left⟩⟩

/-- What is quoted brings no bound value, also where a quote is doubled. -/
theorem aligned_iff_quoted :
    let text := "SELECT ':a''?' FROM t WHERE x = :b AND y = ? -- :c"
    ∃ statement, parse (BoundText.ofText text).text = .ok statement ∧ statement.Aligned text ∧
      statement.placeholders = 2 := by
  intro text
  have hread : isRead (BoundText.ofText text).text (fun statement =>
      statement.placeholders == 2 && (BoundText.marks text).all fun offset =>
        statement.kind.nodes.all fun e => !e.inTarget offset) = true := by
    decide +kernel
  have hagree : ∀ lexed ∈ Lexed.ofText (BoundText.ofText text).text, lexed.agrees = true := by
    decide +kernel
  obtain ⟨statement, hparse, htest⟩ := exists_of_isRead hread
  simp only [Bool.and_eq_true, beq_iff_eq, List.all_eq_true, Bool.not_eq_true'] at htest
  obtain ⟨tokens, _, _, haligned⟩ := aligned_iff hparse
  exact ⟨statement, hparse, (haligned hagree).2 htest.2, htest.1⟩

/-- A name in a comment that starts with `#` is counted, though no placeholder stands there. -/
theorem commented_name_shifts :
    let text := "SELECT x FROM t # :p\nWHERE x = :q"
    ∃ statement, parse (BoundText.ofText text).text = .ok statement ∧
      (BoundText.ofText text).parameters = [some "p", some "q"] ∧ statement.placeholders = 1 ∧
      ¬ statement.Aligned text := by
  intro text
  have hread : isRead (BoundText.ofText text).text (fun statement =>
      statement.placeholders == 1) = true := by
    decide +kernel
  have hparameters : (BoundText.ofText text).parameters = [some "p", some "q"] := by
    decide +kernel
  obtain ⟨statement, hparse, htest⟩ := exists_of_isRead hread
  have hcount : statement.placeholders = 1 := beq_iff_eq.1 htest
  refine ⟨statement, hparse, hparameters, hcount, fun haligned => ?_⟩
  have hlength := haligned.count
  rw [hcount, hparameters] at hlength
  cases hlength

end Statement

end SqlSignature

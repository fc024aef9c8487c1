import SqlSignature.Describe
import SqlSignature.Proofs.GluedConjuncts
import SqlSignature.Proofs.WalkFrame
/-!
# SqlSignature.Proofs.FilterLayout

The conjuncts in the layout of a query, and whether they make up its filter again. The layout has
the texts of the conjuncts of the filter (`Statement.exists_layout`), which was read among the
tokens of the statement (`Statement.readIn_parse`). A conjunct that stood in parentheses has lost
them: glued with `AND`, a disjunction takes in the conjuncts next to it.
`BoundText.rereads_conjuncts_iff` says that this is what it depends on.
-/

namespace SqlSignature

/-- The filter of a query: that of its first specification. -/
def StatementKind.queryFilter? : StatementKind → Option Expr
  | .select query => query.specs.head?.bind QuerySpec.filter
  | _ => none

namespace Grammar

open SqlSignature.Cursor SqlSignature.Parser

/-! ### Where a filter is read -/

/-- A predicate that was read somewhere among the tokens of `origin`. -/
def ReadIn (origin : Cursor) (e : Expr) : Prop :=
  ∃ depth c c', c.Sound ∧ c.tokens = origin.tokens ∧ c.text = origin.text ∧
    (upTo depth).expr c = .ok e c'

theorem readIn_afterAccepted {c : Cursor} {built : List Expr} (depth : Nat) (word : String) :
    Ensures (Built c built) (afterAccepted (acceptWord word) (upTo depth).expr)
      fun filter _ => ∀ e ∈ filter, ReadIn c e := by
  refine (passes_acceptWord word).bind fun _ => .ite (fun _ => ?_) fun _ =>
    .pure fun _ _ e he => by cases he
  intro d filter d' hbuilt hrun
  obtain ⟨e, c', he, hrun⟩ := bind_eq_ok.1 hrun
  cases hrun
  rintro _ ⟨⟩
  exact ⟨depth, d, d', hbuilt.sound_right, hbuilt.tokens, hbuilt.text, he⟩

theorem readIn_spec (depth : Nat) (c : Cursor) :
    Ensures (Built c []) (upTo depth).spec fun spec _ => ∀ e ∈ spec.filter, ReadIn c e := by
  induction depth with
  | zero => exact .failHere _
  | succ depth ih =>
    have hg := builds_upTo depth
    refine (passes_acceptSymbol (by decide)).bind fun _ => .ite (fun _ => ?_) fun _ => ?_
    · exact ih.bind fun _ => Ensures.keep.bind fun _ => .pure fun _ h => h
    refine .getAny fun d => ?_
    exact (consumes_expectWord _).passes.bind fun _ =>
      (passes_acceptAnyWord _).bind fun _ =>
      (passes_acceptWord _).bind fun _ => (passes_acceptWord _).bind fun _ =>
      (yields_commaSeparated (yields_selectItem hg)).bind fun _ =>
      (yields_afterAccepted (passes_acceptWord _)
        (yields_commaSeparated (yields_tableRef hg))).bind fun _ =>
      (readIn_afterAccepted depth "WHERE").bind fun _ => Ensures.keep.bind fun _ =>
      Ensures.keep.bind fun _ => .getAny fun _ => .pure fun _ h => h

theorem readIn_query (depth : Nat) (c : Cursor) :
    Ensures (Built c []) (upTo depth).query
      fun query _ => ∀ spec ∈ query.specs.head?, ∀ e ∈ spec.filter, ReadIn c e := by
  cases depth with
  | zero => exact .failHere _
  | succ depth =>
    refine .getAny fun d => (readIn_spec depth c).bind fun first => Ensures.keep.bind fun _ =>
      Ensures.keep.bind fun _ => Ensures.keep.bind fun _ => .getAny fun _ => .pure fun _ h => ?_
    rintro _ ⟨⟩
    exact h

theorem readIn_statement (c : Cursor) :
    Ensures (Built c []) wholeStatement fun kind _ => ∀ e ∈ kind.queryFilter?, ReadIn c e := by
  have hother : ∀ {α : Type} {p : Parser α} {P : Cursor → Prop} {make : α → StatementKind},
      (∀ a, (make a).queryFilter? = none) →
      Ensures P (do return make (← p) : Parser StatementKind)
        fun kind _ => ∀ e ∈ kind.queryFilter?, ReadIn c e := by
    intro α p P make hmake
    refine .after fun a => .pure fun _ _ e he => ?_
    rw [hmake] at he
    cases he
  have hkind : ∀ depth, Ensures (Built c []) (statementKind (upTo depth))
      fun kind _ => ∀ e ∈ kind.queryFilter?, ReadIn c e := by
    intro depth
    refine .getAny fun d => .ite (fun _ => ?_) fun _ => .ite (fun _ => hother fun _ => rfl) fun _ =>
      .ite (fun _ => hother fun _ => rfl) fun _ => .ite (fun _ => hother fun _ => rfl) fun _ =>
      .failHere _
    refine (readIn_query depth c).bind fun query => .pure fun _ h e he => ?_
    obtain ⟨spec, hspec, he⟩ := Option.bind_eq_some_iff.1 he
    exact h spec hspec e he
  exact .getAny fun d => (hkind _).bind fun kind => Ensures.keep.bind fun _ =>
    .getAny fun _ => .ite (fun _ => .pure fun _ h => h) fun _ => Ensures.keep.bind fun _ =>
    Ensures.keep.bind fun _ => .pure fun _ h => h

end Grammar

namespace Statement

/-- The filter of a statement was read among the tokens of its text. -/
theorem readIn_parse {text : String} {tokens : List Token} {statement : Statement} {filter : Expr}
    (h : parse text = .ok statement) (hscan : Token.scan text = .ok tokens)
    (hfilter : statement.kind.queryFilter? = some filter) :
    Grammar.ReadIn ⟨text, tokens.toArray, 0, 0, 0⟩ filter := by
  have hstart := Cursor.ofText_eq_ok_iff.2 ⟨tokens, hscan, rfl⟩
  obtain ⟨start, stop, hofText, hrun, -, -⟩ := run_of_parse h
  rw [hstart] at hofText
  cases hofText
  exact Grammar.readIn_statement _ (.refl (Cursor.sound_ofText hstart)) hrun filter hfilter

end Statement

/-! ### The conjuncts of a layout -/

/-- The conjuncts of a layout have the texts of those of a filter. -/
def Layout.HasTexts (layout : Layout) (text : String) (filter : Option Expr) : Prop :=
  layout.conjuncts.map LayoutConjunct.text =
    (filter.toList.flatMap Expr.conjuncts).map (Expr.text · text)

namespace Analysis

variable (input : AnalysisInput)

/-- The layout of the first specification has its filter, conjunct by conjunct. -/
theorem texts_walkSpecs (spec : QuerySpec) (rest : List QuerySpec) :
    Ensures (fun _ => True) (walkSpecs input (spec :: rest)) fun shapes _ =>
      ∀ first ∈ shapes.head?, first.layout.HasTexts input.text spec.filter := by
  obtain ⟨distinct, items, tables, filter, groupBy, having, span⟩ := spec
  rw [walkSpecs]
  refine (ensures_inScope (Q := fun r : List ShapeColumn × Layout × Bool =>
    r.2.1.HasTexts input.text filter) ?_).bind ?_
  · refine Ensures.keep.bind fun _ => Ensures.keep.bind fun _ => Ensures.keep.bind fun _ =>
      Ensures.keep.bind fun _ => Ensures.keep.bind fun _ => Ensures.keep.bind fun _ =>
      Ensures.keep.bind fun _ => Ensures.keep.bind fun _ => .getAny fun s => .pure fun _ _ => ?_
    simp [Layout.HasTexts, AnalysisState.layout, AnalysisState.layoutConjunct]
  · rintro ⟨⟨columns, layout, singleRow⟩, scope⟩
    refine Ensures.keep.bind fun shapes => .pure fun _ h first hfirst => ?_
    cases hfirst
    exact h

theorem texts_walkQuery (query : Query) :
    Ensures (fun _ => True) (walkQuery input query) fun shape _ =>
      ∀ spec ∈ query.specs.head?, shape.layout.HasTexts input.text spec.filter := by
  obtain ⟨specs, unionAll, orderBy, limit, span⟩ := query
  rw [walkQuery]
  cases specs with
  | nil => exact fun _ _ _ _ _ spec hspec => by cases hspec
  | cons spec rest =>
    refine (texts_walkSpecs input spec rest).bind fun shapes => ?_
    cases shapes with
    | nil => exact .throw _
    | cons first branches =>
      refine Ensures.keep.bind fun _ => Ensures.keep.bind fun _ => Ensures.keep.bind fun _ =>
        .pure fun _ h found hfound => ?_
      cases hfound
      exact h first rfl

end Analysis

/-- The conjuncts of the layout of a query are those of its filter. -/
theorem Statement.exists_layout {statement : Statement} {input : AnalysisInput}
    {result : AnalysisResult} {filter : Expr} (h : statement.analyze input = .ok result)
    (hfilter : statement.kind.queryFilter? = some filter) :
    ∃ layout, result.layout = some layout ∧
      layout.conjuncts.map LayoutConjunct.text = filter.conjuncts.map (Expr.text · input.text) := by
  obtain ⟨text, kind, placeholders, nodes⟩ := statement
  cases kind with
  | insert _ | update _ | delete _ => cases hfilter
  | select query =>
    obtain ⟨spec, hspec, hspecFilter⟩ := Option.bind_eq_some_iff.1 hfilter
    rw [analyze] at h
    simp only [report] at h
    split at h
    next shape s hwalk =>
      cases h
      have htexts := Analysis.texts_walkQuery input query trivial hwalk spec hspec
      rw [hspecFilter] at htexts
      exact ⟨shape.layout, rfl, by simpa [Layout.HasTexts] using htexts⟩
    next => cases h

/-! ### Gluing the conjuncts of a filter -/

/-- **Glued with `AND`, the conjuncts of a filter are read as the same conjuncts if and only if
there is but one, or none is built with `OR` or `XOR`.** The text of a conjunct such as `(a OR b)`
lacks the parentheses around it. The texts are those of the layout; the last hypothesis says that
none of them lacks a parenthesis of an operand, as that of `(a + b) * c > d` does, or a collation
behind it. Where a parenthesis is lacking, the text need not be a predicate at all. -/
theorem BoundText.rereads_conjuncts_iff {bound : BoundText} {catalog : Catalog} {config : Config}
    {resolver : Option Resolver} {statement : Statement} {result : AnalysisResult}
    {tokens : List Token} {filter : Expr}
    (hanalyze : bound.analyze catalog config resolver = .ok (statement, result))
    (hscan : Token.scan bound.text = .ok tokens)
    (hfilter : statement.kind.queryFilter? = some filter)
    (hedges : ∀ conjunct ∈ filter.conjuncts, conjunct.KeepsEdges tokens) :
    ∃ layout, result.layout = some layout ∧
      (Rereads (" AND ".intercalate (layout.conjuncts.map LayoutConjunct.text)) filter.conjuncts ↔
        filter.conjuncts.length = 1 ∨
          ∀ conjunct ∈ filter.conjuncts, conjunct.connective? = none) := by
  cases hparse : Statement.parse bound.text with
  | error e => rw [analyze, hparse] at hanalyze; cases hanalyze
  | ok parsed =>
    rw [analyze, hparse] at hanalyze
    simp only at hanalyze
    split at hanalyze
    · cases hanalyze
    next found hfound =>
    cases hanalyze
    obtain ⟨layout, hlayout, htexts⟩ := statement.exists_layout hfound hfilter
    refine ⟨layout, hlayout, ?_⟩
    obtain ⟨depth, c, c', hc, htokens, htext, hrun⟩ :=
      Statement.readIn_parse hparse hscan hfilter
    obtain ⟨ps, hps, hpieces⟩ := (Grammar.chained_conjuncts hc htokens htext hrun).exists_map
      fun conjunct hmem a b hread => hread.exists_piece (hedges conjunct hmem)
    cases ps with
    | nil => exact absurd hps.symm filter.conjuncts_ne_nil
    | cons p ps =>
      have hand : ∀ q ∈ p :: ps, q.expr.connective? ≠ some .and := fun q hq =>
        Expr.ne_and_of_mem_conjuncts (hps ▸ List.mem_map_of_mem hq)
      have hiff := Grammar.rereads_pieces_iff hscan hpieces hand
      rw [htexts, ← hps, List.map_map]
      refine hiff.trans (or_congr ?_ ?_)
      · simp
      · simp

/-- A table with two columns of integers. -/
def tableOfPairs : Catalog :=
  { tables := [⟨"", "t", [⟨"", "t", "x", .int, true, .none, none⟩,
      ⟨"", "t", "y", .int, true, .none, none⟩]⟩]
    foreignKeys := [] }

/-- Whether a text is read and analysed, and its tokens and what is found pass a test. -/
def BoundText.isAnalyzed (bound : BoundText) (catalog : Catalog)
    (test : List Token → Statement → AnalysisResult → Bool) : Bool :=
  match Token.scan bound.text, bound.analyze catalog {} none with
  | .ok tokens, .ok (statement, result) => test tokens statement result
  | _, _ => false

theorem BoundText.exists_of_isAnalyzed {bound : BoundText} {catalog : Catalog}
    {test : List Token → Statement → AnalysisResult → Bool}
    (h : bound.isAnalyzed catalog test = true) :
    ∃ tokens statement result, Token.scan bound.text = .ok tokens ∧
      bound.analyze catalog {} none = .ok (statement, result) ∧
      test tokens statement result = true := by
  unfold isAnalyzed at h
  split at h
  next tokens statement result hscan hanalyze =>
    exact ⟨tokens, statement, result, hscan, hanalyze, h⟩
  next => cases h

/-- Conjuncts in which parentheses stand inside only, and bound values that are counted. -/
theorem BoundText.rereads_conjuncts_plain :
    let bound := BoundText.ofText ("SELECT x + ? FROM t WHERE x = ? AND " ++
      "(y IN (2, ?) AND NOT (x = 1 OR y = 2)) AND x + (y * 2) < 3")
    ∃ statement result layout filter, bound.analyze tableOfPairs {} none = .ok (statement, result) ∧
      statement.kind.queryFilter? = some filter ∧ filter.conjuncts.length = 4 ∧
      result.layout = some layout ∧
      Rereads (" AND ".intercalate (layout.conjuncts.map LayoutConjunct.text))
        filter.conjuncts := by
  intro bound
  have htest : bound.isAnalyzed tableOfPairs (fun tokens statement _ =>
      statement.kind.queryFilter?.any fun filter => filter.conjuncts.length == 4 &&
        filter.conjuncts.all fun e => decide (e.KeepsEdges tokens) && e.connective?.isNone) =
      true := by
    decide +kernel
  obtain ⟨tokens, statement, result, hscan, hanalyze, htest⟩ := exists_of_isAnalyzed htest
  simp only [Option.any_eq_true, Bool.and_eq_true, beq_iff_eq, List.all_eq_true, decide_eq_true_eq,
    Option.isNone_iff_eq_none] at htest
  obtain ⟨filter, hfilter, hlength, hconjuncts⟩ := htest
  obtain ⟨layout, hlayout, hiff⟩ := rereads_conjuncts_iff hanalyze hscan hfilter
    fun e he => (hconjuncts e he).1
  exact ⟨statement, result, layout, filter, hanalyze, hfilter, hlength, hlayout,
    hiff.2 (.inr fun e he => (hconjuncts e he).2)⟩

/-- What is left of `(x + y) * 2 > 3 AND x = 1` has a parenthesis too many, and nothing is read from
it. -/
example (conjuncts : List Expr) : ¬ Rereads "x + y) * 2 > 3 AND x = 1" conjuncts := by
  have hnone : (Expr.ofText? "x + y) * 2 > 3 AND x = 1").isNone = true := by decide +kernel
  rintro ⟨e, base, hread, -⟩
  rw [hread] at hnone
  cases hnone

/-- Without its parentheses, the disjunction takes in the conjunct after it. -/
theorem BoundText.disjunction_absorbs :
    let bound := BoundText.ofText "SELECT x FROM t WHERE (x = 1 OR y = 2) AND x = 3"
    ∃ statement result layout filter, bound.analyze tableOfPairs {} none = .ok (statement, result) ∧
      statement.kind.queryFilter? = some filter ∧ result.layout = some layout ∧
      layout.conjuncts.map LayoutConjunct.text = ["x = 1 OR y = 2", "x = 3"] ∧
      ¬ Rereads (" AND ".intercalate (layout.conjuncts.map LayoutConjunct.text))
        filter.conjuncts := by
  intro bound
  have htest : bound.isAnalyzed tableOfPairs (fun _ statement result =>
      statement.kind.queryFilter?.any fun filter => filter.conjuncts.length == 2 &&
        result.layout.any fun layout =>
          layout.conjuncts.map LayoutConjunct.text == ["x = 1 OR y = 2", "x = 3"]) = true := by
    decide +kernel
  have hglued : (Expr.ofText? (" AND ".intercalate ["x = 1 OR y = 2", "x = 3"])).all
      (·.conjuncts.length == 1) = true := by
    decide +kernel
  obtain ⟨tokens, statement, result, hscan, hanalyze, htest⟩ := exists_of_isAnalyzed htest
  simp only [Option.any_eq_true, Bool.and_eq_true, beq_iff_eq] at htest
  obtain ⟨filter, hfilter, hlength, layout, hlayout, htexts⟩ := htest
  refine ⟨statement, result, layout, filter, hanalyze, hfilter, hlayout, htexts, ?_⟩
  rintro ⟨e, base, hread, hagree⟩
  rw [htexts] at hread
  rw [hread, Option.all_some, beq_iff_eq] at hglued
  have hsame := hagree.length_eq
  omega

end SqlSignature

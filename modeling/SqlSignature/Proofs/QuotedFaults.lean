import SqlSignature.Proofs.StatementReplay
import SqlSignature.Proofs.TokenCoverage
/-!
# SqlSignature.Proofs.QuotedFaults

Errors quote the text that they are about. Every token starts and stops at the edge of a character,
and so does the text itself. Errors of the scanner are about characters at the front of what is left
of the text, and those of the grammar run from where a token starts to where a token stops, or to
the end of the text (`Statement.faults_quoted`).
-/

namespace SqlSignature

namespace Text

/-- A character of a text starts at an offset, or the text ends there. -/
def IsEdge (text : String) (offset : Nat) : Prop :=
  ∃ before rest, text.toList = before ++ rest ∧ byteSize before = offset

variable {text : String} {start stop : Nat}

theorem isEdge_zero (text : String) : IsEdge text 0 := ⟨[], text.toList, rfl, rfl⟩

theorem isEdge_size (text : String) : IsEdge text (size text) :=
  ⟨text.toList, [], (List.append_nil _).symm, rfl⟩

theorem IsEdge.le (h : IsEdge text stop) : stop ≤ size text := by
  obtain ⟨before, rest, htext, rfl⟩ := h
  rw [size, htext, byteSize_append]
  exact Nat.le_add_right _ _

/-- Two edges in order are those of a slice. -/
theorem IsEdge.exists_slice (hstart : IsEdge text start) (hstop : IsEdge text stop)
    (hle : start ≤ stop) : ∃ inner, slice? text start stop = some inner := by
  obtain ⟨before, rest, htext, rfl⟩ := hstart
  obtain ⟨before', rest', htext', rfl⟩ := hstop
  rcases List.append_eq_append_iff.1 (htext.symm.trans htext') with
    ⟨inner, rfl, rfl⟩ | ⟨inner, rfl, rfl⟩
  · rw [byteSize_append]
    exact ⟨_, slice?_of_append htext⟩
  · -- the second edge is no later than the first, so the two are one
    rw [byteSize_append] at hle ⊢
    cases inner with
    | nil => exact ⟨_, slice?_of_append (show _ = _ ++ ([] ++ rest) from htext')⟩
    | cons c inner =>
      have := Token.byteSize_pos (List.cons_ne_nil c inner)
      omega

theorem isEdge_of_slice? {inner : String} (h : slice? text start stop = some inner) :
    IsEdge text start ∧ IsEdge text stop := by
  unfold slice? at h
  split at h
  next hle =>
    obtain ⟨⟨before, rest⟩, hbefore, h⟩ := Option.bind_eq_some_iff.1 h
    obtain ⟨⟨front, after⟩, hfront, -⟩ := Option.bind_eq_some_iff.1 h
    obtain ⟨htext, hsize⟩ := cut_eq_some hbefore
    obtain ⟨rfl, hsize'⟩ := cut_eq_some hfront
    refine ⟨⟨before, _, htext, hsize⟩, before ++ front, after, ?_, ?_⟩
    · rw [htext, List.append_assoc]
    · rw [byteSize_append, hsize, hsize']
      omega
  next => cases h

end Text

/-! ### Quotations -/

/-- An error says where in a text it stands, and quotes what stands there. -/
structure ParseError.Quotes (e : ParseError) (text : String) : Prop where
  ordered : e.start ≤ e.stop
  inside : e.stop ≤ Text.size text
  start_edge : Text.IsEdge text e.start
  stop_edge : Text.IsEdge text e.stop
  excerpt : Text.slice? text e.start e.stop = some e.excerpt

variable {text : String}

/-- An error from one edge to another is a quotation, even if the second stands before the first. -/
theorem ParseError.quotes_of_isEdge (fault : ParseFault) {start stop : Nat}
    (hstart : Text.IsEdge text start) (hstop : Text.IsEdge text stop) :
    Quotes ⟨fault, start, max stop start,
      Text.slice text start (min (max stop start) (Text.size text))⟩ text := by
  have hlast : Text.IsEdge text (max stop start) := by
    rcases Nat.le_total stop start with hle | hle
    · rwa [Nat.max_eq_right hle]
    · rwa [Nat.max_eq_left hle]
  obtain ⟨inner, hinner⟩ := hstart.exists_slice hlast (Nat.le_max_right _ _)
  rw [Nat.min_eq_left hlast.le, Text.slice, hinner]
  exact ⟨Nat.le_max_right _ _, hlast.le, hstart, hlast, hinner⟩

theorem ParseError.within_quotes (fault : ParseFault) {start stop : Nat}
    (hstart : Text.IsEdge text start) (hstop : Text.IsEdge text stop) :
    (within text fault start stop).Quotes text := by
  have hquotes := quotes_of_isEdge fault hstart hstop
  have hle : max stop start ≤ Text.size text := hquotes.inside
  rw [Nat.min_eq_left hle] at hquotes
  rw [within, Nat.min_eq_left hstop.le]
  exact hquotes

namespace Token

/-- A fault of the scanner is about characters at the front of those that are left. -/
theorem quotes_of_scanFrom {fuel offset : Nat} {before cs : List Char} {e : ParseError}
    (htext : text.toList = before ++ cs) (hoffset : Text.byteSize before = offset)
    (h : scanFrom text fuel offset cs = .error e) : e.Quotes text := by
  fun_induction scanFrom text fuel offset cs generalizing before with
  | case1 | case2 => cases h
  | case3 offset fuel c cs covered rest hfront ih =>
    have hsplit := hfront ▸ Lexed.front_splits c cs
    have htext' : text.toList = (before ++ covered) ++ rest := by
      rw [htext, ← hsplit.1, List.append_assoc]
    exact ih htext' (by rw [Text.byteSize_append, hoffset]) h
  | case4 fuel offset c cs kind said covered rest hfront =>
    rename_i stop ih
    have hsplit := hfront ▸ Lexed.front_splits c cs
    have htext' : text.toList = (before ++ covered) ++ rest := by
      rw [htext, ← hsplit.1, List.append_assoc]
    cases hscan : scanFrom text fuel (offset + Text.byteSize covered) rest with
    | error e' =>
      rw [hscan] at h
      cases h
      exact ih htext' (by rw [Text.byteSize_append, hoffset]) hscan
    | ok tokens =>
      rw [hscan] at h
      cases h
  | case5 offset fuel c cs fault covered hfront =>
    cases h
    obtain ⟨rest, hrest⟩ := hfront ▸ Lexed.front_splits c cs
    refine ParseError.within_quotes fault ⟨before, _, htext, hoffset⟩
      ⟨before ++ covered, rest, ?_, by rw [Text.byteSize_append, hoffset]⟩
    rw [htext, ← hrest, List.append_assoc]

theorem isEdge_of_scan {tokens : List Token} (h : scan text = .ok tokens) :
    ∀ t ∈ tokens, Text.IsEdge text t.start ∧ Text.IsEdge text t.stop := by
  have hlaid : LaidOut (Text.byteSize []) text.toList tokens := (scan_eq_ok_iff.1 h).laidOut
  intro t ht
  obtain ⟨-, -, written, hslice, -⟩ := hlaid.tokens rfl t ht
  exact Text.isEdge_of_slice? hslice

end Token

/-! ### Faults of the grammar -/

/-- An error that a cursor raises runs from where a token starts to where a token stops. -/
theorem ParseError.RaisedOver.quotes {e : ParseError} {tokens : Array Token}
    (h : e.RaisedOver text tokens)
    (htokens : ∀ t ∈ tokens, Text.IsEdge text t.start ∧ Text.IsEdge text t.stop) :
    e.Quotes text := by
  obtain ⟨c, fault, pivot, rfl, rfl, rfl, -, -⟩ := h
  have hedge : ∀ i, Text.IsEdge c.text (c.tokenStart i) ∧ Text.IsEdge c.text (c.tokenStop i) := by
    intro i
    unfold Cursor.tokenStart Cursor.tokenStop
    cases hi : c.tokens[i]? with
    | none => exact ⟨Text.isEdge_size _, Text.isEdge_size _⟩
    | some t => exact htokens t (Array.mem_of_getElem? hi)
  exact quotes_of_isEdge fault (hedge pivot).1 (hedge c.position).2

/-- Reading a text a second time has the same outcome; so what it fails with was raised over its
tokens. -/
theorem Grammar.raised_of_outcome {α : Type} [Viewed α] {p : Parser α}
    (hp : ∀ {s : Passage} {c d : Cursor}, s.Whole → s.Level c d → SameOutcome s c.text (p c) (p d))
    {c c' : Cursor} {e : ParseError} (hinside : c.position ≤ c.tokens.size)
    (h : p c = .error e c') : e.RaisedOver c.text c.tokens := by
  have halike : List.Forall₂ Token.Alike c.tokens.toList c.tokens.toList :=
    List.forall₂_same.2 fun _ _ => Token.Same.alike ⟨rfl, rfl⟩
  have hlevel : (Passage.ofTokens halike).Level c c :=
    ⟨rfl, rfl, ⟨c.position, (Nat.zero_add _).symm, (Nat.zero_add _).symm⟩, hinside, rfl,
      (Nat.zero_add _).symm⟩
  have houtcome := hp rfl hlevel
  rw [h] at houtcome
  cases houtcome with
  | error _ raised => exact raised

/-- **The depth suffices.** Whatever is wrong with an expression or a statement among some tokens,
the grammar for these tokens is not used up, and neither are the rounds of a repetition. -/
theorem Grammar.fault_ne_nestingTooDeep {c c' : Cursor} {e : ParseError}
    (hinside : c.position ≤ c.tokens.size)
    (h : parseExpr c = .error e c' ∨ parsePrimary c = .error e c' ∨
      wholeStatement c = .error e c') : e.fault ≠ .nestingTooDeep := by
  have hraised : e.RaisedOver c.text c.tokens := by
    rcases h with hexpr | hprimary | hstatement
    · exact raised_of_outcome sameOutcome_parseExpr hinside hexpr
    · exact raised_of_outcome sameOutcome_parsePrimary hinside hprimary
    · exact raised_of_outcome sameOutcome_wholeStatement hinside hstatement
  obtain ⟨d, fault, pivot, rfl, -, -, hfault, -⟩ := hraised
  exact hfault

theorem Statement.raised_of_parse {tokens : List Token} {e : ParseError}
    (hscan : Token.scan text = .ok tokens) (h : parse text = .error e) :
    e = .within text .emptyStatement 0 (Text.size text) ∨ e.RaisedOver text tokens.toArray := by
  rw [parse_of_scan hscan, EStateM.run] at h
  split at h
  · cases h
    exact .inl rfl
  · cases hrun : Grammar.wholeStatement ⟨text, tokens.toArray, 0, 0, 0⟩ with
    | ok kind c =>
      rw [hrun] at h
      cases h
    | error e' c =>
      rw [hrun] at h
      cases h
      exact .inr (Grammar.raised_of_outcome Grammar.sameOutcome_wholeStatement (Nat.zero_le _) hrun)

/-- **Errors quote the text.** Whatever is wrong with a text, the error of scanning it or of reading
it as a statement starts and stops at edges of characters inside it, in this order, and says what
stands between them. -/
theorem Statement.faults_quoted (text : String) :
    (∀ e, Token.scan text = .error e → e.Quotes text) ∧
      ∀ e, Statement.parse text = .error e → e.Quotes text := by
  have hscan : ∀ e, Token.scan text = .error e → e.Quotes text := fun e h =>
    Token.quotes_of_scanFrom (List.nil_append text.toList).symm rfl h
  refine ⟨hscan, fun e h => ?_⟩
  cases htokens : Token.scan text with
  | error e' =>
    rw [parse, Cursor.ofText, htokens] at h
    cases h
    exact hscan e htokens
  | ok tokens =>
    rcases raised_of_parse htokens h with rfl | hraised
    · exact ParseError.within_quotes _ (Text.isEdge_zero text) (Text.isEdge_size text)
    · exact hraised.quotes (by simpa using Token.isEdge_of_scan htokens)

/-- A comparison without its left side, after a character of two bytes. -/
theorem Statement.faults_quoted_comparison : ∃ e,
    parse "SELECT 'é' FROM t WHERE = 1" = .error e ∧ e.Quotes "SELECT 'é' FROM t WHERE = 1" ∧
      (e.start, e.stop, e.excerpt) = (25, 26, "=") := by
  have hread : (((parse "SELECT 'é' FROM t WHERE = 1").map fun _ => none).tryCatch
      fun e => .ok (some (e.start, e.stop, e.excerpt))).toOption = some (some (25, 26, "=")) := by
    decide +kernel
  cases h : parse "SELECT 'é' FROM t WHERE = 1" with
  | ok statement =>
    rw [h] at hread
    cases hread
  | error e =>
    rw [h] at hread
    exact ⟨e, rfl, (faults_quoted _).2 e h, Option.some.inj (Option.some.inj hread)⟩

end SqlSignature

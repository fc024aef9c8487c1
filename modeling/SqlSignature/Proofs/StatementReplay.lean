import Mathlib
import SqlSignature.Proofs.GrammarBuilt
import SqlSignature.Proofs.GrammarReplay
/-!
# SqlSignature.Proofs.StatementReplay

The rules for statements are replayed, and with them whole texts. What a statement is, or why a text
is none, depends on the kinds of its tokens, on what they say, and on words only up to case
(`Statement.parse_alike`).
-/

namespace SqlSignature

namespace Grammar

open SqlSignature.Parser Passage

section

variable {s : Passage} {g h : Grammar} (hg : Repeats s 0 g h)

include hg

theorem replays_assignment : Replays s 1 s.slack 0 (assignment g) (assignment h) := by
  have ending : ∀ {table table' : Option String} {column column' : String} (pivot pivot' : Nat),
      s.Agrees table table' → s.Agrees column column' → Replays s 0 s.slack 0
        (assignmentRest g pivot table column) (assignmentRest h pivot' table' column') := by
    intro table table' column column' pivot pivot' htable hcolumn
    refine (replays_expectSymbol "=").bind fun _ _ _ => hg.expr.bind fun _ _ hvalue =>
      replays_getPure (by omega) fun _ _ => ?_
    show Assignment.mk _ _ _ _ = Assignment.mk _ _ _ _
    congr 1
  refine replays_get fun c d => (replays_identifier c d).bind fun _ _ hfirst =>
    (announces_acceptSymbol ".").ite ?_ ?_
  · exact replays_identifier.bind fun _ _ hcolumn =>
      (ending _ _ hfirst.some hcolumn).weaken (by omega)
  · exact (ending _ _ agree_none hfirst).weaken (by omega)

theorem replays_row : Replays s 1 0 0 (row g) (row h) := by
  have hslack := s.slack_le
  refine (replays_expectSymbol "(").bind fun _ _ _ => (announces_acceptSymbol ")").ite
    (replays_pure (by rfl) (by omega)) ?_
  exact (replays_commaSeparated hg.expr).bind fun _ _ hvalues =>
    (replays_expectSymbol ")").bind fun _ _ _ => replays_pure hvalues (by omega)

omit hg in
theorem replays_insertColumns : Replays s 0 0 0 insertColumns insertColumns := by
  refine (announces_acceptSymbol "(").ite ?_ (replays_pure (by rfl) (by omega))
  exact (replays_commaSeparated replays_identifier).bind fun _ _ hcolumns =>
    (replays_expectSymbol ")").bind fun _ _ _ => replays_pure hcolumns (by omega)

theorem replays_insertSource {columns columns' : List String}
    (hcolumns : s.Agrees columns columns') :
    Replays s 0 s.slack 0 (insertSource g columns) (insertSource h columns') := by
  refine (announces_acceptAnyWord ["VALUES", "VALUE"] rfl).ite ?_ <|
    (announces_acceptWord "SET" rfl).ite ?_ <| replays_get fun c d => .get <|
      .ite ((foreseen_isWord "SELECT" rfl).or (foreseen_isSymbol "(")) (by omega) (fun _ => ?_)
        fun _ => replays_failHere (by simp) c d
  · exact (replays_commaSeparated (replays_row hg)).bind fun _ _ hrows =>
      replays_pure (congrArg₂ (·, InsertSource.values ·) hcolumns hrows) (by omega)
  · refine (replays_commaSeparated (replays_assignment hg)).bind fun _ _ hassignments =>
      replays_pure ?_ (by omega)
    exact congrArg₂ (·, InsertSource.values [·])
      (hassignments.map (f := Assignment.column) fun _ _ => rfl)
      (hassignments.map (f := Assignment.value) fun _ _ => rfl)
  · exact (hg.query c d).bind fun _ _ hquery =>
      replays_pure (congrArg₂ (·, InsertSource.query ·) hcolumns hquery) (by omega)

section

variable {c d : Cursor} {t : Token} (hcur : c.current = some t)

include hcur

theorem replaysAt_insertion : ReplaysAt s 1 s.slack 0 c d (insertion g) (insertion h) := by
  have hduplicates := rounds_afterAccepted (announces_acceptWords Phrase.onDuplicate rfl rfl)
    (replays_commaSeparated (replays_assignment hg))
  refine (replaysAt_advance hcur).bind fun _ _ _ =>
    (announces_acceptWord "IGNORE" rfl).bind fun _ =>
      (announces_acceptWord "INTO" rfl).bind fun _ =>
      (replays_tableName false).bind fun _ _ htable => replays_insertColumns.bind fun _ _ hnamed =>
        (replays_insertSource hg hnamed).bind fun _ _ hsource =>
          hduplicates.replays.bind fun _ _ hduplicates => replays_pure ?_ (by omega)
  show Insertion.mk _ _ _ _ = Insertion.mk _ _ _ _
  congr 1
  · exact congrArg Prod.fst hsource
  · exact congrArg Prod.snd hsource
  · exact hduplicates.getD

theorem replaysAt_update : ReplaysAt s 1 s.slack 0 c d (update g) (update h) := by
  have hslack := s.slack_le
  have hfilter := rounds_afterAccepted (announces_acceptWord "WHERE" rfl) hg.expr
  have htables := replays_commaSeparated (replays_tableRef (hg.weaken (Nat.zero_le 1)))
  refine (replaysAt_advance hcur).bind fun _ _ _ => (announces_acceptWord "LOW_PRIORITY" rfl).bind
    fun _ => (announces_acceptWord "IGNORE" rfl).bind fun _ => htables.bind fun _ _ htables =>
      (replays_expectWord "SET").bind fun _ _ _ =>
        (replays_commaSeparated (replays_assignment hg)).bind fun _ _ hassignments =>
          hfilter.replays.bind fun _ _ hfilter => replays_pure ?_ (by omega)
  show Update.mk _ _ _ = Update.mk _ _ _
  congr 1

theorem replaysAt_deletion : ReplaysAt s 1 s.slack 0 c d (deletion g) (deletion h) := by
  have hfilter := rounds_afterAccepted (announces_acceptWord "WHERE" rfl) hg.expr
  exact (replaysAt_advance hcur).bind fun _ _ _ =>
    (announces_acceptWord "LOW_PRIORITY" rfl).bind fun _ =>
      (announces_acceptWord "QUICK" rfl).bind fun _ =>
        (announces_acceptWord "IGNORE" rfl).bind fun _ =>
          (replays_expectWord "FROM").bind fun _ _ _ =>
            (replays_tableName true).bind fun _ _ htable =>
              hfilter.replays.bind fun _ _ hfilter =>
                replays_pure (congrArg₂ Deletion.mk htable hfilter) (by omega)

end

theorem replays_statementKind : Replays s 1 s.slack 0 (statementKind g) (statementKind h) := by
  have next : ∀ {c : Cursor} {word : String}, c.isWord word = true → ∃ t, c.current = some t :=
    fun hword => ((Option.any_eq_true _ _).1 hword).imp fun _ => And.left
  refine replays_get fun c d =>
    .ite ((foreseen_isWord "SELECT" rfl).or (foreseen_isSymbol "(")) (Nat.zero_le _) (fun _ => ?_)
      fun _ => .ite ((foreseen_isWord "INSERT" rfl).or (foreseen_isWord "REPLACE" rfl))
        (Nat.zero_le _) (fun hinsert => ?_) fun _ =>
      .ite (foreseen_isWord "UPDATE" rfl) (Nat.zero_le _) (fun hupdate => ?_) fun _ =>
      .ite (foreseen_isWord "DELETE" rfl) (Nat.zero_le _) (fun hdelete => ?_) fun _ =>
      replays_failHere (by simp) c d
  · exact (hg.query c d).bind fun _ _ h => replays_pure (congrArg StatementKind.select h) (by omega)
  · obtain ⟨t, hcur⟩ := ((Bool.or_eq_true _ _).mp hinsert).elim next next
    exact (replaysAt_insertion hg hcur).bind fun _ _ h =>
      replays_pure (congrArg StatementKind.insert h) (by omega)
  · obtain ⟨t, hcur⟩ := next hupdate
    exact (replaysAt_update hg hcur).bind fun _ _ h =>
      replays_pure (congrArg StatementKind.update h) (by omega)
  · obtain ⟨t, hcur⟩ := next hdelete
    exact (replaysAt_deletion hg hcur).bind fun _ _ h =>
      replays_pure (congrArg StatementKind.delete h) (by omega)

end

theorem repeats_ofCursor {s : Passage} {c d : Cursor} (hs : s.Whole) (hlevel : s.Level c d) :
    Repeats s 0 (ofCursor c) (ofCursor d) := by
  have hsize : d.tokens.size = c.tokens.size := by
    rw [hlevel.copy, hlevel.source, (s.entire hs).2.2.2]
  have hrepeats : RepeatsUpTo s 0 (depthFor c.tokens.size) (depthFor d.tokens.size) :=
    repeats_upTo s _ _ 0 fun _ => by rw [hsize]
  have hdepth : ∀ {rank : Nat}, rank ≤ 16 → Suffices s 0 rank (depthFor d.tokens.size) := by
    intro rank hrank _
    rw [depthFor, hlevel.copy]
    omega
  exact ⟨fun tier => hrepeats.tier tier (hdepth (by cases tier <;> simp [Tier.rank])),
    hrepeats.primary (hdepth (by omega)), hrepeats.spec (hdepth (by omega)),
    hrepeats.query (hdepth (by omega))⟩

theorem sameOutcome_parseExpr {s : Passage} {c d : Cursor} (hs : s.Whole)
    (hlevel : s.Level c d) : SameOutcome s c.text (parseExpr c) (parseExpr d) :=
  ((repeats_ofCursor hs hlevel).expr c d).get.outcome hs hlevel (Nat.zero_le _)

theorem sameOutcome_parsePrimary {s : Passage} {c d : Cursor} (hs : s.Whole)
    (hlevel : s.Level c d) : SameOutcome s c.text (parsePrimary c) (parsePrimary d) :=
  ((repeats_ofCursor hs hlevel).primary c d).get.outcome hs hlevel (Nat.zero_le _)

/-- Texts that are the same up to the case of words have the same outcome. -/
theorem sameOutcome_wholeStatement {s : Passage} {c d : Cursor} (hs : s.Whole)
    (hlevel : s.Level c d) : SameOutcome s c.text (wholeStatement c) (wholeStatement d) := by
  have hslack := s.slack_le
  have hnothing : Replays s 0 0 0 (pure ()) (pure ()) := replays_pure rfl (by omega)
  have hsemicolons := replays_collect (rounds_afterAccepted (announces_acceptSymbol ";") hnothing)
  have hwhole : ReplaysAt s 0 1 0 c d wholeStatement wholeStatement :=
    .get <| (replays_statementKind (repeats_ofCursor hs hlevel) c d).bind fun _ _ hkind =>
      hsemicolons.bind fun _ _ _ => replays_get fun c d => .ite foreseen_atEnd (by omega)
        (fun _ => replays_pure hkind (by omega) c d)
        fun _ => .failed rfl (Cursor.raisedOver _ _ (by simp)) fun _ _ => ⟨_, _, rfl, rfl⟩
  exact hwhole.outcome hs hlevel (Nat.zero_le _)

end Grammar

/-! ### Texts that are the same up to case -/

/-- Texts that are the same up to case have the same capitals. -/
theorem Text.capitals_eq_of_lower_eq {a b : String} (h : lower a = lower b) :
    capitals a = capitals b := by
  have hlower : ∀ s : String, capitals s = capitals (lower s) := by
    intro s
    rw [capitals, capitals, lower, String.map_map]
    congr 1
    funext c
    exact (Char.toUpper_toLower_eq_toUpper c).symm
  rw [hlower a, hlower b, h]

theorem View.fits_folded : Fits .folded .folded 0 where
  after := by
    refine congrArg (View.mk id id) (funext fun s => ?_)
    show Text.lower (Text.lower s) = Text.lower s
    rw [Text.lower, Text.lower, String.map_map]
    congr 1
    funext c
    exact Char.toLower_toLower_eq_toLower c
  number h := congrArg (· + 1) h
  ordinal k := (Nat.zero_add k).symm
  name := rfl
  lower h := h
  capitals := Text.capitals_eq_of_lower_eq

/-- A whole text, and another one with the same tokens up to the case of words. -/
def Passage.ofTokens {tokens tokens' : List Token} (h : List.Forall₂ Token.Alike tokens tokens') :
    Passage where
  source := tokens.toArray
  copy := tokens'.toArray
  first := 0
  place := 0
  stop := tokens.length
  slack := 0
  base := 0
  view := .folded
  copyView := .folded
  fits := View.fits_folded
  le := Nat.zero_le _
  slack_le := Nat.zero_le _
  same k hk := by
    rw [Nat.zero_add] at hk
    have htu := h.get hk (h.length_eq ▸ hk)
    exact ⟨_, _, by simp [hk], by simp [h.length_eq ▸ hk], htu, htu.lower_text⟩
  after u hu := by simp [h.length_eq] at hu
  whole := true
  entire _ := ⟨rfl, rfl, by simp, by simp [h.length_eq]⟩

theorem Token.alike_word {word word' : String} (h : Text.sameName word word' = true)
    (start stop start' stop' : Nat) :
    Alike ⟨.word, word, start, stop⟩ ⟨.word, word', start', stop'⟩ :=
  ⟨rfl, fun hkind => absurd rfl hkind, fun _ => h⟩

theorem Token.alike_elsewhere (kind : TokenKind) (text : String) (start stop start' stop' : Nat) :
    Alike ⟨kind, text, start, stop⟩ ⟨kind, text, start', stop'⟩ :=
  Same.alike ⟨rfl, rfl⟩

namespace Statement

/-- Whether a text is a statement, which one up to spans and the case of its names, and what is
wrong with it if it is none, depend on what its tokens say, and on its words only up to case. -/
theorem parse_alike {text text' : String} {tokens tokens' : List Token}
    (hscan : Token.scan text = .ok tokens) (hscan' : Token.scan text' = .ok tokens')
    (htokens : List.Forall₂ Token.Alike tokens tokens') :
    (∃ s s', parse text = .ok s ∧ parse text' = .ok s' ∧ s'.nodes = s.nodes ∧
      s'.placeholders = s.placeholders ∧ s'.kind.view .folded = s.kind.view .folded) ∨
    ∃ e e', parse text = .error e ∧ parse text' = .error e' ∧
      e'.fault.message = e.fault.message := by
  have hlevel : (Passage.ofTokens htokens).Level ⟨text, tokens.toArray, 0, 0, 0⟩
      ⟨text', tokens'.toArray, 0, 0, 0⟩ :=
    ⟨rfl, rfl, ⟨0, rfl, rfl⟩, Nat.zero_le _, rfl, rfl⟩
  rw [parse_of_scan hscan, parse_of_scan hscan', hlevel.atEnd (.inr rfl)]
  split
  · exact .inr ⟨_, _, rfl, rfl, rfl⟩
  have houtcome := Grammar.sameOutcome_wholeStatement rfl hlevel
  revert houtcome
  rw [EStateM.run, EStateM.run]
  generalize Grammar.wholeStatement _ = x
  generalize Grammar.wholeStatement _ = y
  rintro (⟨hkind, hplace⟩ | ⟨hfault⟩)
  · refine .inl ⟨_, _, rfl, rfl, hplace.nodes, ?_, hkind⟩
    exact (hplace.placeholders.trans (Nat.zero_add _)).symm
  · exact .inr ⟨_, _, rfl, rfl, congrArg ParseFault.message hfault⟩

/-- Two spellings of a statement: other letters, a comment in place of a space, and none where none
is needed. -/
theorem parse_alike_respelled : ∃ tokens tokens' : List Token,
    Token.scan "SELECT Id FROM T WHERE ?" = .ok tokens ∧
    Token.scan "select ID/**/from t where?" = .ok tokens' ∧
    List.Forall₂ Token.Alike tokens tokens' ∧
    ∃ s s', parse "SELECT Id FROM T WHERE ?" = .ok s ∧ parse "select ID/**/from t where?" = .ok s' ∧
      s'.nodes = s.nodes ∧ s'.placeholders = s.placeholders ∧
      s'.kind.view .folded = s.kind.view .folded := by
  have hscan : Token.scan "SELECT Id FROM T WHERE ?" =
      .ok [⟨.word, "SELECT", 0, 6⟩, ⟨.word, "Id", 7, 9⟩, ⟨.word, "FROM", 10, 14⟩,
        ⟨.word, "T", 15, 16⟩, ⟨.word, "WHERE", 17, 22⟩, ⟨.placeholder, "?", 23, 24⟩] :=
    eq_ok_of_toOption (by decide +kernel)
  have hscan' : Token.scan "select ID/**/from t where?" =
      .ok [⟨.word, "select", 0, 6⟩, ⟨.word, "ID", 7, 9⟩, ⟨.word, "from", 13, 17⟩,
        ⟨.word, "t", 18, 19⟩, ⟨.word, "where", 20, 25⟩, ⟨.placeholder, "?", 25, 26⟩] :=
    eq_ok_of_toOption (by decide +kernel)
  have htokens : List.Forall₂ Token.Alike
      [⟨.word, "SELECT", 0, 6⟩, ⟨.word, "Id", 7, 9⟩, ⟨.word, "FROM", 10, 14⟩,
        ⟨.word, "T", 15, 16⟩, ⟨.word, "WHERE", 17, 22⟩, ⟨.placeholder, "?", 23, 24⟩]
      [⟨.word, "select", 0, 6⟩, ⟨.word, "ID", 7, 9⟩, ⟨.word, "from", 13, 17⟩,
        ⟨.word, "t", 18, 19⟩, ⟨.word, "where", 20, 25⟩, ⟨.placeholder, "?", 25, 26⟩] :=
    .cons (Token.alike_word (Text.sameName_iff_toList.2 (by decide)) ..) <|
      .cons (Token.alike_word (Text.sameName_iff_toList.2 (by decide)) ..) <|
        .cons (Token.alike_word (Text.sameName_iff_toList.2 (by decide)) ..) <|
          .cons (Token.alike_word (Text.sameName_iff_toList.2 (by decide)) ..) <|
            .cons (Token.alike_word (Text.sameName_iff_toList.2 (by decide)) ..) <|
              .cons (Token.alike_elsewhere ..) .nil
  obtain ⟨statement, hparse, -⟩ := exists_of_isRead
    (show isRead "SELECT Id FROM T WHERE ?" (fun _ => true) = true by decide +kernel)
  refine ⟨_, _, hscan, hscan', htokens, (parse_alike hscan hscan' htokens).resolve_right ?_⟩
  rintro ⟨e, e', herror, -⟩
  cases hparse.symm.trans herror

end Statement

end SqlSignature

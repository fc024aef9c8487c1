import SqlSignature.Proofs.NodeTable
/-!
# SqlSignature.Proofs.SpanNesting

The spans of a statement that was read nest as its nodes do: a node stands between the edges of two
tokens and spans what is below it, and what stands right below one node does not overlap
(`Statement.spans_nest`).
-/

namespace SqlSignature

/-- The span of a node among the tokens of a text, and the spans of what lies right below it. -/
structure Expr.Nests (e : Expr) (text : String) (tokens : List Token) : Prop where
  starts : ∃ t ∈ tokens, e.span.start = t.start
  stops : ∃ t ∈ tokens, e.span.stop = t.stop
  proper : e.span.start < e.span.stop
  inside : e.span.stop ≤ Text.size text
  children : ∀ n ∈ e.children, n.span.Within e.span
  query : ∀ q, e.form.query? = some q → ∀ n ∈ q.nodes, n.span.Within e.span
  apart : e.children.Pairwise fun a b => a.span.Before b.span ∨ b.span.Before a.span

theorem ExprForm.mem_nodes_of_query? {form : ExprForm} {q : Query} (h : form.query? = some q)
    {n : Expr} (hn : n ∈ q.nodes) : n ∈ form.nodes := by
  unfold ExprForm.query? at h
  split at h <;> cases h
  · exact List.mem_append_right _ hn
  · exact hn
  · exact hn

/-- A span with edges lies between the start of a token and the end of one that does not stand
before it. -/
theorem Cursor.Edged.exists_tokens {c : Cursor} {first last : Nat} {span : Span}
    (h : c.Edged first last span) (hc : c.Sound) (hlast : last ≤ c.tokens.size) :
    ∃ t ∈ c.tokens.toList, ∃ u ∈ c.tokens.toList, span.start = t.start ∧ span.stop = u.stop ∧
      t.start < u.stop := by
  obtain ⟨i, j, -, hij, hj, hstart, hstop, -, -⟩ := h
  have hi : c.tokens[i]? = some c.tokens[i] := Array.getElem?_eq_getElem (by omega)
  have hj : c.tokens[j]? = some c.tokens[j] := Array.getElem?_eq_getElem (by omega)
  rw [tokenStart_of_some hi] at hstart
  rw [tokenStop_of_some hj] at hstop
  refine ⟨_, Array.getElem_mem_toList _, _, Array.getElem_mem_toList _, hstart, hstop, ?_⟩
  have hfirst := (hc.proper_at hi).1
  rcases Nat.lt_or_eq_of_le hij with hlt | rfl
  · have hle := hc.stop_le_tokenStart hi hlt
    have hsecond := (hc.proper_at hj).1
    rw [tokenStart_of_some hj] at hle
    omega
  · exact hfirst

namespace Statement

variable {text : String} {statement : Statement}

/-- What stands right below a node is apart: no part of a node is below another one. -/
theorem parts_apart (h : parse text = .ok statement) {e : Expr} (he : e ∈ statement.kind.nodes) :
    e.parts.Pairwise fun a b => a.span.Before b.span ∨ b.span.Before a.span := by
  obtain ⟨_, _, _, _, _, _, hbuilt, _⟩ := parse_built h
  have hids := nodup_ids h
  have hbelow : (e.parts.flatMap Expr.nodes).Subperm statement.kind.nodes :=
    (List.sublist_cons_self ..).subperm.trans
      (e.nodes_perm_cons.symm.subperm.trans (nodes_subperm he))
  have hform : ∀ {n m : Expr}, n ∈ m.form.nodes → n ∈ m.nodes := fun {n m} hn => by
    cases m
    exact List.mem_cons_of_mem _ hn
  have hnodup : (e.parts.flatMap Expr.nodes).Nodup := by
    obtain ⟨l, hperm, hsub⟩ := hbelow
    exact hperm.nodup_iff.1 (hids.of_map.sublist hsub)
  refine (List.nodup_flatMap.1 hnodup).2.imp_of_mem fun {a b} ha hb hdisjoint => ?_
  have hmem : ∀ {p}, p ∈ e.parts → p ∈ statement.kind.nodes := fun {p} hp =>
    hbelow.subset (List.mem_flatMap.2 ⟨p, hp, p.self_mem_nodes⟩)
  rcases Nat.lt_trichotomy a.id b.id with hlt | heq | hlt
  · refine (hbuilt.ordered a (hmem ha) b (hmem hb) hlt).elim (fun hab => ?_) .inl
    exact absurd (hform hab) (hdisjoint a.self_mem_nodes)
  · have hab : a = b := List.inj_on_of_nodup_map hids (hmem ha) (hmem hb) heq
    exact absurd (hab ▸ a.self_mem_nodes) (hdisjoint a.self_mem_nodes)
  · refine (hbuilt.ordered b (hmem hb) a (hmem ha) hlt).elim (fun hba => ?_) .inr
    exact absurd b.self_mem_nodes (hdisjoint (hform hba))

/-- The spans of a statement that was read nest. -/
theorem spans_nest (h : parse text = .ok statement) :
    ∃ tokens, Token.scan text = .ok tokens ∧ ∀ e ∈ statement.table, e.Nests text tokens := by
  obtain ⟨start, stop, hstart, _, _, _, hbuilt, hend, _, _⟩ := parse_built h
  cases hscan : Token.scan text with
  | error error =>
    rw [Cursor.ofText, hscan] at hstart
    cases hstart
  | ok tokens =>
    rw [Cursor.ofText, hscan] at hstart
    cases hstart
    refine ⟨tokens, rfl, fun e he => ?_⟩
    have he : e ∈ statement.kind.nodes := statement.table_perm.mem_iff.1 he
    obtain ⟨t, ht, u, hu, hstarts, hstops, hlt⟩ :=
      (hbuilt.edges e he).exists_tokens hbuilt.sound hbuilt.inside
    have hchild : ∀ n ∈ e.children, n ∈ e.parts := fun n hn =>
      List.mem_append_left _ (List.mem_append_left _ hn)
    refine ⟨⟨t, ht, hstarts⟩, ⟨u, hu, hstops⟩, ?_, ?_, ?_, ?_, ?_⟩
    · rw [hstarts, hstops]
      exact hlt
    · rw [hstops]
      exact (hbuilt.sound.proper u hu).2
    · exact fun n hn => hbuilt.covers e he n (Expr.mem_form_nodes_of_mem_parts (hchild n hn))
    · exact fun q hq n hn => hbuilt.covers e he n (ExprForm.mem_nodes_of_query? hq hn)
    · exact (parts_apart h he).sublist
        ((List.sublist_append_left ..).trans (List.sublist_append_left ..))

theorem spans_nest_case :
    let text :=
      "SELECT (a + b) * CASE WHEN x IN (SELECT y FROM u WHERE (y)) THEN ? ELSE 2 END FROM t"
    ∃ statement, parse text = .ok statement ∧ statement.nodes = 11 ∧
      ∃ tokens, Token.scan text = .ok tokens ∧ ∀ e ∈ statement.table, e.Nests text tokens := by
  intro text
  obtain ⟨statement, hparse, hnodes⟩ :=
    exists_of_isRead (show isRead text (·.nodes == 11) = true by decide +kernel)
  exact ⟨statement, hparse, eq_of_beq hnodes, spans_nest hparse⟩

end Statement

end SqlSignature

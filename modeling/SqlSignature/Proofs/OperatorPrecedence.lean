import SqlSignature.Proofs.ExpressionEdges
/-!
# SqlSignature.Proofs.OperatorPrecedence

Operators between bound values are read by their levels. The levels are stated here on their own, as
is the tree of a row of operators: it is split at the last operator of the loosest level, again and
again. The grammar has a tier for each level, and every tier reads the tree of the operators that
bind at least as tightly (`Grammar.Chains`), so an expression is the tree of all of them
(`Grammar.parseExpr_operators`).
-/

open List

namespace SqlSignature

/-! ### Operators and their levels -/

/-- An operator between two operands: how it is written, its level, and what it computes. Operators
of higher levels bind tighter. -/
structure Operator where
  kind : TokenKind
  text : String
  level : Nat
  op : BinaryOp
  deriving DecidableEq

namespace Operator

def word (text : String) (level : Nat) (op : BinaryOp) : Operator := ⟨.word, text, level, op⟩

def symbol (text : String) (level : Nat) (op : BinaryOp) : Operator := ⟨.symbol, text, level, op⟩

/-- All operators. -/
def all : List Operator :=
  [word "OR" 0 .or, word "XOR" 1 .xor, word "AND" 2 .and, symbol "&&" 2 .and,
    symbol "=" 3 .eq, symbol "<>" 3 .notEq, symbol "!=" 3 .notEq, symbol "<" 3 .lt,
    symbol "<=" 3 .ltEq, symbol ">" 3 .gt, symbol ">=" 3 .gtEq, symbol "<=>" 3 .nullSafeEq,
    word "REGEXP" 3 .regexp, word "RLIKE" 3 .regexp, symbol "|" 4 .bitOr, symbol "&" 5 .bitAnd,
    symbol "<<" 6 .shiftLeft, symbol ">>" 6 .shiftRight, symbol "+" 7 .add, symbol "-" 7 .sub,
    symbol "||" 7 .concat, symbol "*" 8 .mul, symbol "/" 8 .div, symbol "%" 8 .mod,
    word "DIV" 8 .intDiv, word "MOD" 8 .mod, symbol "^" 9 .bitXor]

/-- Whether a token is an operator. The case of words does not matter. -/
def isSpelled (o : Operator) (t : Token) : Bool :=
  t.kind == o.kind && if o.kind = .word then Text.sameName t.text o.text else t.text == o.text

/-- Operators before, at and after the last one of the loosest level. -/
def splitLoosest? : List Operator → Option (List Operator × Operator × List Operator)
  | [] => none
  | o :: rest =>
    match splitLoosest? rest with
    | none => some ([], o, [])
    | some (before, last, after) =>
      if o.level < last.level then some ([], o, rest) else some (o :: before, last, after)

theorem splitLoosest?_eq_none {ops : List Operator} (h : splitLoosest? ops = none) : ops = [] := by
  cases ops with
  | nil => rfl
  | cons first rest =>
    unfold splitLoosest? at h
    split at h
    · cases h
    · split at h <;> cases h

theorem eq_of_splitLoosest? {ops before after : List Operator} {o : Operator}
    (h : splitLoosest? ops = some (before, o, after)) : ops = before ++ o :: after := by
  induction ops generalizing before with
  | nil => cases h
  | cons first rest ih =>
    unfold splitLoosest? at h
    split at h
    next hnone =>
      cases h
      rw [splitLoosest?_eq_none hnone]
      rfl
    next before' last after' hsome =>
      split at h
      · cases h
        rfl
      · cases h
        rw [ih hsome]
        rfl

theorem splitLoosest?_append {before after : List Operator} {o : Operator}
    (hbefore : ∀ b ∈ before, o.level ≤ b.level) (hafter : ∀ a ∈ after, o.level < a.level) :
    splitLoosest? (before ++ o :: after) = some (before, o, after) := by
  induction before with
  | nil =>
    rw [nil_append, splitLoosest?]
    split
    next hnone => rw [splitLoosest?_eq_none hnone]
    next last _ hsome =>
      have hlast : last ∈ after := by
        rw [eq_of_splitLoosest? hsome]
        exact mem_append_right _ mem_cons_self
      rw [if_pos (hafter last hlast)]
  | cons first rest ih =>
    obtain ⟨hfirst, hrest⟩ := forall_mem_cons.1 hbefore
    rw [cons_append, splitLoosest?, ih hrest]
    exact if_neg (Nat.not_lt.2 hfirst)

end Operator

/-- Operators applied to operands, which are numbered from left to right. -/
inductive OperatorTree where
  | operand (ordinal : Nat)
  | apply (op : BinaryOp) (left right : OperatorTree)

namespace OperatorTree

/-- The tree of operators between operands, the first of which has a number. It is split at the last
operator of the loosest level. -/
def ofOperators (first : Nat) (ops : List Operator) : OperatorTree :=
  match h : Operator.splitLoosest? ops with
  | none => .operand first
  | some (before, o, after) =>
    .apply o.op (ofOperators first before) (ofOperators (first + before.length + 1) after)
termination_by ops.length
decreasing_by
  all_goals
    have hlength := congrArg List.length (Operator.eq_of_splitLoosest? h)
    rw [List.length_append, List.length_cons] at hlength
    omega

theorem ofOperators_nil (first : Nat) : ofOperators first [] = .operand first := by
  rw [ofOperators]
  rfl

theorem ofOperators_append {first : Nat} {before after : List Operator} {o : Operator}
    (hbefore : ∀ b ∈ before, o.level ≤ b.level) (hafter : ∀ a ∈ after, o.level < a.level) :
    ofOperators first (before ++ o :: after) =
      .apply o.op (ofOperators first before) (ofOperators (first + before.length + 1) after) := by
  have hsplit := Operator.splitLoosest?_append hbefore hafter
  rw [ofOperators]
  split
  next hnone =>
    rw [hsplit] at hnone
    cases hnone
  next hsome =>
    rw [hsplit] at hsome
    cases hsome
    rfl

/-- An expression is a tree of operators, whatever the numbers and the spans of its nodes. -/
def Shapes : OperatorTree → Expr → Prop
  | .operand ordinal, e => e.form = .placeholder ordinal
  | .apply op left right, e => ∃ l r, e.form = .binary op l r ∧ left.Shapes l ∧ right.Shapes r

end OperatorTree

/-! ### Tokens -/

/-- Bound values with operators between them. -/
structure Alternates (tokens : Array Token) (ops : List Operator) : Prop where
  size : tokens.size = 2 * ops.length + 1
  operands : ∀ k ≤ ops.length, tokens[2 * k]?.any (·.kind == .placeholder) = true
  operators : ∀ k, ∀ hk : k < ops.length,
    ops[k] ∈ Operator.all ∧ tokens[2 * k + 1]?.any ops[k].isSpelled = true

namespace Alternates

variable {tokens : Array Token} {ops : List Operator} {k : Nat}

theorem operand (h : Alternates tokens ops) (hk : k ≤ ops.length) :
    ∃ t, tokens[2 * k]? = some t ∧ t.kind = .placeholder := by
  obtain ⟨t, ht, hkind⟩ := (Option.any_eq_true _ _).1 (h.operands k hk)
  exact ⟨t, ht, eq_of_beq hkind⟩

theorem operator {o : Operator} (h : Alternates tokens ops) (ho : ops[k]? = some o) :
    o ∈ Operator.all ∧ ∃ t, tokens[2 * k + 1]? = some t ∧ o.isSpelled t = true := by
  obtain ⟨hk, rfl⟩ := List.getElem?_eq_some_iff.1 ho
  exact ⟨(h.operators k hk).1, (Option.any_eq_true _ _).1 (h.operators k hk).2⟩

end Alternates

namespace Operator

variable {o : Operator} {t : Token}

/-- An operator as a token. -/
def token (o : Operator) : Token := ⟨o.kind, o.text, 0, 0⟩

theorem isWord_of_isSpelled (h : o.isSpelled t = true) (text : String) :
    t.isWord text = o.token.isWord text := by
  obtain ⟨hkind, htext⟩ := Bool.and_eq_true_iff.1 h
  rw [Token.isWord, Token.isWord, eq_of_beq hkind]
  by_cases hword : o.kind = .word
  · rw [if_pos hword, Text.sameName_iff] at htext
    rw [Text.sameName, htext]
    rfl
  · simp [token, beq_eq_false_iff_ne.2 hword]

theorem isSymbol_of_isSpelled (h : o.isSpelled t = true) (text : String) :
    t.isSymbol text = o.token.isSymbol text := by
  obtain ⟨hkind, htext⟩ := Bool.and_eq_true_iff.1 h
  rw [Token.isSymbol, Token.isSymbol, eq_of_beq hkind]
  by_cases hword : o.kind = .word
  · rw [token, hword]
    rfl
  · rw [if_neg hword] at htext
    rw [eq_of_beq htext]
    rfl

end Operator

/-- The level of the operators of a tier; that of `NOT` has none. -/
def Tier.level : Tier → Nat
  | .disjunction => 0
  | .exclusion => 1
  | .conjunction => 2
  | .negation | .predicate => 3
  | .bitOr => 4
  | .bitAnd => 5
  | .shift => 6
  | .sum => 7
  | .product => 8
  | .bitXor => 9
  | .unary => 10

/-- The tiers find their operators, but for those that are words of a predicate. -/
theorem Tier.operator?_of_isSpelled {o : Operator} {t : Token} (ho : o ∈ Operator.all)
    (h : o.isSpelled t = true) (tier : Tier) (htier : tier ≠ .negation) :
    tier.operator? t = if tier.level = o.level ∧ o.op ≠ .regexp then some o.op else none := by
  have htoken : tier.operator? t = tier.operator? o.token := by
    simp only [Tier.operator?, o.isWord_of_isSpelled h, o.isSymbol_of_isSpelled h]
  have htable : ∀ o ∈ Operator.all, tier.operator? o.token =
      if tier.level = o.level ∧ o.op ≠ .regexp then some o.op else none := by
    cases tier <;> first | exact absurd rfl htier | decide +kernel
  exact htoken.trans (htable o ho)

namespace Grammar

open SqlSignature.Parser

/-- A cursor at a token, with some operands behind it. -/
structure Stands (tokens : Array Token) (first position operands : Nat) (c : Cursor) : Prop where
  tokens : c.tokens = tokens
  position : c.position = position
  placeholders : c.placeholders = first + operands

variable {g : Grammar} {tokens : Array Token} {ops : List Operator} {first j n : Nat} {tier : Tier}
  {left right : Expr} {o : Operator} {c c₂ : Cursor}

/-! ### One step -/

section

variable (hc : Stands tokens first (2 * j + 1) n c) (h : Alternates tokens ops)

include hc h

/-- Behind an operand stands an operator, or nothing. -/
theorem Stands.current_cases :
    (c.current = none ∧ ops[j]? = none) ∨ ∃ t o, c.current = some t ∧ ops[j]? = some o ∧
      o ∈ Operator.all ∧ o.isSpelled t = true := by
  rw [Cursor.current, hc.tokens, hc.position]
  cases ho : ops[j]? with
  | none =>
    have hj := getElem?_eq_none_iff.1 ho
    have hsize := h.size
    exact .inl ⟨Array.getElem?_eq_none (by omega), rfl⟩
  | some o =>
    obtain ⟨hall, t, ht, hspelled⟩ := h.operator ho
    exact .inr ⟨t, o, ht, rfl, hall, hspelled⟩

theorem Stands.operator?
    (htier : tier ≠ .negation) : c.current.bind tier.operator? = ops[j]?.bind fun o =>
      if tier.level = o.level ∧ o.op ≠ .regexp then some o.op else none := by
  rcases hc.current_cases h with ⟨hcur, ho⟩ | ⟨t, o, hcur, ho, hall, hspelled⟩ <;> rw [hcur, ho]
  · rfl
  · exact Tier.operator?_of_isSpelled hall hspelled tier htier

/-- A word that is no operator does not stand behind an operand. -/
theorem Stands.isWord_eq_false {word : String}
    (hword : ∀ o ∈ Operator.all, o.token.isWord word = false) :
    c.current.any (·.isWord word) = false := by
  rcases hc.current_cases h with ⟨hcur, _⟩ | ⟨t, o, hcur, _, hall, hspelled⟩ <;> rw [hcur]
  · rfl
  · exact (o.isWord_of_isSpelled hspelled word).trans (hword o hall)

end

theorem run_bind_congr {α β : Type} {p q : Parser α} {k : α → Parser β} {c : Cursor}
    (h : p c = q c) : (p >>= k) c = (q >>= k) c := by
  show EStateM.bind p k c = EStateM.bind q k c
  rw [EStateM.bind, EStateM.bind, h]

/-- The operation that a word for regular expressions stands for. -/
def regexpOperation (g : Grammar) (left : Expr) : Parser (Option Expr) := do
  advance
  let right ← g.tier .bitOr
  return some (← combine .regexp left right)

/-- The words of a predicate are operators, too, if they are no others. -/
theorem Stands.run_predicate (hc : Stands tokens first (2 * j + 1) n c)
    (h : Alternates tokens ops) :
    predicate? g left c = (if ops[j]?.any (·.op == .regexp) then regexpOperation g left
      else operation? g .predicate left) c := by
  have hnegated : negatedPredicateAt c = false := by
    refine Bool.eq_false_iff.2 fun hnegated => ?_
    obtain ⟨t, u, hcur, -, hnext, hword⟩ := word_of_negatedPredicateAt hnegated
    rw [Cursor.current, Cursor.next_position hcur, Cursor.next_tokens, hc.tokens, hc.position]
      at hnext
    obtain ⟨word, -, hu⟩ := any_eq_true.1 hword
    have hsize := h.size
    have hlt := (Array.getElem?_eq_some_iff.1 hnext).1
    obtain ⟨v, hv, hkind⟩ := h.operand (k := j + 1) (by omega)
    cases hnext.symm.trans hv
    rw [Token.isWord, hkind] at hu
    cases hu
  have hregexp : c.current.any (fun t => ["REGEXP", "RLIKE"].any t.isWord) =
      ops[j]?.any (·.op == .regexp) := by
    rcases hc.current_cases h with ⟨hcur, ho⟩ | ⟨t, o, hcur, ho, hall, hspelled⟩ <;> rw [hcur, ho]
    · rfl
    · have htable : ∀ o ∈ Operator.all,
          ["REGEXP", "RLIKE"].any o.token.isWord = (o.op == .regexp) := by decide +kernel
      rw [Option.any_some, show t.isWord = o.token.isWord from
        funext (o.isWord_of_isSpelled hspelled)]
      exact htable o hall
  have hworded : wordPredicate? g left c = (if ops[j]?.any (·.op == .regexp) then
      regexpOperation g left else return none) c := by
    rw [wordPredicate?_eq]
    show (if negatedPredicateAt c = true then _ else _ : Parser (Option Expr)) c = _
    rw [hnegated, if_neg Bool.false_ne_true, worded, run_iteAccepts (accepts_word "IN"),
      hc.isWord_eq_false h (by decide +kernel), if_neg Bool.false_ne_true,
      run_iteAccepts (accepts_word "BETWEEN"), hc.isWord_eq_false h (by decide +kernel),
      if_neg Bool.false_ne_true, run_iteAccepts (accepts_word "LIKE"),
      hc.isWord_eq_false h (by decide +kernel), if_neg Bool.false_ne_true,
      run_iteAccepts (accepts_anyWord ["REGEXP", "RLIKE"]), hregexp]
    cases ops[j]?.any (·.op == .regexp) <;> rfl
  rw [predicate?, run_iteAccepts (accepts_word "IS"), hc.isWord_eq_false h (by decide +kernel),
    if_neg Bool.false_ne_true]
  refine (run_bind_congr hworded).trans ?_
  cases ops[j]?.any (·.op == .regexp) with
  | false => rfl
  | true => simp only [if_true, regexpOperation, bind_assoc, pure_bind]

/-- What extends an expression of a tier. -/
def extension (g : Grammar) (tier : Tier) (left : Expr) : Parser (Option Expr) :=
  if tier = .predicate then predicate? g left else operation? g tier left

theorem tierRule_eq (htier : tier.next.level = tier.level + 1) :
    tierRule g tier = (do extend (extension g tier) (← g.tier tier.next)) := by
  cases tier <;> first | rfl | cases htier

section

variable (hc : Stands tokens first (2 * j + 1) n c) (h : Alternates tokens ops)
  (htier : tier.next.level = tier.level + 1)

include hc h htier

/-- An operator of the tier is passed with an operand of the next one. -/
theorem Stands.extension_eq_some (ho : ops[j]? = some o)
    (hlevel : o.level = tier.level) (hright : g.tier tier.next c.next = .ok right c₂) :
    extension g tier left c =
      .ok (some (.node c₂.nodes (left.span.join right.span) (.binary o.op left right)))
        { c₂ with nodes := c₂.nodes + 1 } := by
  have hne : tier ≠ .negation := by
    rintro rfl
    cases htier
  have hfound := hc.operator? h hne
  rw [ho, Option.bind_some] at hfound
  have hpredicate : predicate? g left c = (if o.op == .regexp then regexpOperation g left
      else operation? g .predicate left) c := by
    rw [hc.run_predicate h, ho, Option.any_some]
  unfold extension
  by_cases hregexp : o.op = .regexp
  · have htable : ∀ o ∈ Operator.all, o.op = .regexp → o.level = 3 := by decide
    have hthree := htable o (h.operator ho).1 hregexp
    have htier : tier = .predicate := by
      cases tier <;> first | rfl | exact absurd rfl hne | (rw [hlevel] at hthree; cases hthree)
    subst htier
    rw [if_pos rfl, hpredicate, hregexp]
    exact bind_eq_ok.2 ⟨(), c.next, rfl, bind_eq_ok.2 ⟨right, c₂, hright, rfl⟩⟩
  · rw [if_pos ⟨hlevel.symm, hregexp⟩] at hfound
    have hoperation : operation? g tier left c = _ := operation?_of_operator hfound hright
    rw [beq_eq_false_iff_ne.2 hregexp] at hpredicate
    split
    next hp =>
      subst hp
      exact hpredicate.trans hoperation
    next => exact hoperation

/-- Where no operator of the tier stands, nothing is passed. -/
theorem Stands.extension_eq_none
    (hloose : ∀ o ∈ ops[j]?, o.level < tier.level) : extension g tier left c = .ok none c := by
  have hne : tier ≠ .negation := by
    rintro rfl
    cases htier
  have hfound : c.current.bind tier.operator? = none := by
    rw [hc.operator? h hne, Option.bind_eq_none_iff]
    exact fun o ho => if_neg fun heq => absurd heq.1 (Nat.ne_of_gt (hloose o ho))
  unfold extension
  split
  next hp =>
    subst hp
    have hregexp : ops[j]?.any (·.op == .regexp) = false := by
      refine Bool.eq_false_iff.2 fun hany => ?_
      obtain ⟨o, ho, hop⟩ := (Option.any_eq_true _ _).1 hany
      have htable : ∀ o ∈ Operator.all, (o.op == .regexp) = true → o.level = 3 := by decide
      exact absurd (htable o (h.operator ho).1 hop) (Nat.ne_of_lt (hloose o ho))
    rw [hc.run_predicate h, hregexp]
    exact operation?_of_none hfound
  next => exact operation?_of_none hfound

end

/-! ### Tiers -/

/-- The operators from an operand on are read. -/
structure ReadUpTo (tokens : Array Token) (first k : Nat) (ls : List Operator) (e : Expr)
    (c : Cursor) : Prop where
  stands : Stands tokens first (2 * (k + ls.length) + 1) (k + ls.length + 1) c
  shapes : (OperatorTree.ofOperators (first + k) ls).Shapes e

/-- A parser before an operand reads the tree of the operators from there on that bind at least as
tightly as a tier. -/
def Chains (tokens : Array Token) (ops : List Operator) (first : Nat) (tier : Tier)
    (p : Parser Expr) : Prop :=
  ∀ ⦃k ls rest c⦄, ops.drop k = ls ++ rest → k ≤ ops.length → (∀ o ∈ ls, tier.level ≤ o.level) →
    (∀ o ∈ rest.head?, o.level < tier.level) → Stands tokens first (2 * k) k c →
    ∃ e c', p c = .ok e c' ∧ ReadUpTo tokens first k ls e c'

/-- The operators at the front that bind tighter than a level. -/
theorem exists_tighter (level : Nat) (ls : List Operator) : ∃ inner behind, ls = inner ++ behind ∧
    (∀ o ∈ inner, level < o.level) ∧ ∀ o ∈ behind.head?, o.level ≤ level := by
  induction ls with
  | nil => exact ⟨[], [], rfl, nofun, nofun⟩
  | cons o rest ih =>
    by_cases ho : level < o.level
    · obtain ⟨inner, behind, rfl, hinner, hbehind⟩ := ih
      exact ⟨o :: inner, behind, rfl, forall_mem_cons.2 ⟨ho, hinner⟩, hbehind⟩
    · refine ⟨[], o :: rest, rfl, nofun, fun b hb => ?_⟩
      cases hb
      exact Nat.le_of_not_lt ho

theorem forall_head?_append {level : Nat} {behind rest : List Operator}
    (hbehind : ∀ o ∈ behind.head?, o.level ≤ level) (hrest : ∀ o ∈ rest.head?, o.level < level) :
    ∀ o ∈ (behind ++ rest).head?, o.level ≤ level := by
  rw [head?_append]
  intro o ho
  rcases Option.or_eq_some_iff.1 ho with ho | ⟨-, ho⟩
  · exact hbehind o ho
  · exact Nat.le_of_lt (hrest o ho)

theorem head?_of_drop {k : Nat} {before after : List Operator}
    (h : ops.drop k = before ++ after) : ops[k + before.length]? = after.head? := by
  rw [← getElem?_drop, h, getElem?_append_right (Nat.le_refl _), Nat.sub_self,
    head?_eq_getElem?]

section

variable (h : Alternates tokens ops) (htier : tier.next.level = tier.level + 1)
  (hg : Chains tokens ops first tier.next (g.tier tier.next)) {k : Nat} {done rest : List Operator}

include h htier hg

/-- An operator of the tier extends the tree to its left by the tree that the next tier reads. -/
theorem exists_extension {inner behind : List Operator}
    (hdrop : ops.drop k = done ++ o :: (inner ++ behind)) (hdone : ∀ b ∈ done, tier.level ≤ b.level)
    (hlevel : o.level = tier.level) (hinner : ∀ b ∈ inner, tier.level < b.level)
    (hbehind : ∀ b ∈ behind.head?, b.level ≤ tier.level)
    (hleft : ReadUpTo tokens first k done left c) :
    ∃ e c', extension g tier left c = .ok (some e) c' ∧
      ReadUpTo tokens first k (done ++ o :: inner) e c' := by
  have hat : ops[k + done.length]? = some o := head?_of_drop hdrop
  have hlength := congrArg List.length hdrop
  simp only [length_drop, length_append, length_cons] at hlength
  have hnext : ops.drop (k + done.length + 1) = inner ++ behind := by
    rw [Nat.add_assoc, ← drop_drop, hdrop, drop_append]
    simp
  have hstart : Stands tokens first (2 * (k + done.length + 1)) (k + done.length + 1) c.next := by
    rcases hleft.stands.current_cases h with ⟨-, hnone⟩ | ⟨t, _, hcur, -⟩
    · rw [hat] at hnone
      cases hnone
    · refine ⟨c.next_tokens.trans hleft.stands.tokens, ?_,
        c.next_placeholders.trans hleft.stands.placeholders⟩
      rw [Cursor.next_position hcur, hleft.stands.position]
      omega
  obtain ⟨right, c₂, hright, hread⟩ := hg hnext (by omega) (fun b hb => htier ▸ hinner b hb)
    (fun b hb => htier ▸ Nat.lt_succ_of_le (hbehind b hb)) hstart
  refine ⟨_, _, hleft.stands.extension_eq_some h htier hat hlevel hright, ?_, ?_⟩
  · refine ⟨hread.stands.tokens, ?_, ?_⟩
    · rw [hread.stands.position, length_append, length_cons]
      omega
    · rw [hread.stands.placeholders, length_append, length_cons]
      omega
  · rw [OperatorTree.ofOperators_append (hlevel ▸ hdone) (hlevel ▸ hinner)]
    refine ⟨left, right, rfl, hleft.shapes, ?_⟩
    rw [Nat.add_assoc, Nat.add_assoc, ← Nat.add_assoc k]
    exact hread.shapes

/-- All operators of the tier are passed. -/
theorem exists_extendUpTo (hrest : ∀ o ∈ rest.head?, o.level < tier.level) (rounds : Nat)
    {todo : List Operator} (hdrop : ops.drop k = done ++ (todo ++ rest))
    (hdone : ∀ o ∈ done, tier.level ≤ o.level) (htodo : ∀ o ∈ todo, tier.level ≤ o.level)
    (hhead : ∀ o ∈ todo.head?, o.level ≤ tier.level) (hlt : todo.length < rounds)
    (hleft : ReadUpTo tokens first k done left c) :
    ∃ e c', extendUpTo (extension g tier) rounds left c = .ok e c' ∧
      ReadUpTo tokens first k (done ++ todo) e c' := by
  induction rounds generalizing done todo left c with
  | zero => cases hlt
  | succ rounds ih =>
    cases todo with
    | nil =>
      have hnone : extension g tier left c = .ok none c :=
        hleft.stands.extension_eq_none h htier (by rw [head?_of_drop hdrop]; exact hrest)
      rw [append_nil]
      exact ⟨left, c, bind_eq_ok.2 ⟨none, c, hnone, rfl⟩, hleft⟩
    | cons o todo =>
      obtain ⟨ho, htodo⟩ := forall_mem_cons.1 htodo
      have hlevel : o.level = tier.level := Nat.le_antisymm (hhead o rfl) ho
      obtain ⟨inner, behind, rfl, hinner, hbehind⟩ := exists_tighter tier.level todo
      rw [cons_append, append_assoc] at hdrop
      obtain ⟨longer, c₁, hstep, hlonger⟩ :=
        exists_extension h htier hg hdrop hdone hlevel hinner (forall_head?_append hbehind hrest)
          hleft
      have hdone₁ : ∀ b ∈ done ++ o :: inner, tier.level ≤ b.level :=
        forall_mem_append.2 ⟨hdone, forall_mem_cons.2
          ⟨ho, fun b hb => Nat.le_of_lt (hinner b hb)⟩⟩
      rw [length_cons, length_append] at hlt
      obtain ⟨e, c', hrun, hread⟩ := ih (by rw [hdrop, append_assoc]; rfl) hdone₁
        (fun b hb => htodo b (mem_append_right _ hb)) hbehind (by omega) hlonger
      rw [append_assoc, cons_append] at hread
      exact ⟨e, c', bind_eq_ok.2 ⟨some longer, c₁, hstep, hrun⟩, hread⟩

theorem chains_tierRule : Chains tokens ops first tier (tierRule g tier) := by
  intro k ls rest c hdrop hk hls hrest hc
  obtain ⟨inner, behind, rfl, hinner, hbehind⟩ := exists_tighter tier.level ls
  have hstop := forall_head?_append hbehind hrest
  rw [append_assoc] at hdrop
  obtain ⟨left, c₁, hleft, hread⟩ := hg hdrop hk (fun b hb => htier ▸ hinner b hb)
    (fun b hb => htier ▸ Nat.lt_succ_of_le (hstop b hb)) hc
  have hlength := congrArg List.length hdrop
  simp only [length_drop, length_append] at hlength
  have hsize := h.size
  obtain ⟨e, c', hrun, hread⟩ := exists_extendUpTo h htier hg hrest (c₁.tokens.size + 1) hdrop
    (fun b hb => hls b (mem_append_left _ hb)) (fun b hb => hls b (mem_append_right _ hb))
    hbehind (by rw [hread.stands.tokens]; omega) hread
  rw [tierRule_eq htier]
  exact ⟨e, c', bind_eq_ok.2 ⟨left, c₁, hleft, hrun⟩, hread⟩

end

/-- Before an operand stands a bound value. -/
theorem Stands.current_operand {k : Nat} (hc : Stands tokens first (2 * k) k c)
    (h : Alternates tokens ops) (hk : k ≤ ops.length) :
    ∃ t, c.current = some t ∧ t.kind = .placeholder := by
  rw [Cursor.current, hc.tokens, hc.position]
  exact h.operand hk

theorem chains_negation (h : Alternates tokens ops)
    (hg : Chains tokens ops first .predicate (g.tier .predicate)) :
    Chains tokens ops first .negation (tierRule g .negation) := by
  intro k ls rest c hdrop hk hls hrest hc
  obtain ⟨t, hcur, hkind⟩ := hc.current_operand h hk
  have hnot : c.isWord "NOT" = false := by
    rw [Cursor.isWord, hcur, Option.any_some, Token.isWord, hkind]
    rfl
  obtain ⟨e, c', hrun, hread⟩ := hg hdrop hk hls hrest hc
  refine ⟨e, c', ?_, hread⟩
  show (if c.isWord "NOT" = true then _ else g.tier .predicate : Parser Expr) c = _
  rw [hnot]
  exact hrun

/-- The tightest tier reads one operand: every operator is looser. -/
theorem chains_unary (h : Alternates tokens ops) {inner : Grammar}
    (hg : g.primary = primaryRule inner) :
    Chains tokens ops first .unary (tierRule g .unary) := by
  intro k ls rest c hdrop hk hls hrest hc
  have hnil : ls = [] := by
    cases ls with
    | nil => rfl
    | cons o ls =>
      have htable : ∀ o ∈ Operator.all, o.level < 10 := by decide
      have hfirst : ops.drop k = [] ++ (o :: (ls ++ rest)) := hdrop
      have ho : ops[k]? = some o := head?_of_drop hfirst
      exact absurd (htable o (h.operator ho).1) (Nat.not_lt.2 (hls o mem_cons_self))
  subst hnil
  obtain ⟨t, hcur, hkind⟩ := hc.current_operand h hk
  have hprimary : g.primary c = (do advance; placeholderRest t.start) c := by
    have hget : ∀ q : Cursor → Parser Expr, ((get : Parser Cursor) >>= q) c = q c c := fun _ => rfl
    rw [hg, primaryRule, hget, hcur]
    simp only [hkind, placeholderRest]
  have hsign : c.current.bind signOf? = none := by
    rw [hcur]
    simp [signOf?, Token.isSymbol, hkind]
  have hposition : c.next.position = 2 * k + 1 := by rw [Cursor.next_position hcur, hc.position]
  have hplaceholders := c.next_placeholders.trans hc.placeholders
  have hc₁ : Stands tokens first (2 * k + 1) (k + 1) { c.next with
      placeholders := c.next.placeholders + 1, nodes := c.next.nodes + 1 } :=
    ⟨c.next_tokens.trans hc.tokens, hposition, by rw [hplaceholders]; rfl⟩
  refine ⟨.node c.next.nodes (c.next.spanFromOffset t.start) (.placeholder c.next.placeholders),
    _, ?_, hc₁, ?_⟩
  · show signed g c = _
    rw [signed]
    refine bind_eq_ok.2 ⟨c, c, rfl, ?_⟩
    rw [hsign]
    refine bind_eq_ok.2 ⟨_, _, hprimary, ?_⟩
    rw [run_iteAccepts (accepts_word "COLLATE"), hc₁.isWord_eq_false h (by decide +kernel)]
    rfl
  · rw [OperatorTree.ofOperators_nil, hplaceholders]
    rfl

/-- The tiers from the tightest to the loosest. -/
theorem chains_disjunction (h : Alternates tokens ops) (depth : Nat) :
    Chains tokens ops first .disjunction ((upTo (depth + 13)).tier .disjunction) := by
  have hunary : Chains tokens ops first .unary ((upTo (depth + 2)).tier .unary) :=
    chains_unary h rfl
  have hproduct : Chains tokens ops first .product ((upTo (depth + 4)).tier .product) :=
    chains_tierRule h rfl (chains_tierRule h rfl hunary)
  have hshift : Chains tokens ops first .shift ((upTo (depth + 6)).tier .shift) :=
    chains_tierRule h rfl (chains_tierRule h rfl hproduct)
  have hbitOr : Chains tokens ops first .bitOr ((upTo (depth + 8)).tier .bitOr) :=
    chains_tierRule h rfl (chains_tierRule h rfl hshift)
  have hnegation : Chains tokens ops first .negation ((upTo (depth + 10)).tier .negation) :=
    chains_negation h (chains_tierRule h rfl hbitOr)
  exact chains_tierRule h rfl (chains_tierRule h rfl (chains_tierRule h rfl hnegation))

/-- Bound values with operators between them are read to the end, and give the tree that is split at
the last operator of the loosest level. -/
theorem parseExpr_operators (h : Alternates c.tokens ops) (hc : c.position = 0) :
    ∃ e c', parseExpr c = .ok e c' ∧ c'.position = c.tokens.size ∧
      (OperatorTree.ofOperators c.placeholders ops).Shapes e := by
  have hstart : Stands c.tokens c.placeholders (2 * 0) 0 c := ⟨rfl, hc, rfl⟩
  have hdepth : depthFor c.tokens.size = 16 * c.tokens.size + 3 + 13 := by
    unfold depthFor
    omega
  have hdrop : ops.drop 0 = ops ++ [] := by simp
  obtain ⟨e, c', hrun, hread⟩ := chains_disjunction h (16 * c.tokens.size + 3) hdrop
    (Nat.zero_le _) (fun _ _ => Nat.zero_le _) nofun hstart
  refine ⟨e, c', ?_, ?_, hread.shapes⟩
  · show (upTo (depthFor c.tokens.size)).expr c = _
    rw [hdepth]
    exact hrun
  · rw [hread.stands.position, h.size, Nat.zero_add]

/-- `? or ? = ? * ? - ?` -/
def mixed : Cursor where
  text := "? or ? = ? * ? - ?"
  tokens := #[⟨.placeholder, "?", 0, 1⟩, ⟨.word, "or", 2, 4⟩, ⟨.placeholder, "?", 5, 6⟩,
    ⟨.symbol, "=", 7, 8⟩, ⟨.placeholder, "?", 9, 10⟩, ⟨.symbol, "*", 11, 12⟩,
    ⟨.placeholder, "?", 13, 14⟩, ⟨.symbol, "-", 15, 16⟩, ⟨.placeholder, "?", 17, 18⟩]
  position := 0
  nodes := 0
  placeholders := 0

theorem parseExpr_operators_mixed :
    Alternates mixed.tokens [.word "OR" 0 .or, .symbol "=" 3 .eq, .symbol "*" 8 .mul,
      .symbol "-" 7 .sub] ∧ mixed.position = 0 ∧
      ∃ e c', parseExpr mixed = .ok e c' ∧ c'.position = mixed.tokens.size ∧
        (OperatorTree.ofOperators mixed.placeholders [.word "OR" 0 .or, .symbol "=" 3 .eq,
          .symbol "*" 8 .mul, .symbol "-" 7 .sub]).Shapes e := by
  have halternates : Alternates mixed.tokens [.word "OR" 0 .or, .symbol "=" 3 .eq,
      .symbol "*" 8 .mul, .symbol "-" 7 .sub] :=
    ⟨rfl, by decide +kernel, by decide +kernel⟩
  exact ⟨halternates, rfl, parseExpr_operators halternates rfl⟩

end Grammar

end SqlSignature

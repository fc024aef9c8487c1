import SqlSignature.Parser
/-!
# SqlSignature.Proofs.Ensures

What a run of a state transformer that can fail ensures. `Ensures P p Q` says that a run of `p` that
is started where `P` holds, and succeeds, ends where `Q` holds of its result; a run that fails is
free. Parsers and the steps of an analysis are such transformers, and the rules below follow the way
in which they are composed.
-/

namespace SqlSignature

variable {ε σ α β : Type}

theorem eq_ok_of_toOption {x : Except ε α} {a : α} (h : x.toOption = some a) : x = .ok a := by
  cases x with
  | ok b => exact congrArg _ (Option.some.inj h)
  | error e => cases h

/-- A run that succeeds is a run of the first part and then of the second. -/
theorem bind_eq_ok {p : EStateM ε σ α} {q : α → EStateM ε σ β} {s s' : σ} {b : β} :
    (p >>= q) s = .ok b s' ↔ ∃ a t, p s = .ok a t ∧ q a t = .ok b s' := by
  show EStateM.bind p q s = .ok b s' ↔ _
  unfold EStateM.bind
  cases p s with
  | ok a t =>
    constructor
    · exact fun h => ⟨a, t, rfl, h⟩
    · rintro ⟨_, _, ⟨⟩, h⟩
      exact h
  | error e t => simp

/-- A run that looks at the state goes on from it. -/
theorem of_get {k : σ → EStateM ε σ α} {s : σ} {r : EStateM.Result ε σ α}
    (h : (get >>= k) s = r) : k s s = r :=
  h

/-- Started where `P` holds, a run that succeeds ends where `Q` holds. -/
def Ensures (P : σ → Prop) (p : EStateM ε σ α) (Q : α → σ → Prop) : Prop :=
  ∀ ⦃s a s'⦄, P s → p s = .ok a s' → Q a s'

namespace Ensures

variable {P R : σ → Prop} {p : EStateM ε σ α} {Q Q' : α → σ → Prop} {S : β → σ → Prop}

theorem bind {q : α → EStateM ε σ β} (hp : Ensures P p Q) (hq : ∀ a, Ensures (Q a) (q a) S) :
    Ensures P (p >>= q) S := by
  intro s b s' hs h
  obtain ⟨a, t, ha, hb⟩ := bind_eq_ok.1 h
  exact hq a (hp hs ha) hb

theorem pure {a : α} (h : ∀ s, P s → Q a s) : Ensures P (pure a : EStateM ε σ α) Q := by
  intro s b s' hs hrun
  cases hrun
  exact h s hs

/-- What is read off the state is read off the state that is there. -/
theorem getThen {q : σ → EStateM ε σ β} (hq : ∀ d, P d → Ensures (· = d) (q d) S) :
    Ensures P ((MonadState.get : EStateM ε σ σ) >>= q) S := by
  intro s b s' hs h
  obtain ⟨d, t, hd, hb⟩ := bind_eq_ok.1 h
  cases hd
  exact hq s hs rfl hb

theorem getAny {q : σ → EStateM ε σ β} (hq : ∀ d, Ensures P (q d) S) :
    Ensures P ((MonadState.get : EStateM ε σ σ) >>= q) S :=
  getThen fun d hd _ _ _ he hrun => hq d (he ▸ hd) hrun

theorem imp (h : Ensures P p Q) (hpre : ∀ s, R s → P s) (hpost : ∀ a s, Q a s → Q' a s) :
    Ensures R p Q' :=
  fun _ _ _ hs hrun => hpost _ _ (h (hpre _ hs) hrun)

theorem of (h : Ensures P p Q) (hpre : ∀ s, R s → P s) : Ensures R p Q :=
  h.imp hpre fun _ _ hq => hq

theorem post (h : Ensures P p Q) (hpost : ∀ a s, Q a s → Q' a s) : Ensures P p Q' :=
  h.imp (fun _ hs => hs) hpost

/-- A step may be judged in each state for itself. -/
theorem at_each (h : ∀ d, P d → Ensures (· = d) p Q) : Ensures P p Q :=
  fun _ _ _ hs hrun => h _ hs rfl hrun

theorem ite {b : Prop} [Decidable b] {q : EStateM ε σ α} (hp : b → Ensures P p Q)
    (hq : ¬b → Ensures P q Q) : Ensures P (if b then p else q) Q := by
  split
  · exact hp ‹_›
  · exact hq ‹_›

theorem throw (e : ε) : Ensures P (throw e : EStateM ε σ α) Q := by
  intro s a s' _ hrun
  cases hrun

theorem map {f : α → β} (hp : Ensures P p fun a => S (f a)) : Ensures P (f <$> p) S := by
  intro s b s' hs h
  rw [map_eq_pure_bind] at h
  exact hp.bind (fun a => .pure fun _ ha => ha) hs h

/-- What the first step does may not matter. -/
theorem after {q : α → EStateM ε σ β} (hq : ∀ a, Ensures (fun _ => True) (q a) S) :
    Ensures P (p >>= q) S :=
  bind (Q := fun _ _ => True) (fun _ _ _ _ _ => trivial) hq

/-- What does not speak of the state is not lost. -/
theorem keep {H : Prop} : Ensures (fun _ => H) p fun _ _ => H :=
  fun _ _ _ h _ => h

/-! ### Parsers that fail, and parsers that extend an expression -/

section

variable {P : Cursor → Prop} {Q : α → Cursor → Prop} {R : β → Cursor → Prop}

theorem fail (fault : ParseFault) (pivot : Nat) :
    Ensures P (Parser.fail fault pivot : Parser α) Q := by
  intro c a c' _ hrun
  cases hrun

theorem failHere (fault : ParseFault) : Ensures P (Parser.failHere fault : Parser α) Q := by
  intro c a c' _ hrun
  cases hrun

theorem failThen (fault : ParseFault) (pivot : Nat) {q : α → Parser β} :
    Ensures P ((Parser.fail fault pivot : Parser α) >>= q) R :=
  bind (fail fault pivot : Ensures P _ fun _ _ => False) fun _ _ _ _ h => h.elim

theorem failHereThen (fault : ParseFault) {q : α → Parser β} :
    Ensures P ((Parser.failHere fault : Parser α) >>= q) R :=
  bind (failHere fault : Ensures P _ fun _ _ => False) fun _ _ _ _ h => h.elim

/-- What one extension keeps, all extensions keep. -/
theorem extend {P : Expr → Cursor → Prop} {step : Expr → Parser (Option Expr)}
    (hstep : ∀ e, Ensures (P e) (step e) fun longer => P (longer.getD e)) (e : Expr) :
    Ensures (P e) (Parser.extend step e) P := by
  have bounded : ∀ n e, Ensures (P e) (Parser.extendUpTo step n e) P := by
    intro n
    induction n with
    | zero => exact fun _ => .failHere _
    | succ n ih =>
      intro e
      refine (hstep e).bind fun longer => ?_
      cases longer with
      | some longer => exact ih longer
      | none => exact .pure fun _ h => h
  exact .getAny fun d => bounded (d.tokens.size + 1) e

end

end Ensures

end SqlSignature

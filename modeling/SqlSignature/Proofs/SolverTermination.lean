import SqlSignature.Describe
import SqlSignature.Proofs.TypeLayers
import SqlSignature.Proofs.WalkFrame
/-!
# SqlSignature.Proofs.SolverTermination

When solving the constraints of a statement ends. Types are overwritten on the way forward, so
constraints whose targets are in the end their own arguments can pass different types around for
ever (`Statement.solving_need_not_terminate`). This is the only way not to end: solving ends exactly
if no loop that it enters returns to a state that a pass changes, and it does end if the constraints
are in layers (`Statement.solving_terminates_iff`).
-/

namespace SqlSignature

/-! ### Statements -/

/-- The state after a step that does not fail. -/
def Analysis.stateAfter {α : Type} (step : Analysis α) (s : AnalysisState) :
    Except AnalysisError AnalysisState :=
  match step s with
  | .ok _ s' => .ok s'
  | .error e _ => .error e

theorem Analysis.Follows.of_stateAfter {α : Type} {R : AnalysisState → AnalysisState → Prop}
    {step : Analysis α} (hstep : Follows R step) {s s' : AnalysisState}
    (h : stateAfter step s = .ok s') : R s s' := by
  have hafter := hstep s
  unfold after at hafter
  unfold stateAfter at h
  cases hrun : step s with
  | ok a t =>
    rw [hrun] at hafter h
    cases h
    exact hafter
  | error e t =>
    rw [hrun] at h
    contradiction

/-- The state after the walk over a statement, before types are solved. -/
def Statement.walked (statement : Statement) (input : AnalysisInput) :
    Except AnalysisError AnalysisState :=
  let start := AnalysisState.initial input statement.placeholders
  match statement.kind with
  | .select query => Analysis.stateAfter (Analysis.walkQuery input query) start
  | .insert insertion => Analysis.stateAfter (Analysis.walkInsertion input insertion) start
  | .update update => Analysis.stateAfter (Analysis.walkUpdate input update) start
  | .delete deletion => Analysis.stateAfter (Analysis.walkDeletion input deletion) start

/-- A walk that does not fail lets the solver of the first state grow. -/
theorem Statement.grown_of_walked {statement : Statement} {input : AnalysisInput}
    {s : AnalysisState} (h : statement.walked input = .ok s) :
    (AnalysisState.initial input statement.placeholders).solver.Grown s.solver := by
  unfold Statement.walked at h
  cases hkind : statement.kind with
  | select query =>
    rw [hkind] at h
    exact ((Analysis.follows_walkQuery input query).of_stateAfter h).solver
  | insert insertion =>
    rw [hkind] at h
    exact ((Analysis.follows_walkInsertion input insertion).of_stateAfter h).solver
  | update update =>
    rw [hkind] at h
    exact ((Analysis.follows_walkUpdate input update).of_stateAfter h).solver
  | delete deletion =>
    rw [hkind] at h
    exact ((Analysis.follows_walkDeletion input deletion).of_stateAfter h).solver

theorem AnalysisState.fresh_addParameter {named : List (String × TypeVar)} {solver : Solver}
    (h : solver.vars.Fresh) (name : Option String) :
    (addParameter named solver name).2.2.vars.Fresh := by
  unfold addParameter
  split
  · exact h.fresh true
  · split
    · exact h
    · exact h.fresh true

theorem AnalysisState.fresh_addParameters :
    ∀ (names : List (Option String)) {named : List (String × TypeVar)} {solver : Solver},
      solver.vars.Fresh → (addParameters named solver names).2.vars.Fresh
  | [], _, _, h => h
  | name :: rest, _, _, h => fresh_addParameters rest (fresh_addParameter h name)

/-- The walk over a statement leaves every variable in a class of its own. -/
theorem Statement.fresh_of_walked {statement : Statement} {input : AnalysisInput}
    {s : AnalysisState} (h : statement.walked input = .ok s) : s.solver.vars.Fresh := by
  refine (Statement.grown_of_walked h).induction (motive := fun u => u.vars.Fresh) ?_
    (fun u hu => hu.fresh false) fun u _ hu => hu
  exact AnalysisState.fresh_addParameters _ TypeVars.fresh_empty

/-- The constraints of a statement text, if it is read and walked without an error. -/
def Solver.ofText (text : String) (catalog : Catalog) : Option Solver :=
  let bound := BoundText.ofText text
  match Statement.parse bound.text with
  | .error _ => none
  | .ok statement =>
    match statement.walked (bound.analysisInput catalog {} none) with
    | .error _ => none
    | .ok s => some s.solver

theorem Solver.ofText_eq_some {text : String} {catalog : Catalog} {solver : Solver}
    (h : Solver.ofText text catalog = some solver) :
    ∃ statement s, Statement.parse (BoundText.ofText text).text = .ok statement ∧
      statement.walked ((BoundText.ofText text).analysisInput catalog {} none) = .ok s ∧
      s.solver = solver := by
  unfold Solver.ofText at h
  dsimp only at h
  split at h
  next => contradiction
  next statement hparse =>
    split at h
    next => contradiction
    next s hwalked => exact ⟨statement, s, hparse, hwalked, Option.some_inj.mp h⟩

/-- A table with columns of three types. -/
def threeTypes : Catalog where
  tables :=
    [⟨"", "t",
      [⟨"", "t", "x", .int, true, .none, none⟩, ⟨"", "t", "y", .varchar, true, .none, none⟩,
        ⟨"", "t", "z", .date, true, .none, none⟩]⟩]
  foreignKeys := []

/-- Three classes, each of which takes the type of the next, with hints of three types. -/
def rotation : Solver where
  vars := ⟨(Array.range 14).map fun i => ⟨i, 0, decide (i < 3), none⟩⟩
  constraints :=
    #[.fix ⟨3⟩ .int, .fix ⟨4⟩ .varchar, .fix ⟨5⟩ .date,
      .expect ⟨0⟩ .double, .derive ⟨6⟩ (.sameAs 0) [⟨0⟩],
      .expect ⟨1⟩ .double, .derive ⟨7⟩ (.sameAs 0) [⟨1⟩],
      .expect ⟨2⟩ .double, .derive ⟨8⟩ (.sameAs 0) [⟨2⟩],
      .hint ⟨6⟩ ⟨3⟩, .hint ⟨7⟩ ⟨4⟩, .hint ⟨8⟩ ⟨5⟩,
      .equal ⟨6⟩ ⟨2⟩, .fix ⟨9⟩ .tinyInt, .equal ⟨7⟩ ⟨0⟩, .fix ⟨10⟩ .tinyInt, .fix ⟨11⟩ .tinyInt,
      .equal ⟨8⟩ ⟨1⟩, .fix ⟨12⟩ .tinyInt, .fix ⟨13⟩ .tinyInt]

/-- The first loop comes to rest, going back gives the hints, and the second loop has the same state
after one pass and after three. -/
theorem not_terminates_rotation (default : SqlType) : ¬rotation.Terminates default := by
  let cs := rotation.constraints.toList
  let settled := TypeVars.settleUpTo cs 2 rotation.fixed
  have hsettles : TypeVars.Settles cs rotation.fixed settled :=
    TypeVars.settles_settleUpTo 2 1 _ (by omega) (by decide +kernel)
  have hhints : (settled.backward cs).2 = true := by decide +kernel
  have henters : rotation.EntersLoop default (settled.backward cs).1 :=
    .before (.later hsettles hhints .first)
  -- The first pass leaves two of the three types, and each pass after it swaps them.
  have hcycles : TypeVars.Cycles cs (settled.backward cs).1 :=
    ⟨1, 3, by omega, by decide +kernel, by decide +kernel⟩
  intro hterminates
  obtain ⟨_, hrests⟩ := Solver.terminates_iff_settles.mp hterminates _ henters
  exact hrests.not_cycles hcycles

/-- **Termination.** Once the constraints of a statement are there, solving them ends exactly if no
loop forward that it enters returns to a state that a pass changes; and then it ends with the
result of `Solver.solve`. It ends whenever the constraints are in layers, that is, whenever no type
is derived, over variables that can be joined, from itself. -/
theorem Statement.solving_terminates_iff (statement : Statement) (input : AnalysisInput)
    {s : AnalysisState} (h : statement.walked input = .ok s) :
    (s.solver.Terminates input.config.defaultParameterType ↔
        ∀ entered, s.solver.EntersLoop input.config.defaultParameterType entered →
          ¬TypeVars.Cycles s.solver.constraints.toList entered) ∧
      (s.solver.Terminates input.config.defaultParameterType →
        s.solver.Solves input.config.defaultParameterType
          (s.solver.solve input.config.defaultParameterType)) ∧
      ((∃ level, Layered s.solver.vars s.solver.constraints.toList level) →
        s.solver.Terminates input.config.defaultParameterType) := by
  have hfresh := Statement.fresh_of_walked h
  have hvars := hfresh.wellFormed
  refine ⟨?_, ?_, ?_⟩
  · rw [Solver.terminates_iff_settles]
    refine forall₂_congr fun entered hentered => ?_
    have hentered := hentered.keeps (TypeVars.invariant_wellFormed _) hvars
    exact hentered.exists_settles_iff
  · rintro ⟨result, hresult⟩
    rw [hresult.solve_eq hvars]
    exact hresult
  · rintro ⟨level, hlayered⟩
    exact Solver.terminates_of_layered hfresh hlayered _

/-- The layers of an update: `-x` and the first bound value, and above them its negation. -/
def updateLevel (v : TypeVar) : Nat := [1, 0, 0, 0, 0, 2, 0, 1].getD v.index 0

/-- Solving ends for a statement that stores the negation of a bound value and compares the value
with another negation. -/
theorem Statement.solving_terminates_iff_update :
    let bound := BoundText.ofText "UPDATE t SET x = -:a WHERE y = :b AND -x < :a"
    let input := bound.analysisInput threeTypes {} none
    ∃ statement s, Statement.parse bound.text = .ok statement ∧ statement.walked input = .ok s ∧
      Layered s.solver.vars s.solver.constraints.toList updateLevel ∧
      s.solver.Terminates .varchar ∧ s.solver.Solves .varchar (s.solver.solve .varchar) := by
  have hlayers : ((Solver.ofText "UPDATE t SET x = -:a WHERE y = :b AND -x < :a" threeTypes).map
      fun s => decide (Layered s.vars s.constraints.toList updateLevel)) = some true := by
    decide +kernel
  obtain ⟨solver, hsolver, hlayered⟩ := Option.map_eq_some_iff.mp hlayers
  obtain ⟨statement, s, hparse, hwalked, hsolver⟩ := Solver.ofText_eq_some hsolver
  rw [← hsolver] at hlayered
  have hlayered := of_decide_eq_true hlayered
  obtain ⟨-, hsolves, hends⟩ := Statement.solving_terminates_iff statement _ hwalked
  have hterminates := hends ⟨updateLevel, hlayered⟩
  exact ⟨statement, s, hparse, hwalked, hlayered, hterminates, hsolves hterminates⟩

/-- The constraints of an update in which three negations are each equal to the operand of the one
before: the types of the columns that they are stored in are passed around for ever. -/
theorem Statement.solving_need_not_terminate :
    let bound := BoundText.ofText ("UPDATE t JOIN (SELECT -:a AS i, -:b AS j, -:c AS k) AS d " ++
      "SET x = i, y = j, z = k WHERE i = :c AND j = :a AND k = :b")
    ∃ statement s, Statement.parse bound.text = .ok statement ∧
      statement.walked (bound.analysisInput threeTypes {} none) = .ok s ∧
      ¬s.solver.Terminates .varchar := by
  have hsolver : Solver.ofText ("UPDATE t JOIN (SELECT -:a AS i, -:b AS j, -:c AS k) AS d " ++
      "SET x = i, y = j, z = k WHERE i = :c AND j = :a AND k = :b") threeTypes =
        some rotation := by
    decide +kernel
  obtain ⟨statement, s, hparse, hwalked, hsolver⟩ := Solver.ofText_eq_some hsolver
  exact ⟨statement, s, hparse, hwalked, hsolver ▸ not_terminates_rotation .varchar⟩

end SqlSignature

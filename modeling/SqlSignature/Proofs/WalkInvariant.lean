import Mathlib.Data.List.Perm.Basic
import SqlSignature.Proofs.DeclaredTypes
import SqlSignature.Proofs.Ensures
import SqlSignature.Proofs.WalkFrame
import SqlSignature.Proofs.WalkTrace
/-!
# SqlSignature.Proofs.WalkInvariant

What holds of the state of an analysis that has met a trace (`Analysis.Traced`). The columns of the
tables in scope have variables that are fixed to the types the catalog declares and that are given
no other type; every other variable that is given a type belongs to one expression. The variable of
a bound value that is used for a column as it is occurs in one constraint only, the equation with
the variable of that column.

States grow: variables and constraints are added, and a new constraint gives a type only to a new
variable or to one that belongs to an expression (`Analysis.Extends`). So what is declared stays
declared.
-/

open List

namespace SqlSignature

namespace Analysis

/-! ### States that grow -/

/-- Whether a variable belongs to an expression. -/
def Owned (s : AnalysisState) (v : TypeVar) : Prop := ∃ entry ∈ s.exprVars, entry.2 = v

/-- A variable that has a declared type, and belongs to no expression. -/
structure DeclaredIn (s : AnalysisState) (v : TypeVar) (T : SqlType) : Prop where
  declares : s.solver.Declares v T
  unowned : ¬Owned s v

/-- A state that came from another by steps of an analysis. -/
structure Extends (s s' : AnalysisState) : Prop where
  size : s.solver.vars.size ≤ s'.solver.vars.size
  rigid : ∀ v, v.index < s.solver.vars.size →
    (s'.solver.vars.IsRigid v ↔ s.solver.vars.IsRigid v)
  constraints : ∀ d ∈ s.solver.constraints.toList, d ∈ s'.solver.constraints.toList
  given : ∀ d ∈ s'.solver.constraints.toList, d ∈ s.solver.constraints.toList ∨
    ∀ v, d.given? = some v → v.index < s.solver.vars.size → Owned s v
  owned : ∀ v, Owned s' v → v.index < s.solver.vars.size → Owned s v
  owners : ∀ v, Owned s v → Owned s' v
  references : ∀ entry ∈ s.references, entry ∈ s'.references

variable {s s' s'' : AnalysisState}

theorem Extends.refl (s : AnalysisState) : Extends s s where
  size := Nat.le_refl _
  rigid _ _ := Iff.rfl
  constraints _ hd := hd
  given _ hd := .inl hd
  owned _ hv _ := hv
  owners _ hv := hv
  references _ hentry := hentry

theorem Extends.trans (h : Extends s s') (h' : Extends s' s'') : Extends s s'' where
  size := Nat.le_trans h.size h'.size
  rigid v hv := (h'.rigid v (Nat.lt_of_lt_of_le hv h.size)).trans (h.rigid v hv)
  constraints d hd := h'.constraints d (h.constraints d hd)
  given d hd := by
    rcases h'.given d hd with hold | hnew
    · exact h.given d hold
    · right
      intro v hgiven hv
      exact h.owned v (hnew v hgiven (Nat.lt_of_lt_of_le hv h.size)) hv
  owned v hv hlt := h.owned v (h'.owned v hv (Nat.lt_of_lt_of_le hlt h.size)) hlt
  owners v hv := h'.owners v (h.owners v hv)
  references entry hentry := h'.references entry (h.references entry hentry)

/-- A step that leaves types, names and expressions alone. -/
theorem Extends.of_eq (hsolver : s'.solver = s.solver) (hexprs : s'.exprVars = s.exprVars)
    (hreferences : s'.references = s.references) : Extends s s' where
  size := by rw [hsolver]
  rigid _ _ := by rw [hsolver]
  constraints _ hd := by rwa [hsolver]
  given _ hd := .inl (by rwa [hsolver] at hd)
  owned _ hv _ := by rwa [Owned, hexprs] at hv
  owners _ hv := by rwa [Owned, hexprs]
  references _ hentry := by rwa [hreferences]

/-- What is declared stays declared. -/
theorem DeclaredIn.after {v : TypeVar} {T : SqlType} (h : DeclaredIn s v T) (he : Extends s s') :
    DeclaredIn s' v T := by
  have hlt := h.declares.rigid.lt
  have hunowned : ¬Owned s' v := fun hv => h.unowned (he.owned v hv hlt)
  refine ⟨⟨(he.rigid v hlt).2 h.declares.rigid, he.constraints _ h.declares.fixed, ?_⟩, hunowned⟩
  intro d hd hgiven
  rcases he.given d hd with hold | hnew
  · exact h.declares.only d hold hgiven
  · exact absurd (hnew v hgiven hlt) h.unowned

theorem isRigid_fresh (vs : TypeVars) (free : Bool) {v : TypeVar} (hv : v.index < vs.size) :
    (vs.fresh free).2.IsRigid v ↔ vs.IsRigid v := by
  rw [TypeVars.IsRigid, TypeVars.fresh, Array.getElem?_push_lt hv, TypeVars.IsRigid,
    Array.getElem?_eq_getElem hv]

theorem isRigid_fresh_self (vs : TypeVars) : (vs.fresh false).2.IsRigid (vs.fresh false).1 := by
  simp [TypeVars.IsRigid, TypeVars.fresh, TypeVars.size]

theorem size_fresh (vs : TypeVars) (free : Bool) : (vs.fresh free).2.size = vs.size + 1 := by
  simp [TypeVars.fresh, TypeVars.size]

/-! ### What a trace says of a state -/

/-- What a walk is over: its input, the variables of the bound values, and which numbers are those
of column names. -/
structure Setting where
  input : AnalysisInput
  params : List TypeVar
  isColumn : Nat → Bool

section

variable (Γ : Setting)

/-- A variable that is there and, if it is the variable of a bound value without a name, belongs to
a bound value that is not used for a column as it is. -/
structure Known (s : AnalysisState) (t : Trace) (v : TypeVar) : Prop where
  lt : v.index < s.solver.vars.size
  loose : ∀ i, Γ.input.name? i = none → Γ.params[i]? = some v → i ∈ t.loose

/-- The variable of the column that a bound value is used for. -/
def UsedFor (s : AnalysisState) : Use → TypeVar → Prop
  | .compared _ column frames, v => ∃ r, (column, r) ∈ s.references ∧ r.var = v ∧
      ∀ bound T, r = .column bound → bound.declaredType Γ.input.catalog frames = some T →
        DeclaredIn s v T
  | .stored _ type, v => ∀ T, type = some T → DeclaredIn s v T

/-- The equation between the variable of a bound value and that of the column. -/
def IsEquation (use : Use) (v : TypeVar) (d : Constraint) : Prop :=
  ∃ p, Γ.params[use.ordinal]? = some p ∧ (d = .equal p v ∨ d = .equal v p)

/-- Each use has its equation, and all other constraints speak of known variables. -/
def UsesMet (s : AnalysisState) (t : Trace) : Prop :=
  ∃ met : List (Use × TypeVar), met.map Prod.fst = t.uses ∧
    (∀ m ∈ met, UsedFor Γ s m.1 m.2 ∧ Known Γ s t m.2 ∧
      ∃ d ∈ s.solver.constraints.toList, IsEquation Γ m.1 m.2 d) ∧
    ∀ d ∈ s.solver.constraints.toList, (∀ v ∈ d.vars, Known Γ s t v) ∨
      ∃ m ∈ met, IsEquation Γ m.1 m.2 d

/-- The columns of a table in scope. Those of a table of the catalog are declared. -/
structure SourceMet (s : AnalysisState) (t : Trace) (factor : TableFactor) (source : Source) :
    Prop where
  visible : source.visible = factor.visibleName
  known : ∀ c ∈ source.columns, Known Γ s t c.var
  declared : ∀ schema name label span, factor = .table schema name label span →
    ∃ table, Γ.input.catalog.table? schema name = some table ∧
      List.Forall₂ (fun (c : SourceColumn) (d : Column) => c.name = d.name ∧
        DeclaredIn s c.var d.type) source.columns table.columns

/-- The names of a scope. -/
structure ScopeMet (s : AnalysisState) (t : Trace) (frame : List TableFactor) (scope : Scope) :
    Prop where
  sources : ∀ (j : Nat) (source : Source), scope.sources[j]? = some source →
    ∃ factor, frame[j]? = some factor ∧ SourceMet Γ s t factor source
  aliases : ∀ a ∈ scope.aliases, Known Γ s t a.var

/-- What holds of a state when a trace has been met. -/
structure Traced (s : AnalysisState) (frames : Frames) (t : Trace) : Prop where
  params_eq : s.parameters.toList.map ParameterFacts.var = Γ.params
  params_free : ∀ v ∈ Γ.params, v.index < s.solver.vars.size ∧ ¬s.solver.vars.IsRigid v
  distinct : ∀ i j v, Γ.input.name? j = none → Γ.params[i]? = some v → Γ.params[j]? = some v → i = j
  owned : ∀ v, Owned s v → s.solver.vars.IsRigid v
  typeSets : ∀ entry ∈ s.typeSets, Γ.isColumn entry.1 = false
  columns : (s.references.map Prod.fst).Perm t.columns
  references : ∀ entry ∈ s.references,
    Γ.isColumn entry.1 = true ∧ Known Γ s t entry.2.var
  given : ∀ d ∈ s.solver.constraints.toList, ∀ v, d.given? = some v → s.solver.vars.IsRigid v
  uses : UsesMet Γ s t
  depth : s.scopes.size = frames.length
  scopes : ∀ (k : Nat) (scope : Scope) (frame : List TableFactor), s.scopes[k]? = some scope →
    frames[k]? = some frame → ScopeMet Γ s t frame scope

end

variable {Γ : Setting} {frames : Frames} {t u : Trace} {v : TypeVar}

section

variable (h : Known Γ s t v) (he : Extends s s')

include h he

theorem Known.grow (hloose : ∀ i ∈ t.loose, i ∈ u.loose) : Known Γ s' u v :=
  ⟨Nat.lt_of_lt_of_le h.lt he.size, fun i hi hv => hloose i (h.loose i hi hv)⟩

theorem Known.after : Known Γ s' (t ++ u) v :=
  h.grow he fun _ hi => mem_append_left _ hi

theorem Known.in_state : Known Γ s' t v :=
  h.grow he fun _ hi => hi

end

theorem UsedFor.after {use : Use} (h : UsedFor Γ s use v) (he : Extends s s') :
    UsedFor Γ s' use v := by
  cases use with
  | compared ordinal column frames =>
    obtain ⟨r, hr, hvar, hdeclared⟩ := h
    exact ⟨r, he.references _ hr, hvar,
      fun bound T hbound hT => (hdeclared bound T hbound hT).after he⟩
  | stored ordinal type => exact fun T hT => (h T hT).after he

theorem SourceMet.grow {factor : TableFactor} {source : Source}
    (h : SourceMet Γ s t factor source) (he : Extends s s')
    (hloose : ∀ i ∈ t.loose, i ∈ u.loose) : SourceMet Γ s' u factor source := by
  refine ⟨h.visible, fun c hc => (h.known c hc).grow he hloose, ?_⟩
  intro schema name label span hfactor
  obtain ⟨table, htable, hcolumns⟩ := h.declared schema name label span hfactor
  exact ⟨table, htable, hcolumns.imp fun c d hcd => ⟨hcd.1, hcd.2.after he⟩⟩

theorem ScopeMet.grow {frame : List TableFactor} {scope : Scope}
    (h : ScopeMet Γ s t frame scope) (he : Extends s s')
    (hloose : ∀ i ∈ t.loose, i ∈ u.loose) : ScopeMet Γ s' u frame scope := by
  refine ⟨?_, fun a ha => (h.aliases a ha).grow he hloose⟩
  intro j source hsource
  obtain ⟨factor, hfactor, hmet⟩ := h.sources j source hsource
  exact ⟨factor, hfactor, hmet.grow he hloose⟩

theorem ScopeMet.after {frame : List TableFactor} {scope : Scope}
    (h : ScopeMet Γ s t frame scope) (he : Extends s s') : ScopeMet Γ s' (t ++ u) frame scope :=
  h.grow he fun _ hi => mem_append_left _ hi

namespace Traced

variable (h : Traced Γ s frames t)

include h

/-- A rigid variable is no variable of a bound value. -/
theorem known_of_rigid (hv : s.solver.vars.IsRigid v) : Known Γ s t v :=
  ⟨hv.lt, fun _ _ hparam => absurd hv (h.params_free v (mem_of_getElem? hparam)).2⟩

theorem known_of_owned (hv : Owned s v) : Known Γ s t v :=
  h.known_of_rigid (h.owned v hv)

theorem known_of_declared {T : SqlType} (hv : DeclaredIn s v T) : Known Γ s t v :=
  h.known_of_rigid hv.declares.rigid

/-- Steps that add variables and constraints, and note expressions. -/
theorem grow (he : Extends s s') (hparams : s'.parameters.toList.map ParameterFacts.var =
      s.parameters.toList.map ParameterFacts.var)
    (howned : ∀ v, Owned s' v → s'.solver.vars.IsRigid v)
    (htypeSets : ∀ entry ∈ s'.typeSets, Γ.isColumn entry.1 = false)
    (hreferences : s'.references = s.references) (hscopes : s'.scopes = s.scopes)
    (hgiven : ∀ d ∈ s'.solver.constraints.toList, ∀ v, d.given? = some v →
      s'.solver.vars.IsRigid v) (hloose : ∀ i ∈ t.loose, i ∈ u.loose)
    (hcolumns : u.columns = t.columns) (huses : UsesMet Γ s' u) : Traced Γ s' frames u := by
  refine ⟨hparams.trans h.params_eq, ?_, h.distinct, howned, htypeSets, ?_, ?_, hgiven, huses, ?_,
    ?_⟩
  · intro v hv
    obtain ⟨hlt, hrigid⟩ := h.params_free v hv
    exact ⟨Nat.lt_of_lt_of_le hlt he.size, fun hr => hrigid ((he.rigid v hlt).1 hr)⟩
  · rw [hreferences, hcolumns]
    exact h.columns
  · intro entry hentry
    rw [hreferences] at hentry
    exact ⟨(h.references entry hentry).1, (h.references entry hentry).2.grow he hloose⟩
  · rw [hscopes, h.depth]
  · intro k scope frame hscope hframe
    rw [hscopes] at hscope
    exact (h.scopes k scope frame hscope hframe).grow he hloose

end Traced

theorem UsesMet.grow (h : UsesMet Γ s t) (he : Extends s s')
    (hloose : ∀ i ∈ t.loose, i ∈ u.loose) (huses : u.uses = t.uses)
    (hnew : ∀ d ∈ s'.solver.constraints.toList, d ∈ s.solver.constraints.toList ∨
      ∀ v ∈ d.vars, Known Γ s' u v) : UsesMet Γ s' u := by
  obtain ⟨met, hmetUses, hmet, hconstraints⟩ := h
  refine ⟨met, hmetUses.trans huses.symm, ?_, ?_⟩
  · intro m hm
    obtain ⟨hused, hknown, d, hd, hequation⟩ := hmet m hm
    exact ⟨hused.after he, hknown.grow he hloose, d, he.constraints d hd, hequation⟩
  · intro d hd
    rcases hnew d hd with hold | hnew
    · exact (hconstraints d hold).imp_left fun hvars v hv => (hvars v hv).grow he hloose
    · exact .inl hnew

theorem UsesMet.after (h : UsesMet Γ s t) (he : Extends s s')
    (hnew : ∀ d ∈ s'.solver.constraints.toList, d ∈ s.solver.constraints.toList ∨
      ∀ v ∈ d.vars, Known Γ s' t v) : UsesMet Γ s' t :=
  h.grow he (fun _ hi => hi) rfl hnew

/-! ### New constraints -/

theorem mem_add {solver : Solver} {c d : Constraint} :
    c ∈ (solver.add d).constraints.toList ↔ c ∈ solver.constraints.toList ∨ c = d := by
  simp [Solver.add]

theorem extends_add {d : Constraint} (hgiven : ∀ v, d.given? = some v → Owned s v) :
    Extends s { s with solver := s.solver.add d } where
  size := Nat.le_refl _
  rigid _ _ := Iff.rfl
  constraints c hc := mem_add.2 (.inl hc)
  given c hc := by
    rcases mem_add.1 hc with hold | rfl
    · exact .inl hold
    · exact .inr fun v hv _ => hgiven v hv
  owned _ hv _ := hv
  owners _ hv := hv
  references _ hentry := hentry

/-- A step ends in a state that has met a trace and that came from the one it started in. -/
structure Meets (Γ : Setting) (frames : Frames) (t : Trace) (s s' : AnalysisState) : Prop where
  traced : Traced Γ s' frames t
  grown : Extends s s'

/-- A step that gives a known variable, too. -/
structure Gives (Γ : Setting)
    (frames : Frames) (t : Trace) (s : AnalysisState) (v : TypeVar) (s' : AnalysisState) : Prop
    extends Meets Γ frames t s s' where
  known : Known Γ s' t v

theorem Meets.trans (h : Meets Γ frames t s s') (h' : Meets Γ frames u s' s'') :
    Meets Γ frames u s s'' :=
  ⟨h'.traced, h.grown.trans h'.grown⟩

theorem Meets.gives (h : Meets Γ frames t s s') (h' : Gives Γ frames u s' v s'') :
    Gives Γ frames u s v s'' :=
  ⟨h.trans h'.toMeets, h'.known⟩

namespace Traced

variable {d : Constraint} (h : Traced Γ s frames t)

include h

theorem meets_refl : Meets Γ frames t s s :=
  ⟨h, .refl s⟩

theorem given_add (hgiven : ∀ v, d.given? = some v → Owned s v) :
    ∀ c ∈ (s.solver.add d).constraints.toList, ∀ v, c.given? = some v →
      s.solver.vars.IsRigid v := by
  intro c hc v hv
  rcases mem_add.1 hc with hold | rfl
  · exact h.given c hold v hv
  · exact h.owned v (hgiven v hv)

/-- A new constraint about known variables gives a type only to a variable of an expression. -/
theorem add (hvars : ∀ v ∈ d.vars, Known Γ s t v) (hgiven : ∀ v, d.given? = some v → Owned s v) :
    Meets Γ frames t s { s with solver := s.solver.add d } := by
  have he := extends_add hgiven
  refine ⟨h.grow he rfl h.owned h.typeSets rfl rfl (h.given_add hgiven) (fun _ hi => hi) rfl ?_,
    he⟩
  refine h.uses.after he ?_
  intro c hc
  rcases mem_add.1 hc with hold | rfl
  · exact .inl hold
  · exact .inr fun v hv => (hvars v hv).in_state he

/-- A bound value is used for a column. -/
theorem addUse {use : Use} {v p : TypeVar} (hp : Γ.params[use.ordinal]? = some p)
    (hv : Known Γ s t v) (hused : UsedFor Γ s use v) (hd : d = .equal p v ∨ d = .equal v p) :
    Meets Γ frames (t ++ { uses := [use] }) s
      { s with solver := s.solver.add d } := by
  have hgiven : ∀ w, d.given? = some w → Owned s w := by
    intro w hw
    rcases hd with rfl | rfl <;> cases hw
  have he := extends_add hgiven
  have hsub : ∀ i ∈ t.loose, i ∈ (t ++ ({ uses := [use] } : Trace)).loose :=
    fun i hi => mem_append_left _ hi
  obtain ⟨met, huses, hmet, hconstraints⟩ := h.uses
  refine ⟨h.grow he rfl h.owned h.typeSets rfl rfl (h.given_add hgiven) hsub
    (append_nil _) ⟨met ++ [(use, v)], ?_, ?_, ?_⟩, he⟩
  · rw [map_append, huses]
    rfl
  · intro m hm
    rcases List.mem_append.1 hm with hm | hm
    · obtain ⟨hused, hknown, c, hc, hequation⟩ := hmet m hm
      exact ⟨hused.after he, hknown.grow he hsub, c, he.constraints c hc, hequation⟩
    · rw [List.mem_singleton.1 hm]
      exact ⟨hused.after he, hv.grow he hsub, d, mem_add.2 (.inr rfl), p, hp, hd⟩
  · intro c hc
    rcases mem_add.1 hc with hold | rfl
    · rcases hconstraints c hold with hknown | ⟨m, hm, hequation⟩
      · exact .inl fun w hw => (hknown w hw).grow he hsub
      · exact .inr ⟨m, mem_append_left _ hm, hequation⟩
    · exact .inr ⟨(use, v), by simp, p, hp, hd⟩

/-! ### New variables -/

omit h in
theorem extends_fresh {exprVars : List (Nat × TypeVar)}
    (hexprs : ∀ entry ∈ exprVars, entry ∈ s.exprVars ∨ entry.2 = (s.solver.vars.fresh false).1)
    (hkept : ∀ entry ∈ s.exprVars, entry ∈ exprVars) :
    Extends s { s with solver := (s.solver.fresh false).2, exprVars } where
  size := by
    show s.solver.vars.size ≤ (s.solver.vars.fresh false).2.size
    rw [size_fresh]
    omega
  rigid v hv := isRigid_fresh s.solver.vars false hv
  constraints _ hc := hc
  given _ hc := .inl hc
  owned v hv hlt := by
    obtain ⟨entry, hentry, rfl⟩ := hv
    rcases hexprs entry hentry with hold | hnew
    · exact ⟨entry, hold, rfl⟩
    · rw [hnew] at hlt
      exact absurd hlt (Nat.lt_irrefl _)
  owners _ hv := by
    obtain ⟨entry, hentry, rfl⟩ := hv
    exact ⟨entry, hkept entry hentry, rfl⟩
  references _ hentry := hentry

/-- A new variable that belongs to an expression. -/
theorem own (id : Nat) :
    Meets Γ frames t s { s with
      solver := (s.solver.fresh false).2
      exprVars := (id, (s.solver.vars.fresh false).1) :: s.exprVars } := by
  have he : Extends s { s with
      solver := (s.solver.fresh false).2
      exprVars := (id, (s.solver.vars.fresh false).1) :: s.exprVars } := by
    refine extends_fresh (fun entry hentry => ?_) fun entry hentry => mem_cons_of_mem _ hentry
    rcases List.mem_cons.1 hentry with rfl | hold
    · exact .inr rfl
    · exact .inl hold
  refine ⟨h.grow he rfl ?_ h.typeSets rfl rfl ?_ (fun _ hi => hi) rfl ?_, he⟩
  · rintro v ⟨entry, hentry, rfl⟩
    rcases List.mem_cons.1 hentry with rfl | hold
    · exact isRigid_fresh_self _
    · have hrigid := h.owned entry.2 ⟨entry, hold, rfl⟩
      exact (isRigid_fresh _ _ hrigid.lt).2 hrigid
  · intro c hc v hv
    have hrigid := h.given c hc v hv
    exact (isRigid_fresh _ _ hrigid.lt).2 hrigid
  · exact h.uses.after he fun c hc => .inl hc

/-- A new variable with a constraint that gives it a type. It belongs to no expression. -/
theorem addFresh (hd : d.given? = some (s.solver.vars.fresh false).1)
    (hvars : ∀ v ∈ d.vars, v = (s.solver.vars.fresh false).1 ∨ Known Γ s t v) :
    Gives Γ frames t s (s.solver.vars.fresh false).1
        { s with solver := (s.solver.fresh false).2.add d } ∧
      ∀ T, d = .fix (s.solver.vars.fresh false).1 T → DeclaredIn
        { s with solver := (s.solver.fresh false).2.add d } (s.solver.vars.fresh false).1 T := by
  have hnew := isRigid_fresh_self s.solver.vars
  have hold : ∀ v, s.solver.vars.IsRigid v → (s.solver.vars.fresh false).2.IsRigid v :=
    fun v hv => (isRigid_fresh _ _ hv.lt).2 hv
  have hfresh : Extends s { s with solver := (s.solver.fresh false).2, exprVars := s.exprVars } :=
    extends_fresh (fun _ hentry => .inl hentry) fun _ hentry => hentry
  have he : Extends s { s with solver := (s.solver.fresh false).2.add d } := by
    refine { hfresh with constraints := ?_, given := ?_ }
    · exact fun c hc => mem_add.2 (.inl hc)
    · intro c hc
      rcases mem_add.1 hc with hc | rfl
      · exact .inl hc
      · right
        intro v hv hlt
        rw [hd] at hv
        cases hv
        exact absurd hlt (Nat.lt_irrefl _)
  have hgiven : ∀ c ∈ ((s.solver.fresh false).2.add d).constraints.toList, ∀ v,
      c.given? = some v → (s.solver.vars.fresh false).2.IsRigid v := by
    intro c hc v hv
    rcases mem_add.1 hc with hc | rfl
    · exact hold v (h.given c hc v hv)
    · rw [hd] at hv
      cases hv
      exact hnew
  have hknown : Known Γ { s with solver := (s.solver.fresh false).2.add d } t
      (s.solver.vars.fresh false).1 := by
    refine ⟨hnew.lt, fun i _ hi => ?_⟩
    exact absurd (h.params_free _ (mem_of_getElem? hi)).1 (Nat.lt_irrefl _)
  refine ⟨⟨⟨h.grow he rfl (fun v hv => hold v (h.owned v hv)) h.typeSets rfl rfl hgiven
    (fun _ hi => hi) rfl ?_, he⟩, hknown⟩, ?_⟩
  · refine h.uses.after he ?_
    intro c hc
    rcases mem_add.1 hc with hc | rfl
    · exact .inl hc
    · right
      intro v hv
      rcases hvars v hv with rfl | hv
      · exact hknown
      · exact hv.in_state he
  · rintro T rfl
    refine ⟨⟨hnew, mem_add.2 (.inr rfl), ?_⟩, ?_⟩
    · intro c hc hcgiven
      rcases mem_add.1 hc with hc | rfl
      · exact absurd (h.given c hc _ hcgiven).lt (Nat.lt_irrefl _)
      · rfl
    · intro howned
      exact absurd (h.owned _ howned).lt (Nat.lt_irrefl _)

end Traced

end Analysis

end SqlSignature

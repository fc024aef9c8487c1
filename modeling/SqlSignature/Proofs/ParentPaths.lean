import SqlSignature.Proofs.RelationParents
/-!
# SqlSignature.Proofs.ParentPaths

The parents of a table, by the paths that lead to them. A path goes up step by step, over tables
that contribute nothing. The climb finds every table that a path leads to
(`Nested.Climb.mem_tables`). A table that is climbed over is climbed over once, along the first of
the ways that come to no table twice, in the order of the steps (`Nested.FirstWay`); so the
cardinality of a parent is that of a path that goes along such a way, and a better path that comes
to the same table later is not seen (`Nested.Climb.mem_one`). `Nested.parents_exact_iff` says that
this is all that can go wrong.
-/

open List

namespace SqlSignature

namespace Nested

/-! ### Paths and ways -/

section

variable (layout : Layout) (foreignKeys : List ForeignKey) (contributes : Nat → Bool)

/-- A path of steps up from one table to another. The tables between them contribute nothing. -/
inductive PathTo : Nat → List Parent → Nat → Prop
  | step {source target : Nat} {cardinality : Cardinality}
      (hhop : (target, cardinality) ∈ hops layout foreignKeys source) :
      PathTo source [(target, cardinality)] target
  | onward {source table target : Nat} {cardinality : Cardinality} {path : List Parent}
      (hhop : (table, cardinality) ∈ hops layout foreignKeys source)
      (hsilent : contributes table = false) (hrest : PathTo table path target) :
      PathTo source ((table, cardinality) :: path) target

/-- A way that begins with one of some steps up and goes over tables that contribute nothing, to the
last of them. It comes to no table that was visited, and to none twice. -/
inductive Way : List Nat → List Parent → List Parent → Nat → Prop
  | step {visited : List Nat} {steps : List Parent} {hop : Parent} (hhop : hop ∈ steps)
      (hsilent : contributes hop.1 = false) (hnew : hop.1 ∉ visited) :
      Way visited steps [hop] hop.1
  | onward {visited : List Nat} {steps path : List Parent} {hop : Parent} {target : Nat}
      (hhop : hop ∈ steps) (hsilent : contributes hop.1 = false) (hnew : hop.1 ∉ visited)
      (hrest : Way (visited ++ [hop.1]) (hops layout foreignKeys hop.1) path target) :
      Way visited steps (hop :: path) target

/-- Where two ways part, the one that comes first takes the earlier step. -/
inductive Before : List Parent → List Parent → List Parent → Prop
  | part {steps path other : List Parent} {hop later : Parent} (h : [hop, later].Sublist steps) :
      Before steps (hop :: path) (later :: other)
  | along {steps path other : List Parent} {hop : Parent}
      (h : Before (hops layout foreignKeys hop.1) path other) :
      Before steps (hop :: path) (hop :: other)

/-- A way that comes before all others to the same table. -/
structure FirstWay (visited : List Nat) (steps path : List Parent) (target : Nat) : Prop where
  way : Way layout foreignKeys contributes visited steps path target
  before : ∀ other, Way layout foreignKeys contributes visited steps other target →
    other ≠ path → Before layout foreignKeys steps path other

/-- Tables from which steps up lead to none but themselves, as far as the tables that they lead to
contribute nothing, and up to some that were visited before. -/
def Closed (visited seen : List Nat) : Prop :=
  ∀ table ∈ seen, table ∉ visited → ∀ hop ∈ hops layout foreignKeys table,
    contributes hop.1 = false → hop.1 ∈ seen

end

/-- Whether all steps of a path are of cardinality one. -/
def OnlyOne (path : List Parent) : Prop := ∀ hop ∈ path, hop.2 = .one

variable {layout : Layout} {foreignKeys : List ForeignKey} {contributes : Nat → Bool}
  {steps path : List Parent} {start last : List Parent × List Nat} {visited seen : List Nat}
  {table target : Nat} {cardinality : Cardinality} {source : Nat} {first hop : Parent}
  {other : List Parent}

theorem onlyOne_cons : OnlyOne (hop :: path) ↔ hop.2 = .one ∧ OnlyOne path :=
  forall_mem_cons

/-! ### Cardinalities of merged parents -/

theorem chain_eq_one {a b : Cardinality} : a.chain b = .one ↔ a = .one ∧ b = .one := by
  cases a <;> cases b <;> simp [Cardinality.chain]

variable {found above : List Parent}

/-- A parent has the cardinality one as soon as it is recorded with it. -/
theorem one_mem_merge {parent : Nat} :
    (table, .one) ∈ merge found parent cardinality ↔
      (table, .one) ∈ found ∨ table = parent ∧ cardinality = .one := by
  unfold merge
  split
  next hknown =>
    obtain ⟨⟨known, c⟩, hmem, heq⟩ := any_eq_true.1 hknown
    obtain rfl : known = parent := by simpa using heq
    simp only [mem_map, Prod.exists, Prod.mk.injEq]
    constructor
    · rintro ⟨other, d, hother, rfl, hd⟩
      split at hd
      next hone =>
        simp only [Bool.and_eq_true, beq_iff_eq] at hone
        exact .inr hone
      next => exact .inl (hd ▸ hother)
    · rintro (hone | ⟨rfl, rfl⟩)
      · exact ⟨table, .one, hone, rfl, by split <;> rfl⟩
      · exact ⟨table, c, hmem, rfl, by simp⟩
  next => simp [eq_comm]

theorem one_mem_mergeAbove :
    (table, .one) ∈ mergeAbove found cardinality above ↔
      (table, .one) ∈ found ∨ cardinality = .one ∧ (table, .one) ∈ above := by
  induction above generalizing found with
  | nil => simp [mergeAbove]
  | cons parent above ih =>
    obtain ⟨parent, c⟩ := parent
    rw [mergeAbove, foldl_cons]
    refine ih.trans ?_
    rw [one_mem_merge, chain_eq_one, mem_cons, Prod.mk.injEq]
    grind

/-- A table is one step above another at most once. -/
theorem nodup_tablesOf_hops (layout : Layout) (foreignKeys : List ForeignKey) (source : Nat) :
    (tablesOf (hops layout foreignKeys source)).Nodup := by
  unfold hops
  split
  next => exact nodup_nil
  next child _ =>
    dsimp only
    split
    next =>
      have hfold : ∀ (links : List JoinLink) (found : List Parent), (tablesOf found).Nodup →
          (tablesOf (links.foldl (fun found link => merge found link.parent
            (if (child.key link.childColumn).isUnique then .one else .many)) found)).Nodup := by
        intro links
        induction links with
        | nil => exact fun _ h => h
        | cons link links ih => exact fun found h => ih _ (nodup_merge h _ _)
      exact hfold _ [] nodup_nil
    next =>
      cases foreignParent? layout foreignKeys source child with
      | none => exact nodup_nil
      | some parent => exact pairwise_singleton _ _

theorem nodup_hops (layout : Layout) (foreignKeys : List ForeignKey) (source : Nat) :
    (hops layout foreignKeys source).Nodup :=
  List.Pairwise.of_map Prod.fst (fun _ _ hne heq => hne (heq ▸ rfl))
    (nodup_tablesOf_hops layout foreignKeys source)

/-! ### Tables that are climbed over -/

/-- Every step is taken, unless its table contributes. -/
theorem Climb.step_mem (h : Climb layout foreignKeys contributes steps start last)
    (hhop : hop ∈ steps) (hsilent : contributes hop.1 = false) : hop.1 ∈ last.2 := by
  induction h with
  | done => cases hhop
  | parent hcontributes _ ih =>
    rcases mem_cons.1 hhop with rfl | hrest
    · rw [hsilent] at hcontributes
      cases hcontributes
    · exact ih hrest
  | visited _ hvisited hrest ih =>
    rcases mem_cons.1 hhop with rfl | hlater
    · exact hrest.subset hvisited
    · exact ih hlater
  | climb _ _ habove hrest _ ihrest =>
    rcases mem_cons.1 hhop with rfl | hlater
    · exact hrest.subset (habove.subset (mem_append_right _ mem_cons_self))
    · exact ihrest hlater

theorem Climb.closed (h : Climb layout foreignKeys contributes steps start last) :
    Closed layout foreignKeys contributes start.2 last.2 := by
  induction h with
  | done => exact fun table hmem hnew => absurd hmem hnew
  | parent _ _ ih => exact ih
  | visited _ _ _ ih => exact ih
  | @climb parent _ _ _ _ visited seen _ _ _ habove hrest ihabove ihrest =>
    intro table hmem hnew hop hhop hsilent
    by_cases hseen : table ∈ seen
    · refine hrest.subset ?_
      by_cases heq : table = parent
      · subst heq
        exact habove.step_mem hhop hsilent
      · refine ihabove table hseen ?_ hop hhop hsilent
        simp [hnew, heq]
    · exact ihrest table hmem hseen hop hhop hsilent

/-- A path from a table of a closed set goes over tables of the set only. -/
theorem Closed.exists_hop (hclosed : Closed layout foreignKeys contributes [] seen)
    (h : PathTo layout foreignKeys contributes source path target) (hsource : source ∈ seen) :
    ∃ table ∈ seen, target ∈ tablesOf (hops layout foreignKeys table) := by
  induction h with
  | @step source _ _ hhop => exact ⟨source, hsource, mem_map_of_mem hhop⟩
  | @onward source _ _ _ _ hhop hsilent _ ih =>
    exact ih (hclosed source hsource not_mem_nil _ hhop hsilent)

theorem Way.target_new (h : Way layout foreignKeys contributes visited steps path target) :
    target ∉ visited := by
  induction h with
  | step _ _ hnew => exact hnew
  | onward _ _ _ _ ih => exact fun hmem => ih (mem_append_left _ hmem)

/-- A way leads to a path: one more step up from its last table. -/
theorem Way.pathTo (h : Way layout foreignKeys contributes visited steps path table)
    (hsteps : steps ⊆ hops layout foreignKeys source)
    (htarget : (target, cardinality) ∈ hops layout foreignKeys table) :
    PathTo layout foreignKeys contributes source (path ++ [(target, cardinality)]) target := by
  induction h generalizing source with
  | step hhop hsilent _ => exact .onward (hsteps hhop) hsilent (.step htarget)
  | onward hhop hsilent _ _ ih =>
    exact .onward (hsteps hhop) hsilent (ih (List.Subset.refl _) htarget)

theorem Way.mono (h : Way layout foreignKeys contributes seen steps path target)
    {more : List Parent} (hvisited : visited ⊆ seen) (hsteps : steps ⊆ more) :
    Way layout foreignKeys contributes visited more path target := by
  induction h generalizing visited more with
  | step hhop hsilent hnew => exact .step (hsteps hhop) hsilent fun hmem => hnew (hvisited hmem)
  | onward hhop hsilent hnew _ ih =>
    refine .onward (hsteps hhop) hsilent (fun hmem => hnew (hvisited hmem)) ?_
    refine ih (append_subset.2 ⟨?_, subset_append_right _ _⟩) (List.Subset.refl _)
    exact subset_append_of_subset_left _ hvisited

section

variable (h : Way layout foreignKeys contributes visited steps path target)
  (hclosed : Closed layout foreignKeys contributes visited seen)

include h hclosed

/-- A way from tables of a closed set does not leave the set. -/
theorem Way.target_mem
    (hsteps : ∀ hop ∈ steps, contributes hop.1 = false → hop.1 ∈ seen) : target ∈ seen := by
  induction h with
  | step hhop hsilent _ => exact hsteps _ hhop hsilent
  | onward hhop hsilent hnew _ ih =>
    refine ih (fun table hmem htable => hclosed table hmem ?_) ?_
    · exact fun hvisited => htable (mem_append_left _ hvisited)
    · exact hclosed _ (hsteps _ hhop hsilent) hnew

/-- A way to a table outside of a closed set does not enter the set. -/
theorem Way.avoids (htarget : target ∉ seen) :
    Way layout foreignKeys contributes seen steps path target := by
  induction h generalizing seen with
  | step hhop hsilent _ => exact .step hhop hsilent htarget
  | @onward visited _ _ hop _ hhop hsilent hnew hrest ih =>
    have hweak : Closed layout foreignKeys contributes (visited ++ [hop.1]) seen :=
      fun table hmem htable => hclosed table hmem fun hold => htable (mem_append_left _ hold)
    have hout : hop.1 ∉ seen :=
      fun hmem => htarget (hrest.target_mem hweak (hclosed _ hmem hnew))
    refine .onward hhop hsilent hout (ih (fun table hmem htable next hnext hnextSilent => ?_) ?_)
    · have hold : table ∈ seen := by
        rcases mem_append.1 hmem with hold | hlast
        · exact hold
        · exact absurd (mem_append_right _ hlast) htable
      exact mem_append_left _ (hweak table hold htable next hnext hnextSilent)
    · refine fun hmem => (mem_append.1 hmem).elim htarget fun hlast => ?_
      exact hrest.target_new (mem_append_right _ hlast)

end

/-- What is found by the ways on from the table of a step is found by ways that begin with it. -/
theorem exists_way_cons (hsilent : contributes first.1 = false) (hnew : first.1 ∉ visited)
    (h : table ∈ visited ++ [first.1] ∨ ∃ path, Way layout foreignKeys contributes
      (visited ++ [first.1]) (hops layout foreignKeys first.1) path table) :
    table ∈ visited ∨ ∃ tail,
      Way layout foreignKeys contributes visited (first :: steps) (first :: tail) table := by
  rcases h with hold | ⟨path, hway⟩
  · rcases mem_append.1 hold with hold | hlast
    · exact .inl hold
    · obtain rfl := mem_singleton.1 hlast
      exact .inr ⟨[], .step mem_cons_self hsilent hnew⟩
  · exact .inr ⟨path, .onward mem_cons_self hsilent hnew hway⟩

/-- To every table that is visited in a climb there is a way. -/
theorem Climb.way (h : Climb layout foreignKeys contributes steps start last)
    (hmem : table ∈ last.2) :
    table ∈ start.2 ∨ ∃ path, Way layout foreignKeys contributes start.2 steps path table := by
  induction h generalizing table with
  | done => exact .inl hmem
  | parent _ _ ih | visited _ _ _ ih =>
    refine (ih hmem).imp_right fun ⟨path, hway⟩ => ⟨path, ?_⟩
    exact hway.mono (List.Subset.refl _) (subset_cons_self _ _)
  | @climb parent _ _ _ _ visited _ _ hsilent hnew habove _ ihabove ihrest =>
    rcases ihrest hmem with hseen | ⟨path, hway⟩
    · exact (exists_way_cons hsilent hnew (ihabove hseen)).imp_right fun ⟨_, hway⟩ => ⟨_, hway⟩
    · refine .inr ⟨path, hway.mono ?_ (subset_cons_self _ _)⟩
      exact List.Subset.trans (subset_append_left _ _) habove.subset

/-! ### First ways -/

theorem Before.mono {more : List Parent} (h : Before layout foreignKeys steps path other)
    (hsteps : steps.Sublist more) : Before layout foreignKeys more path other := by
  cases h with
  | part h => exact .part (h.trans hsteps)
  | along h => exact .along h

/-- A step that is not taken does not matter to the order. -/
theorem Before.of_cons (hne : hop ≠ first)
    (h : Before layout foreignKeys (first :: steps) (hop :: path) other) :
    Before layout foreignKeys steps (hop :: path) other := by
  cases h with
  | part h =>
    rcases sublist_cons_iff.1 h with hlater | ⟨_, heq, _⟩
    · exact .part hlater
    · exact absurd (List.cons.inj heq).1 hne
  | along h => exact .along h

/-- What begins with a later step is not before what begins with the first one. -/
theorem Before.eq_first (hfirst : first ∉ steps)
    (h : Before layout foreignKeys (first :: steps) (hop :: path) (first :: other)) :
    hop = first := by
  refine Classical.byContradiction fun hne => ?_
  cases h.of_cons hne with
  | part h => exact hfirst (h.subset (mem_cons_of_mem _ mem_cons_self))
  | along _ => exact hne rfl

theorem Before.tail (hsteps : steps.Nodup)
    (h : Before layout foreignKeys steps (hop :: path) (hop :: other)) :
    Before layout foreignKeys (hops layout foreignKeys hop.1) path other := by
  cases h with
  | part h => exact absurd (hsteps.sublist h) (by simp)
  | along h => exact h

theorem Way.head_mem (h : Way layout foreignKeys contributes visited steps path target) :
    ∃ hop tail, path = hop :: tail ∧ hop ∈ steps := by
  cases h with
  | step hhop => exact ⟨_, _, rfl, hhop⟩
  | onward hhop => exact ⟨_, _, rfl, hhop⟩

/-- A way begins with the first step, or it is a way that begins with a later one. -/
theorem Way.first_or_later
    (h : Way layout foreignKeys contributes visited (first :: steps) path target) :
    (contributes first.1 = false ∧ first.1 ∉ visited ∧
      ((path = [first] ∧ target = first.1) ∨ ∃ tail, path = first :: tail ∧
        Way layout foreignKeys contributes (visited ++ [first.1])
          (hops layout foreignKeys first.1) tail target)) ∨
      Way layout foreignKeys contributes visited steps path target := by
  cases h with
  | step hhop hsilent hnew =>
    rcases mem_cons.1 hhop with rfl | hlater
    · exact .inl ⟨hsilent, hnew, .inl ⟨rfl, rfl⟩⟩
    · exact .inr (.step hlater hsilent hnew)
  | onward hhop hsilent hnew hrest =>
    rcases mem_cons.1 hhop with rfl | hlater
    · exact .inl ⟨hsilent, hnew, .inr ⟨_, rfl, hrest⟩⟩
    · exact .inr (.onward hlater hsilent hnew hrest)

/-- A first step that no way takes does not matter to first ways. -/
theorem firstWay_cons_of_skipped (hsteps : (first :: steps).Nodup)
    (hskipped : contributes first.1 = true ∨ first.1 ∈ visited) :
    FirstWay layout foreignKeys contributes visited (first :: steps) path target ↔
      FirstWay layout foreignKeys contributes visited steps path target := by
  have hlater {path : List Parent} :
      Way layout foreignKeys contributes visited (first :: steps) path target ↔
        Way layout foreignKeys contributes visited steps path target := by
    refine ⟨fun hway => ?_, fun hway => ?_⟩
    · rcases hway.first_or_later with ⟨hsilent, hnew, -⟩ | hlater
      · rcases hskipped with hcontributes | hold
        · rw [hsilent] at hcontributes
          cases hcontributes
        · exact absurd hold hnew
      · exact hlater
    · exact hway.mono (List.Subset.refl _) (subset_cons_self _ _)
  constructor
  · intro h
    have hway := hlater.1 h.way
    refine ⟨hway, fun other hother hne => ?_⟩
    obtain ⟨hop, tail, rfl, hhop⟩ := hway.head_mem
    refine (h.before other (hlater.2 hother) hne).of_cons ?_
    exact fun heq => (nodup_cons.1 hsteps).1 (heq ▸ hhop)
  · intro h
    refine ⟨hlater.2 h.way, fun other hother hne => ?_⟩
    exact (h.before other (hlater.1 hother) hne).mono (sublist_cons_self _ _)

section

variable (habove : Climb layout foreignKeys contributes (hops layout foreignKeys first.1)
  (found, visited ++ [first.1]) (above, seen))

include habove

/-- What was seen when a table has been climbed over is closed, with the table itself. -/
theorem Climb.closed_over : Closed layout foreignKeys contributes visited seen := by
  intro table hmem htable hop hhop hsilent
  by_cases heq : table = first.1
  · subst heq
    exact habove.step_mem hhop hsilent
  · exact habove.closed table hmem (by simp [htable, heq]) hop hhop hsilent

/-- The first ways when a table is climbed over: the step to it, the first ways from there, and the
first ways by later steps that do not come to a table that was seen on these. -/
theorem Climb.firstWay_iff (hsteps : (first :: steps).Nodup) (hsilent : contributes first.1 = false)
    (hnew : first.1 ∉ visited) :
    FirstWay layout foreignKeys contributes visited (first :: steps) path target ↔
      (path = [first] ∧ target = first.1) ∨
      (∃ tail, path = first :: tail ∧ FirstWay layout foreignKeys contributes
        (visited ++ [first.1]) (hops layout foreignKeys first.1) tail target) ∨
      FirstWay layout foreignKeys contributes seen steps path target := by
  have hfirst : first ∉ steps := (nodup_cons.1 hsteps).1
  have hsubset : visited ++ [first.1] ⊆ seen := habove.subset
  have hclosed : Closed layout foreignKeys contributes visited seen := habove.closed_over
  have hover {tail : List Parent} {target : Nat} (hway : Way layout foreignKeys contributes
      (visited ++ [first.1]) (hops layout foreignKeys first.1) tail target) : target ∈ seen :=
    hway.target_mem habove.closed fun _ => habove.step_mem
  have hlater {path : List Parent} (hway : Way layout foreignKeys contributes seen steps path
      target) : Way layout foreignKeys contributes visited (first :: steps) path target :=
    hway.mono (List.Subset.trans (subset_append_left _ _) hsubset) (subset_cons_self _ _)
  -- any way by a later step comes after those by the first one
  have hpart {tail other : List Parent}
      (hway : Way layout foreignKeys contributes visited steps other target) :
      Before layout foreignKeys (first :: steps) (first :: tail) other := by
    obtain ⟨hop, rest, rfl, hhop⟩ := hway.head_mem
    exact .part ((singleton_sublist.2 hhop).cons_cons first)
  constructor
  · rintro ⟨hway, hbefore⟩
    rcases hway.first_or_later with ⟨-, -, ⟨rfl, rfl⟩ | ⟨tail, rfl, htail⟩⟩ | hway
    · exact .inl ⟨rfl, rfl⟩
    · refine .inr (.inl ⟨tail, rfl, htail, fun other hother hne => ?_⟩)
      have hafter := hbefore (first :: other) (.onward mem_cons_self hsilent hnew hother)
        fun heq => hne (List.cons.inj heq).2
      exact hafter.tail hsteps
    · obtain ⟨hop, rest, rfl, hhop⟩ := hway.head_mem
      have hne : hop ≠ first := fun heq => hfirst (heq ▸ hhop)
      -- a table that was seen has a way by the first step, which would come before
      have hout : target ∉ seen := by
        intro hmem
        rcases exists_way_cons hsilent hnew (habove.way hmem) with hold | ⟨tail, htail⟩
        · exact hway.target_new hold
        · have hafter := hbefore _ htail fun heq => hne (List.cons.inj heq).1.symm
          exact hne (hafter.eq_first hfirst)
      refine .inr (.inr ⟨hway.avoids hclosed hout, fun other hother hneother => ?_⟩)
      exact (hbefore other (hlater hother) hneother).of_cons hne
  · rintro (⟨rfl, rfl⟩ | ⟨tail, rfl, hway, hbefore⟩ | ⟨hway, hbefore⟩)
    · refine ⟨.step mem_cons_self hsilent hnew, fun other hother hne => ?_⟩
      rcases hother.first_or_later with ⟨-, -, ⟨rfl, -⟩ | ⟨tail, rfl, htail⟩⟩ | hother
      · exact absurd rfl hne
      · exact absurd (mem_append_right _ mem_cons_self) htail.target_new
      · exact hpart hother
    · refine ⟨.onward mem_cons_self hsilent hnew hway, fun other hother hne => ?_⟩
      rcases hother.first_or_later with ⟨-, -, ⟨rfl, rfl⟩ | ⟨rest, rfl, hrest⟩⟩ | hother
      · exact absurd (mem_append_right _ mem_cons_self) hway.target_new
      · exact .along (hbefore rest hrest fun heq => hne (heq ▸ rfl))
      · exact hpart hother
    · refine ⟨hlater hway, fun other hother hne => ?_⟩
      rcases hother.first_or_later with ⟨-, -, ⟨rfl, rfl⟩ | ⟨rest, rfl, hrest⟩⟩ | hother
      · exact absurd (hsubset (mem_append_right _ mem_cons_self)) hway.target_new
      · exact absurd (hover hrest) hway.target_new
      · have hother := hother.avoids hclosed hway.target_new
        exact (hbefore other hother hne).mono (sublist_cons_self _ _)

end

/-! ### What a climb finds -/

/-- A climb finds the tables that contribute and are one step above where it goes. -/
theorem Climb.mem_tables (h : Climb layout foreignKeys contributes steps start last) :
    table ∈ tablesOf last.1 ↔ table ∈ tablesOf start.1 ∨ contributes table = true ∧
      (table ∈ tablesOf steps ∨ ∃ below ∈ last.2, below ∉ start.2 ∧
        table ∈ tablesOf (hops layout foreignKeys below)) := by
  induction h with
  | done => grind [tablesOf]
  | parent hcontributes _ ih =>
    rw [ih, mem_tablesOf_merge]
    grind [tablesOf]
  | visited hsilent _ _ ih =>
    rw [ih]
    grind [tablesOf]
  | climb hsilent hnew habove hrest ihabove ihrest =>
    have hsubset := habove.subset
    have hsubsetRest := hrest.subset
    rw [ihrest, mem_tablesOf_mergeAbove, ihabove]
    grind [tablesOf]

/-- A climb finds a table with the cardinality one if it is one such step above the start, or above
the end of a first way of such steps. -/
theorem Climb.mem_one (h : Climb layout foreignKeys contributes steps start last)
    (hsteps : steps.Nodup) :
    (table, .one) ∈ last.1 ↔ (table, .one) ∈ start.1 ∨ contributes table = true ∧
      ((table, .one) ∈ steps ∨ ∃ path below,
        FirstWay layout foreignKeys contributes start.2 steps path below ∧ OnlyOne path ∧
          (table, .one) ∈ hops layout foreignKeys below) := by
  induction h with
  | done =>
    refine ⟨.inl, fun hfound => hfound.elim id ?_⟩
    rintro ⟨-, hstep | ⟨path, below, hfirst, -⟩⟩
    · cases hstep
    · obtain ⟨hop, -, -, hhop⟩ := hfirst.way.head_mem
      cases hhop
  | parent hcontributes _ ih =>
    rw [ih (nodup_cons.1 hsteps).2, one_mem_merge]
    simp only [firstWay_cons_of_skipped hsteps (.inl hcontributes)]
    grind
  | visited hsilent hvisited _ ih =>
    rw [ih (nodup_cons.1 hsteps).2]
    simp only [firstWay_cons_of_skipped hsteps (.inr hvisited)]
    grind
  | @climb parent cardinality rest _ _ visited seen _ hsilent hnew habove _ ihabove ihrest =>
    have hways : (∃ path below, FirstWay layout foreignKeys contributes visited
        ((parent, cardinality) :: rest) path below ∧ OnlyOne path ∧
          (table, .one) ∈ hops layout foreignKeys below) ↔
        (cardinality = .one ∧ ((table, .one) ∈ hops layout foreignKeys parent ∨
          ∃ path below, FirstWay layout foreignKeys contributes (visited ++ [parent])
            (hops layout foreignKeys parent) path below ∧ OnlyOne path ∧
              (table, .one) ∈ hops layout foreignKeys below)) ∨
        ∃ path below, FirstWay layout foreignKeys contributes seen rest path below ∧ OnlyOne path ∧
          (table, .one) ∈ hops layout foreignKeys below := by
      constructor
      · rintro ⟨path, below, hfirst, hone, htable⟩
        rcases (habove.firstWay_iff hsteps hsilent hnew).1 hfirst with
          ⟨rfl, rfl⟩ | ⟨tail, rfl, htail⟩ | hlater
        · exact .inl ⟨(onlyOne_cons.1 hone).1, .inl htable⟩
        · obtain ⟨hcardinality, hone⟩ := onlyOne_cons.1 hone
          exact .inl ⟨hcardinality, .inr ⟨tail, below, htail, hone, htable⟩⟩
        · exact .inr ⟨path, below, hlater, hone, htable⟩
      · rintro (⟨hcardinality, htable | ⟨tail, below, htail, hone, htable⟩⟩ |
          ⟨path, below, hlater, hone, htable⟩)
        · exact ⟨_, _, (habove.firstWay_iff hsteps hsilent hnew).2 (.inl ⟨rfl, rfl⟩),
            forall_mem_singleton.2 hcardinality, htable⟩
        · have hfirst :=
            (habove.firstWay_iff hsteps hsilent hnew).2 (.inr (.inl ⟨tail, rfl, htail⟩))
          exact ⟨_, below, hfirst, onlyOne_cons.2 ⟨hcardinality, hone⟩, htable⟩
        · have hfirst := (habove.firstWay_iff hsteps hsilent hnew).2 (.inr (.inr hlater))
          exact ⟨path, below, hfirst, hone, htable⟩
    rw [ihrest (nodup_cons.1 hsteps).2, one_mem_mergeAbove, ihabove (nodup_hops _ _ _), hways]
    grind

/-! ### Parents -/

section

variable (layout foreignKeys contributes)

/-- A table is one step of cardinality one above another, or above a table to which the first way is
made of such steps. -/
def SeenAsOne (source table : Nat) : Prop :=
  (table, .one) ∈ hops layout foreignKeys source ∨ ∃ way below,
    FirstWay layout foreignKeys contributes [source] (hops layout foreignKeys source) way below ∧
      OnlyOne way ∧ (table, .one) ∈ hops layout foreignKeys below

end

/-- The parents of a table are the tables that contribute and to which there is a path. -/
theorem mem_tablesOf_parents :
    table ∈ tablesOf (parents layout foreignKeys contributes source) ↔ contributes table = true ∧
      ∃ path, PathTo layout foreignKeys contributes source path table := by
  obtain ⟨seen, hclimb⟩ := climb_parents layout foreignKeys contributes source
  have hfound : table ∈ tablesOf (parents layout foreignKeys contributes source) ↔ _ :=
    hclimb.mem_tables
  simp only [tablesOf, map_nil, not_mem_nil, false_or] at hfound
  refine hfound.trans (and_congr_right fun _ => ⟨?_, ?_⟩)
  · rintro (hstep | ⟨below, hseen, hnew, hstep⟩)
    · obtain ⟨⟨_, cardinality⟩, hhop, rfl⟩ := mem_map.1 hstep
      exact ⟨_, .step hhop⟩
    · obtain ⟨⟨_, cardinality⟩, hhop, rfl⟩ := mem_map.1 hstep
      rcases hclimb.way hseen with hstart | ⟨path, hway⟩
      · exact absurd hstart hnew
      · exact ⟨_, hway.pathTo (List.Subset.refl _) hhop⟩
  · rintro ⟨path, hpath⟩
    have hclosed : Closed layout foreignKeys contributes [] seen := by
      intro below hseen _ hop hhop hsilent
      by_cases heq : below = source
      · subst heq
        exact hclimb.step_mem hhop hsilent
      · exact hclimb.closed below hseen (by simpa using heq) hop hhop hsilent
    obtain ⟨below, hseen, hstep⟩ :=
      hclosed.exists_hop hpath (hclimb.subset (mem_singleton_self source))
    by_cases heq : below = source
    · exact .inl (heq ▸ hstep)
    · exact .inr ⟨below, hseen, by simpa using heq, hstep⟩

theorem one_mem_parents :
    (table, .one) ∈ parents layout foreignKeys contributes source ↔
      contributes table = true ∧ SeenAsOne layout foreignKeys contributes source table := by
  obtain ⟨seen, hclimb⟩ := climb_parents layout foreignKeys contributes source
  have hfound : (table, .one) ∈ parents layout foreignKeys contributes source ↔ _ :=
    hclimb.mem_one (nodup_hops layout foreignKeys source)
  simpa [SeenAsOne] using hfound

/-- What is seen as one has a path of cardinality one. -/
theorem SeenAsOne.path_one (h : SeenAsOne layout foreignKeys contributes source table) :
    ∃ path, PathTo layout foreignKeys contributes source path table ∧ OnlyOne path := by
  rcases h with hhop | ⟨way, below, hfirst, hone, hhop⟩
  · exact ⟨_, .step hhop, forall_mem_singleton.2 rfl⟩
  · refine ⟨_, hfirst.way.pathTo (List.Subset.refl _) hhop, ?_⟩
    exact forall_mem_append.2 ⟨hone, forall_mem_singleton.2 rfl⟩

/-- The parents of a table are listed once each, and they are the tables that contribute and to
which there is a path over tables that contribute nothing. A parent with the cardinality one has a
path that is made of such steps. The converse holds of all tables exactly if each table that
contributes and has such a path is seen as one, that is, along the first way to some table. -/
theorem parents_exact_iff (layout : Layout) (foreignKeys : List ForeignKey)
    (contributes : Nat → Bool) (source : Nat) :
    let found := parents layout foreignKeys contributes source
    let Path := PathTo layout foreignKeys contributes source
    (∀ table, (tablesOf found).count table ≤ 1 ∧
      ((tablesOf found).count table = 1 ↔ contributes table = true ∧ ∃ path, Path path table)) ∧
    (∀ table, (table, .one) ∈ found →
      contributes table = true ∧ ∃ path, Path path table ∧ OnlyOne path) ∧
    ((∀ table, (table, .one) ∈ found ↔
        contributes table = true ∧ ∃ path, Path path table ∧ OnlyOne path) ↔
      ∀ table path, contributes table = true → Path path table → OnlyOne path →
        SeenAsOne layout foreignKeys contributes source table) := by
  intro found Path
  have hlisted : ∀ table, (tablesOf found).count table = if table ∈ tablesOf found then 1 else 0 :=
    fun table => (nodup_parents source).count
  have hsound : ∀ table, (table, .one) ∈ found →
      contributes table = true ∧ ∃ path, Path path table ∧ OnlyOne path :=
    fun table hone => (one_mem_parents.1 hone).imp_right SeenAsOne.path_one
  refine ⟨fun table => ?_, hsound, ?_, ?_⟩
  · rw [hlisted, ← mem_tablesOf_parents]
    split <;> simp_all [found]
  · intro hexact table path hcontributes hpath hone
    exact (one_mem_parents.1 ((hexact table).2 ⟨hcontributes, path, hpath, hone⟩)).2
  · intro hseen table
    refine ⟨hsound table, fun ⟨hcontributes, path, hpath, hone⟩ => ?_⟩
    exact one_mem_parents.2 ⟨hcontributes, hseen table path hcontributes hpath hone⟩

/-- Five tables of which the first and the last contribute. The last is joined to two others, to the
first of them by a column that is not unique, and both are joined to the second table. -/
def diamond : Layout where
  sources :=
    ["a", "b", "c", "d"].map (fun name => ⟨name, name, false, [("id", .primary)], ""⟩) ++
      [⟨"s", "s", false, [("id", .primary), ("fk", .none)], ""⟩]
  links :=
    [⟨1, "id", 0, "id"⟩, ⟨2, "id", 1, "id"⟩, ⟨3, "id", 1, "id"⟩, ⟨4, "fk", 2, "id"⟩,
      ⟨4, "id", 3, "id"⟩]
  items := []
  conjuncts := []

/-- The second way up the diamond is made of steps of cardinality one, but the table where the two
ways meet was climbed over along the first, and so the parent has the cardinality many. -/
theorem parents_diamond_many :
    let contributes := fun source => source == 0 || source == 4
    parents diamond [] contributes 4 = [(0, .many)] ∧
      PathTo diamond [] contributes 4 [(3, .one), (1, .one), (0, .one)] 0 ∧
      OnlyOne [(3, .one), (1, .one), (0, .one)] := by
  intro contributes
  refine ⟨by decide +kernel, ?_, by simp [OnlyOne]⟩
  have hhops : (3, .one) ∈ hops diamond [] 4 ∧ (1, .one) ∈ hops diamond [] 3 ∧
      (0, .one) ∈ hops diamond [] 1 := by
    decide +kernel
  exact .onward hhops.1 rfl (.onward hhops.2.1 rfl (.step hhops.2.2))

end Nested

end SqlSignature

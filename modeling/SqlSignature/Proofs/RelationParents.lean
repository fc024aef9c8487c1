import SqlSignature.Nested
/-!
# SqlSignature.Proofs.RelationParents

The tables above a table. The climb over tables that contribute nothing is described without a bound
(`Nested.Climb`), as a relation whose derivations are the runs that come to an end. Each table is
climbed over once, so the climb always ends, with the parents that are listed
(`Nested.climb_parents`). If joins lead to earlier tables only then so does the climb
(`Nested.parents_lt`), and no table is above itself (`Nested.refers_acyclic`).
-/

open List

namespace SqlSignature

/-- Whether the links of a layout lead to earlier tables. -/
def Layout.LinksBack (layout : Layout) : Prop := ∀ link ∈ layout.links, link.parent < link.child

namespace Nested

/-! ### Merging parents -/

/-- The parents that are recorded after those above a table that is climbed over. -/
def mergeAbove (found : List Parent) (cardinality : Cardinality) (above : List Parent) :
    List Parent :=
  above.foldl (fun found (p, c) => merge found p (cardinality.chain c)) found

/-- The tables among parents. -/
def tablesOf (found : List Parent) : List Nat := found.map Prod.fst

theorem tablesOf_merge (found : List Parent) (parent : Nat) (cardinality : Cardinality) :
    tablesOf (merge found parent cardinality) =
      if parent ∈ tablesOf found then tablesOf found else tablesOf found ++ [parent] := by
  have hany : found.any (·.1 == parent) = true ↔ parent ∈ tablesOf found := by
    simp [tablesOf]
  unfold merge
  by_cases hknown : parent ∈ tablesOf found
  · rw [if_pos (hany.2 hknown), if_pos hknown, tablesOf, map_map]
    rfl
  · rw [if_neg fun h => hknown (hany.1 h), if_neg hknown, tablesOf, map_append]
    rfl

variable {table source : Nat}

theorem mem_tablesOf_merge {found : List Parent} {parent : Nat} {cardinality : Cardinality} :
    table ∈ tablesOf (merge found parent cardinality) ↔
      table ∈ tablesOf found ∨ table = parent := by
  rw [tablesOf_merge]
  split
  next hknown =>
    refine ⟨.inl, fun h => h.elim id fun heq => ?_⟩
    rw [heq]
    exact hknown
  next => simp

theorem nodup_merge {found : List Parent} (h : (tablesOf found).Nodup) (parent : Nat)
    (cardinality : Cardinality) : (tablesOf (merge found parent cardinality)).Nodup := by
  rw [tablesOf_merge]
  split
  next => exact h
  next hnew =>
    refine nodup_append.2 ⟨h, pairwise_singleton _ _, ?_⟩
    intro a ha b hb heq
    exact hnew (mem_singleton.1 hb ▸ heq ▸ ha)

theorem mem_tablesOf_mergeAbove {found above : List Parent} {cardinality : Cardinality} :
    table ∈ tablesOf (mergeAbove found cardinality above) ↔
      table ∈ tablesOf found ∨ table ∈ tablesOf above := by
  induction above generalizing found with
  | nil => simp [mergeAbove, tablesOf]
  | cons parent above ih =>
    rw [mergeAbove, foldl_cons]
    refine ih.trans ?_
    rw [mem_tablesOf_merge, or_assoc]
    simp [tablesOf]

theorem nodup_mergeAbove {found : List Parent} (h : (tablesOf found).Nodup)
    (cardinality : Cardinality) (above : List Parent) :
    (tablesOf (mergeAbove found cardinality above)).Nodup := by
  induction above generalizing found with
  | nil => exact h
  | cons parent above ih => exact ih (nodup_merge h _ _)

/-! ### The climb -/

section

variable (layout : Layout) (foreignKeys : List ForeignKey) (contributes : Nat → Bool)

/-- A climb without a bound: steps up, one after the other, lead from parents that are found and
tables that are visited to others. A table that contributes is a parent. One that does not is
climbed over, unless that has been done. -/
inductive Climb : List Parent → List Parent × List Nat → List Parent × List Nat → Prop
  | done (state : List Parent × List Nat) : Climb [] state state
  | parent {parent : Nat} {cardinality : Cardinality} {rest found : List Parent}
      {visited : List Nat} {last : List Parent × List Nat}
      (hcontributes : contributes parent = true)
      (hrest : Climb rest (merge found parent cardinality, visited) last) :
      Climb ((parent, cardinality) :: rest) (found, visited) last
  | visited {parent : Nat} {cardinality : Cardinality} {rest found : List Parent}
      {visited : List Nat} {last : List Parent × List Nat} (hsilent : contributes parent = false)
      (hvisited : parent ∈ visited) (hrest : Climb rest (found, visited) last) :
      Climb ((parent, cardinality) :: rest) (found, visited) last
  | climb {parent : Nat} {cardinality : Cardinality} {rest found above : List Parent}
      {visited seen : List Nat} {last : List Parent × List Nat}
      (hsilent : contributes parent = false) (hnew : parent ∉ visited)
      (habove : Climb (hops layout foreignKeys parent) ([], visited ++ [parent]) (above, seen))
      (hrest : Climb rest (mergeAbove found cardinality above, seen) last) :
      Climb ((parent, cardinality) :: rest) (found, visited) last

end

variable {layout : Layout} {foreignKeys : List ForeignKey} {contributes : Nat → Bool}
  {steps : List Parent} {start last : List Parent × List Nat}

/-! ### Steps up -/

theorem mem_linkedParents {child : LayoutSource}
    (h : table ∈ tablesOf (linkedParents layout source child)) :
    ∃ link ∈ layout.links, link.child = source ∧ link.parent = table := by
  have hfold : ∀ (links : List JoinLink) (found : List Parent),
      table ∈ tablesOf (links.foldl (fun found link => merge found link.parent
        (if (child.key link.childColumn).isUnique then .one else .many)) found) →
      table ∈ tablesOf found ∨ ∃ link ∈ links, link.parent = table := by
    intro links
    induction links with
    | nil => exact fun found => .inl
    | cons link links ih =>
      intro found hmem
      rcases ih _ hmem with hfirst | ⟨later, hlater, hparent⟩
      · refine (mem_tablesOf_merge.1 hfirst).imp_right fun heq => ?_
        exact ⟨link, mem_cons_self, heq.symm⟩
      · exact .inr ⟨later, mem_cons_of_mem _ hlater, hparent⟩
  rcases hfold _ [] h with hnone | ⟨link, hlink, hparent⟩
  · cases hnone
  · obtain ⟨hmem, hchild⟩ := mem_filter.1 hlink
    exact ⟨link, hmem, by simpa using hchild, hparent⟩

theorem foreignParent?_lt {child : LayoutSource} {parent : Parent}
    (h : foreignParent? layout foreignKeys source child = some parent) :
    parent.1 < source ∧ parent.1 < layout.sources.length := by
  obtain ⟨index, -, h⟩ := Option.bind_eq_some_iff.1 h
  obtain ⟨found, hfound, h⟩ := Option.bind_eq_some_iff.1 h
  cases h
  obtain ⟨hlt, -⟩ := List.getElem?_eq_some_iff.1 hfound
  rw [length_take] at hlt
  exact ⟨by omega, by omega⟩

/-- A step up follows a link, or leads to an earlier table. -/
theorem mem_hops (h : table ∈ tablesOf (hops layout foreignKeys source)) :
    (∃ link ∈ layout.links, link.child = source ∧ link.parent = table) ∨
      (table < source ∧ table < layout.sources.length) := by
  unfold hops at h
  split at h
  next => cases h
  next child hchild =>
    dsimp only at h
    split at h
    next => exact .inl (mem_linkedParents h)
    next =>
      right
      cases hforeign : foreignParent? layout foreignKeys source child with
      | none =>
        rw [hforeign] at h
        cases h
      | some parent =>
        rw [hforeign] at h
        obtain rfl := mem_singleton.1 h
        exact foreignParent?_lt hforeign

/-! ### The end of the climb -/

section

variable (layout foreignKeys contributes)

/-- A step up in a climb with a bound. -/
def stepUp (fuel : Nat) (state : List Parent × List Nat) (hop : Parent) : List Parent × List Nat :=
  if contributes hop.1 then (merge state.1 hop.1 hop.2, state.2)
  else if state.2.contains hop.1 then state
  else
    let above := parentsUpTo layout foreignKeys contributes fuel hop.1 (state.2 ++ [hop.1])
    (mergeAbove state.1 hop.2 above.1, above.2)

theorem parentsUpTo_succ (fuel source : Nat) (visited : List Nat) :
    parentsUpTo layout foreignKeys contributes (fuel + 1) source visited =
      (hops layout foreignKeys source).foldl (stepUp layout foreignKeys contributes fuel)
        ([], visited) := rfl

/-- The tables that steps up can lead to. -/
def candidates : List Nat := layout.links.map JoinLink.parent ++ List.range layout.sources.length

end

/-- How many tables have not been visited. -/
def unvisited (tables visited : List Nat) : Nat := tables.countP fun table => table ∉ visited

theorem mem_candidates (h : table ∈ tablesOf (hops layout foreignKeys source)) :
    table ∈ candidates layout := by
  rcases mem_hops h with ⟨link, hlink, -, rfl⟩ | ⟨-, hlt⟩
  · exact mem_append_left _ (mem_map_of_mem hlink)
  · exact mem_append_right _ (mem_range.2 hlt)

theorem unvisited_mono (tables : List Nat) {visited seen : List Nat} (h : visited ⊆ seen) :
    unvisited tables seen ≤ unvisited tables visited := by
  refine countP_mono_left fun table _ hnew => ?_
  rw [decide_eq_true_iff] at hnew ⊢
  exact fun hmem => hnew (h hmem)

theorem unvisited_append {tables visited : List Nat} (hmem : table ∈ tables)
    (hnew : table ∉ visited) :
    unvisited tables (visited ++ [table]) < unvisited tables visited := by
  obtain ⟨before, after, rfl⟩ := append_of_mem hmem
  have hbefore := unvisited_mono before (subset_append_left visited [table])
  have hafter := unvisited_mono after (subset_append_left visited [table])
  simp only [unvisited, countP_append, countP_cons] at hbefore hafter ⊢
  rw [if_neg (by simp), if_pos (by simpa using hnew)]
  omega

theorem Climb.subset (h : Climb layout foreignKeys contributes steps start last) :
    start.2 ⊆ last.2 := by
  induction h with
  | done => exact List.Subset.refl _
  | parent _ _ ih => exact ih
  | visited _ _ _ ih => exact ih
  | climb _ _ _ _ ihabove ihrest =>
    exact List.Subset.trans (List.Subset.trans (subset_append_left _ _) ihabove) ihrest

/-- Where there is fuel for each table that can still be climbed over, a climb with a bound is a
climb without one. -/
theorem climb_foldl {fuel : Nat}
    (hfuel : ∀ (source : Nat) (visited : List Nat), unvisited (candidates layout) visited < fuel →
      Climb layout foreignKeys contributes (hops layout foreignKeys source) ([], visited)
        (parentsUpTo layout foreignKeys contributes fuel source visited))
    (steps : List Parent) (hsteps : ∀ table ∈ tablesOf steps, table ∈ candidates layout)
    (state : List Parent × List Nat) (hstate : unvisited (candidates layout) state.2 < fuel + 1) :
    Climb layout foreignKeys contributes steps state
      (steps.foldl (stepUp layout foreignKeys contributes fuel) state) := by
  induction steps generalizing state with
  | nil => exact .done state
  | cons hop steps ih =>
    obtain ⟨parent, cardinality⟩ := hop
    obtain ⟨found, visited⟩ := state
    have hrest : ∀ table ∈ tablesOf steps, table ∈ candidates layout :=
      fun table hmem => hsteps table (mem_cons_of_mem _ hmem)
    rw [foldl_cons, stepUp]
    cases hcontributes : contributes parent with
    | true => exact .parent hcontributes (ih hrest _ hstate)
    | false =>
      rw [if_neg (by simp)]
      by_cases hvisited : parent ∈ visited
      · rw [if_pos (by simpa using hvisited)]
        exact .visited hcontributes hvisited (ih hrest _ hstate)
      · rw [if_neg (by simpa using hvisited)]
        have hless := unvisited_append (hsteps parent mem_cons_self) hvisited
        have habove := hfuel parent (visited ++ [parent]) (by dsimp only at hstate; omega)
        have hseen := unvisited_mono (candidates layout)
          (List.Subset.trans (subset_append_left visited [parent]) habove.subset)
        exact .climb hcontributes hvisited habove (ih hrest _ (Nat.lt_of_le_of_lt hseen hstate))

theorem climb_parentsUpTo (fuel source : Nat) (visited : List Nat)
    (hfuel : unvisited (candidates layout) visited < fuel) :
    Climb layout foreignKeys contributes (hops layout foreignKeys source) ([], visited)
      (parentsUpTo layout foreignKeys contributes fuel source visited) := by
  induction fuel generalizing source visited with
  | zero => exact absurd hfuel (Nat.not_lt_zero _)
  | succ fuel ih =>
    rw [parentsUpTo_succ]
    exact climb_foldl ih _ (fun _ => mem_candidates) _ hfuel

variable (layout foreignKeys contributes) in
/-- The climb from a table comes to an end, with the parents that are listed. -/
theorem climb_parents (source : Nat) : ∃ visited,
    Climb layout foreignKeys contributes (hops layout foreignKeys source) ([], [source])
      (parents layout foreignKeys contributes source, visited) := by
  refine ⟨_, climb_parentsUpTo _ source [source] ?_⟩
  have hle : unvisited (candidates layout) [source] ≤ (candidates layout).length :=
    countP_le_length
  have hlength : (candidates layout).length = layout.links.length + layout.sources.length := by
    simp [candidates]
  omega

/-! ### Where the climb leads -/

theorem Climb.nodup (h : Climb layout foreignKeys contributes steps start last)
    (hstart : (tablesOf start.1).Nodup) : (tablesOf last.1).Nodup := by
  induction h with
  | done => exact hstart
  | parent _ _ ih => exact ih (nodup_merge hstart _ _)
  | visited _ _ _ ih => exact ih hstart
  | climb _ _ _ _ _ ihrest => exact ihrest (nodup_mergeAbove hstart _ _)

/-- If links go back then so does every step up. -/
theorem hops_lt (hlinks : layout.LinksBack)
    (h : table ∈ tablesOf (hops layout foreignKeys source)) : table < source := by
  rcases mem_hops h with ⟨link, hlink, rfl, rfl⟩ | ⟨hlt, -⟩
  · exact hlinks link hlink
  · exact hlt

/-- What a climb finds was found before it, or contributes and lies before any bound on its
steps. -/
theorem Climb.found (hlinks : layout.LinksBack)
    (h : Climb layout foreignKeys contributes steps start last) {bound : Nat}
    (hsteps : ∀ table ∈ tablesOf steps, table < bound) (hlast : table ∈ tablesOf last.1) :
    table ∈ tablesOf start.1 ∨ contributes table = true ∧ table < bound := by
  induction h generalizing bound table with
  | done => exact .inl hlast
  | parent hcontributes _ ih =>
    rcases ih (fun t ht => hsteps t (mem_cons_of_mem _ ht)) hlast with hfound | hbefore
    · refine (mem_tablesOf_merge.1 hfound).imp_right fun heq => ?_
      rw [heq]
      exact ⟨hcontributes, hsteps _ mem_cons_self⟩
    · exact .inr hbefore
  | visited _ _ _ ih => exact ih (fun t ht => hsteps t (mem_cons_of_mem _ ht)) hlast
  | climb _ _ _ _ ihabove ihrest =>
    rcases ihrest (fun t ht => hsteps t (mem_cons_of_mem _ ht)) hlast with hfound | hbefore
    · rcases mem_tablesOf_mergeAbove.1 hfound with hknown | habove
      · exact .inl hknown
      -- the steps above a table lie before it, and so before the bound
      · rcases ihabove (fun t ht => hops_lt hlinks ht) habove with hnone | ⟨hcontributes, hlt⟩
        · cases hnone
        · exact .inr ⟨hcontributes, Nat.lt_trans hlt (hsteps _ mem_cons_self)⟩
    · exact .inr hbefore

/-- A parent contributes and stands before the table. -/
theorem parents_lt (hlinks : layout.LinksBack)
    (h : table ∈ tablesOf (parents layout foreignKeys contributes source)) :
    contributes table = true ∧ table < source := by
  obtain ⟨visited, hclimb⟩ := climb_parents layout foreignKeys contributes source
  rcases hclimb.found hlinks (fun t ht => hops_lt hlinks ht) h with hnone | hbefore
  · cases hnone
  · exact hbefore

theorem nodup_parents (source : Nat) :
    (tablesOf (parents layout foreignKeys contributes source)).Nodup := by
  obtain ⟨visited, hclimb⟩ := climb_parents layout foreignKeys contributes source
  exact hclimb.nodup nodup_nil

variable (layout foreignKeys contributes) in
/-- The reference of a table to a relation below it. -/
def Refers (parent child : Nat) : Prop :=
  parent ∈ tablesOf (parents layout foreignKeys contributes child)

/-- No table is above itself, however long the way. -/
theorem refers_acyclic (hlinks : layout.LinksBack) (source : Nat) :
    ¬Relation.TransGen (Refers layout foreignKeys contributes) source source := by
  have hlt : ∀ {table}, Relation.TransGen (Refers layout foreignKeys contributes) source table →
      source < table := by
    intro table hway
    induction hway with
    | single hrefers => exact (parents_lt hlinks hrefers).2
    | tail _ hrefers ih => exact Nat.lt_trans ih (parents_lt hlinks hrefers).2
  exact fun hway => Nat.lt_irrefl source (hlt hway)

end Nested

end SqlSignature

import AccountLint.Proofs.Flow.Dominance

/-! The dominator tree. The blocks on all paths to a block form a chain, so that the closest of them
is the one with the most dominators, in whatever order they are looked at. -/
namespace AccountLint
namespace Graph

/-- A block is on every path from the entry to another. -/
def OnAllPaths (g : Graph) (a b : Int) : Prop := ∀ visited, g.Path b visited → a ∈ visited

namespace OnAllPaths

variable {g : Graph} {a b c : Int}

theorem refl (g : Graph) (b : Int) : g.OnAllPaths b b := fun _ hp => hp.mem_self

theorem entry (g : Graph) (b : Int) : g.OnAllPaths g.entry b := fun _ hp => hp.entry_mem

private theorem trans (hab : g.OnAllPaths a b) (hbc : g.OnAllPaths b c) : g.OnAllPaths a c := by
  intro visited hp
  obtain ⟨after, before, rfl⟩ := List.append_of_mem (hbc visited hp)
  have ha : a ∈ b :: before := hab _ hp.split.1
  exact List.mem_append_right _ ha

theorem reaches (h : g.OnAllPaths a b) (hb : g.Reaches g.entry b) : g.Reaches g.entry a := by
  obtain ⟨visited, hp⟩ := exists_path_iff.mpr hb
  exact exists_path_iff.mp (hp.exists_of_mem (h visited hp))

/-- A block that some path to `b` does not visit after `c` is on all paths to `c`, if it is on all
paths to `b`. -/
theorem of_not_mem_after (h : g.OnAllPaths a b) {after before : List Int}
    (hp : g.Path b (after ++ c :: before)) (ha : a ∉ after) : g.OnAllPaths a c := by
  intro visited hc
  have hhead := hc.head?_eq
  cases visited with
  | nil => simp at hhead
  | cons x before' =>
    have hx : x = c := by simpa using hhead
    subst hx
    have hmem : a ∈ after ++ x :: before' := h _ (hp.split.2 before' hc)
    exact (List.mem_append.mp hmem).resolve_left ha

/-- The blocks on all paths to a block form a chain. -/
theorem total (hb : g.Reaches g.entry b) (ha : g.OnAllPaths a b) (hc : g.OnAllPaths c b) :
    g.OnAllPaths a c ∨ g.OnAllPaths c a := by
  obtain ⟨visited, hp⟩ := exists_path_iff.mpr hb
  obtain ⟨after, before, rfl, hafter⟩ := List.eq_append_cons_of_mem (ha visited hp)
  -- the one of the two that the path visits last has the other one on all paths to it
  by_cases hmem : c ∈ after
  · obtain ⟨last, between, rfl, hlast⟩ := List.eq_append_cons_of_mem hmem
    left
    rw [List.append_assoc] at hp
    apply ha.of_not_mem_after hp
    intro h
    exact hafter (List.mem_append_left _ h)
  · right
    exact hc.of_not_mem_after hp hmem

/-- A block is not on a path if another block and it are on all paths to each other: there would be
no first one of the two. -/
theorem not_mem_of_mutual {visited : List Int} (hp : g.Path c visited) (hne : a ≠ b)
    (hab : g.OnAllPaths a b) (hba : g.OnAllPaths b a) : a ∉ visited := by
  induction hp generalizing a b with
  | entry =>
    intro hmem
    obtain rfl := List.mem_singleton.mp hmem
    have hb : b ∈ [g.entry] := hba _ .entry
    exact hne (List.mem_singleton.mp hb).symm
  | step hp he ih =>
    intro hmem
    rcases List.mem_cons.mp hmem with rfl | hmem
    · rcases List.mem_cons.mp (hba _ (hp.step he)) with rfl | hb
      · exact hne rfl
      · exact ih hne.symm hba hab hb
    · exact ih hne hab hba hmem

private theorem antisymm (ha : g.Reaches g.entry a) (hab : g.OnAllPaths a b)
    (hba : g.OnAllPaths b a) :
    a = b := by
  by_contra hne
  obtain ⟨visited, hp⟩ := exists_path_iff.mpr ha
  exact not_mem_of_mutual hp hne hab hba hp.mem_self

end OnAllPaths

theorem strictlyDominates_eq_true_iff {g : Graph} (hd : g.ids.Nodup) (hne : g.edges ≠ [])
    {a b : Int} :
    g.strictlyDominates a b = true ↔ a ≠ b ∧ g.OnAllPaths a b := by
  unfold strictlyDominates
  rw [Bool.and_eq_true, bne_iff_ne, dominates_eq_true_iff hd hne]
  rfl

section Counting

variable {g : Graph} {a b d : Int}

private theorem nodup_reachable (g : Graph) : g.reachable.Nodup := by
  unfold reachable reachableWithout
  split
  · exact List.nodup_nil
  · exact Flow.nodup_closure List.nodup_nil

theorem mem_reachable_iff (hd : g.ids.Nodup) (hne : g.edges ≠ []) :
    b ∈ g.reachable ↔ g.Reaches g.entry b := by
  rw [← exists_path_iff, ← isReachable_iff hd hne]
  exact List.contains_iff_mem.symm

/-- The dominators of a block that can be reached are the blocks on all paths to it. -/
theorem mem_dominators (hd : g.ids.Nodup) (hne : g.edges ≠ []) (hb : g.Reaches g.entry b) :
    a ∈ g.dominators b ↔ g.OnAllPaths a b := by
  rw [mem_dominators_iff, cutsOff_eq_true_iff hd, isReachable_iff hd hne, exists_path_iff]
  constructor
  · exact fun h => h.2
  · exact fun h => ⟨OnAllPaths.reaches h hb, h⟩

/-- What strictly dominates a block has fewer dominators. -/
theorem length_dominators_lt (hd : g.ids.Nodup) (hne : g.edges ≠ []) (hb : g.Reaches g.entry b)
    (hab : g.OnAllPaths a b) (h : a ≠ b) : (g.dominators a).length < (g.dominators b).length := by
  have ha := hab.reaches hb
  have hnodup : (b :: g.dominators a).Nodup := by
    apply List.nodup_cons.mpr
    constructor
    · intro hmem
      have hba : g.OnAllPaths b a := (mem_dominators hd hne ha).mp hmem
      exact h (hab.antisymm ha hba)
    · exact g.nodup_reachable.filter _
  have hsub : b :: g.dominators a ⊆ g.dominators b := by
    intro c hc
    rw [mem_dominators hd hne hb]
    rcases List.mem_cons.mp hc with rfl | hc
    · exact .refl g c
    · exact ((mem_dominators hd hne ha).mp hc).trans hab
  have hle := hnodup.length_le_of_subset hsub
  rw [List.length_cons] at hle
  omega

end Counting

section Closest

variable {g : Graph} {b d : Int}

/-- The closest of the blocks on all paths to a block, other than itself. -/
structure Closest (g : Graph) (d b : Int) : Prop where
  onAllPaths : g.OnAllPaths d b
  ne : d ≠ b
  of_other : ∀ a, g.OnAllPaths a b → a ≠ b → g.OnAllPaths a d

private theorem greatest?_mem {measure : Int → Nat} {xs : List Int}
    (h : greatest? measure xs = some d) :
    d ∈ xs ∧ ∀ x ∈ xs, measure x ≤ measure d := by
  induction xs generalizing d with
  | nil => cases h
  | cons x xs ih =>
    rw [greatest?] at h
    cases hrest : greatest? measure xs with
    | none =>
      have hxs : xs = [] := by
        by_contra hne
        have hsome : (greatest? measure xs).isSome = true := greatest?_isSome hne
        rw [hrest] at hsome
        cases hsome
      rw [hrest] at h
      obtain rfl : x = d := Option.some.inj h
      simp [hxs]
    | some y =>
      obtain ⟨hy, hmax⟩ := ih hrest
      simp only [hrest] at h
      split at h
      · rename_i hle
        obtain rfl : x = d := Option.some.inj h
        constructor
        · exact List.mem_cons_self
        · intro z hz
          rcases List.mem_cons.mp hz with rfl | hz
          · exact Nat.le_refl _
          · exact Nat.le_trans (hmax z hz) hle
      · rename_i hlt
        obtain rfl : y = d := Option.some.inj h
        constructor
        · exact List.mem_cons_of_mem _ hy
        · intro z hz
          rcases List.mem_cons.mp hz with rfl | hz
          · omega
          · exact hmax z hz

/-- Where one entry has a greater measure than all others, it is found in any order of the entries.
-/
theorem greatest?_eq_some {measure : Int → Nat} {xs : List Int} (hd : d ∈ xs)
    (hmax : ∀ x ∈ xs, x ≠ d → measure x < measure d) : greatest? measure xs = some d := by
  have hsome : (greatest? measure xs).isSome = true := greatest?_isSome (List.ne_nil_of_mem hd)
  obtain ⟨y, hy⟩ := Option.isSome_iff_exists.mp hsome
  obtain ⟨hmem, hle⟩ := greatest?_mem hy
  have hyd : y = d := by
    by_contra hne
    have hlt := hmax y hmem hne
    have hge := hle d hd
    omega
  rw [hy, hyd]

/-- Every block but the entry that can be reached has a closest block on all paths to it. -/
theorem exists_closest (hd : g.ids.Nodup) (hne : g.edges ≠ []) (hb : g.Reaches g.entry b)
    (hentry : b ≠ g.entry) : ∃ d, g.Closest d b := by
  let strict := (g.dominators b).filter (· != b)
  let measure := fun a => (g.dominators a).length
  have hstrict : ∀ a, a ∈ strict ↔ g.OnAllPaths a b ∧ a ≠ b := by
    intro a
    rw [List.mem_filter, mem_dominators hd hne hb, bne_iff_ne]
  have hnonempty : strict ≠ [] :=
    List.ne_nil_of_mem ((hstrict g.entry).mpr ⟨.entry g b, hentry.symm⟩)
  have hsome : (greatest? measure strict).isSome = true := greatest?_isSome hnonempty
  obtain ⟨d, hgreatest⟩ := Option.isSome_iff_exists.mp hsome
  obtain ⟨hmem, hmax⟩ := greatest?_mem hgreatest
  obtain ⟨hdb, hdne⟩ := (hstrict d).mp hmem
  refine ⟨d, hdb, hdne, ?_⟩
  intro a ha hab
  rcases ha.total hb hdb with had | hda
  · exact had
  · by_cases heq : d = a
    · rw [heq]
      exact .refl g a
    · have hlt : measure d < measure a := length_dominators_lt hd hne (ha.reaches hb) hda heq
      have hle : measure a ≤ measure d := hmax a ((hstrict a).mpr ⟨ha, hab⟩)
      omega

/-- The dominators of a block are itself and those of the closest one. -/
theorem Closest.mem_dominators_iff (h : g.Closest d b) (hd : g.ids.Nodup) (hne : g.edges ≠ [])
    (hb : g.Reaches g.entry b) (a : Int) :
    a ∈ g.dominators b ↔ a = b ∨ a ∈ g.dominators d := by
  rw [mem_dominators hd hne hb, mem_dominators hd hne (h.onAllPaths.reaches hb)]
  constructor
  · intro ha
    by_cases hab : a = b
    · exact Or.inl hab
    · exact Or.inr (h.of_other a ha hab)
  · intro ha
    rcases ha with rfl | had
    · exact .refl g a
    · exact had.trans h.onAllPaths

end Closest

section Tables

variable {g : Graph} {table : List (Int × List Int)} {b d : Int}

/-- A table of the blocks that can be reached, each with those that it cuts off, in any order. -/
structure Tabulates (g : Graph) (table : List (Int × List Int)) : Prop where
  keys : (table.map (·.1)).Perm g.reachable
  mem_row : ∀ row ∈ table, ∀ b, b ∈ row.2 ↔ b ∈ g.reachable ∧ g.cutsOff row.1 b = true

private theorem tabulates_dominated (g : Graph) : g.Tabulates g.dominated := by
  constructor
  · simp [dominated, Function.comp_def]
  · intro row hrow b
    obtain ⟨a, _, rfl⟩ := List.mem_map.mp hrow
    simp [cutsOff]

namespace Tabulates

private theorem cuttersIn_perm (h : g.Tabulates table) (hb : b ∈ g.reachable) :
    (cuttersIn table b).Perm (g.dominators b) := by
  have hrows : table.filter (fun row => row.2.contains b) =
      table.filter (fun row => g.cutsOff row.1 b) := by
    apply List.filter_congr
    intro row hrow
    rw [Bool.eq_iff_iff, List.contains_iff_mem, h.mem_row row hrow]
    simp [hb]
  have hkeys : cuttersIn table b = (table.map (·.1)).filter (fun a => g.cutsOff a b) := by
    unfold cuttersIn
    rw [hrows, List.filter_map]
    rfl
  rw [hkeys]
  exact h.keys.filter _

/-- A block that can be reached is on all paths to itself. -/
theorem cuttersIn_ne_nil (h : g.Tabulates table) (hd : g.ids.Nodup) (hne : g.edges ≠ [])
    (hb : g.Reaches g.entry b) : cuttersIn table b ≠ [] := by
  have hmem : b ∈ cuttersIn table b := by
    rw [(h.cuttersIn_perm ((mem_reachable_iff hd hne).mpr hb)).mem_iff, mem_dominators hd hne hb]
    exact .refl g b
  exact List.ne_nil_of_mem hmem

private theorem cuttersIn_eq_nil (h : g.Tabulates table) (hb : b ∉ g.reachable) :
    cuttersIn table b = [] := by
  unfold cuttersIn
  rw [List.map_eq_nil_iff, List.filter_eq_nil_iff]
  intro row hrow hmem
  exact hb ((h.mem_row row hrow b).mp (List.contains_iff_mem.mp hmem)).1

/-- The closest block on all paths to a block has the most dominators of them. -/
theorem greatest?_eq (h : g.Tabulates table) (hd : g.ids.Nodup) (hne : g.edges ≠ [])
    (hb : g.Reaches g.entry b) (hclosest : g.Closest d b) {strict : List Int}
    (hstrict : ∀ a, a ∈ strict ↔ a ∈ cuttersIn table b ∧ a ≠ b) :
    greatest? (fun a => (cuttersIn table a).length) strict = some d := by
  have hmem : ∀ a, a ∈ strict ↔ g.OnAllPaths a b ∧ a ≠ b := by
    intro a
    rw [hstrict, (h.cuttersIn_perm ((mem_reachable_iff hd hne).mpr hb)).mem_iff,
      mem_dominators hd hne hb]
  have hlength : ∀ a, g.OnAllPaths a b → (cuttersIn table a).length = (g.dominators a).length := by
    intro a ha
    exact (h.cuttersIn_perm ((mem_reachable_iff hd hne).mpr (ha.reaches hb))).length_eq
  apply greatest?_eq_some
  · exact (hmem d).mpr ⟨hclosest.onAllPaths, hclosest.ne⟩
  · intro a ha had
    obtain ⟨hab, hne'⟩ := (hmem a).mp ha
    rw [hlength a hab, hlength d hclosest.onAllPaths]
    exact length_dominators_lt hd hne (hclosest.onAllPaths.reaches hb) (hclosest.of_other a hab hne')
      had

private theorem idomIn_eq (h : g.Tabulates table) (hd : g.ids.Nodup) (hne : g.edges ≠ [])
    (hb : g.Reaches g.entry b) (hentry : b ≠ g.entry) (hclosest : g.Closest d b) :
    g.idomIn table b = some d := by
  have hne' : cuttersIn table b ≠ [] := h.cuttersIn_ne_nil hd hne hb
  unfold idomIn
  rw [if_neg (by simpa using hne'), if_neg (by simpa using hentry)]
  apply h.greatest?_eq hd hne hb hclosest
  intro a
  rw [List.mem_filter, bne_iff_ne]

private theorem idomIn_entry (h : g.Tabulates table) (hd : g.ids.Nodup) (hne : g.edges ≠ []) :
    g.idomIn table g.entry = some g.entry := by
  have hne' : cuttersIn table g.entry ≠ [] := h.cuttersIn_ne_nil hd hne .refl
  unfold idomIn
  rw [if_neg (by simpa using hne'), if_pos (by simp)]

private theorem idomIn_eq_none (h : g.Tabulates table) (hb : b ∉ g.reachable) :
    g.idomIn table b = none := by
  unfold idomIn
  simp [h.cuttersIn_eq_nil hb]

end Tabulates

/-- From every block that can be reached, closest dominators lead to the entry: each has fewer
dominators than the one before. -/
theorem climbs_to_entry (hd : g.ids.Nodup) (hne : g.edges ≠ []) (hb : g.Reaches g.entry b) :
    Relation.ReflTransGen (fun x d => g.idom? x = some d) b g.entry := by
  induction hn : (g.dominators b).length using Nat.strongRecOn generalizing b with
  | _ n ih =>
    by_cases hentry : b = g.entry
    · rw [hentry]
    · obtain ⟨d, hclosest⟩ := exists_closest hd hne hb hentry
      have hlt := length_dominators_lt hd hne hb hclosest.onAllPaths hclosest.ne
      have hidom : g.idom? b = some d :=
        g.tabulates_dominated.idomIn_eq hd hne hb hentry hclosest
      have hrest := ih _ (hn ▸ hlt) (hclosest.onAllPaths.reaches hb) rfl
      exact .head hidom hrest

private theorem edges_ne_nil_of_reaches {a : Int} (h : g.Reaches a b) (hne : b ≠ a) :
    g.edges ≠ [] := by
  cases h with
  | refl => exact absurd rfl hne
  | tail _ he =>
    obtain ⟨out, hmem, _⟩ := he
    exact List.ne_nil_of_mem hmem

end Tables

end Graph

namespace Function

/-- In a function that passes validation, the closest dominators of the blocks make up a tree with
the entry at its root. It does not depend on the order in which blocks are taken from sets: neither
when the table of dominators is filled, nor when the one with the most dominators is picked. -/
theorem idom_forms_tree {f : Function} (hf : f.validate = .ok ()) :
    (f.blocks ≠ [] → f.graph.idom? f.entry = some f.entry) ∧
    (∀ b, ¬f.graph.Reaches f.entry b → f.graph.idom? b = none) ∧
    ∀ b, f.graph.Reaches f.entry b → b ≠ f.entry →
      ∃ d, f.graph.idom? b = some d ∧ d ∈ f.graph.ids ∧ f.graph.Reaches f.entry d ∧ d ≠ b ∧
        (∀ a, a ∈ f.graph.dominators b ↔ a = b ∨ a ∈ f.graph.dominators d) ∧
        (∀ a ∈ f.graph.dominators b, f.graph.Reaches f.entry a) ∧
        (∀ a, f.graph.strictlyDominates a b = true → f.graph.dominates a d = true) ∧
        (∀ table, f.graph.Tabulates table →
          (Graph.cuttersIn table b).Perm (f.graph.dominators b) ∧
          f.graph.idomIn table b = some d ∧
          ∀ strict : List Int, (∀ a, a ∈ strict ↔ a ∈ Graph.cuttersIn table b ∧ a ≠ b) →
            Graph.greatest? (fun a => (Graph.cuttersIn table a).length) strict = some d) ∧
        Relation.ReflTransGen (fun x y => f.graph.idom? x = some y) b f.entry := by
  have hvalid := Valid.of_validate hf
  have hd := hvalid.nodup_ids
  have htable := f.graph.tabulates_dominated
  refine ⟨?_, ?_, ?_⟩
  · intro hblocks
    have hne : f.graph.edges ≠ [] := by simpa [graph] using hblocks
    exact htable.idomIn_entry hd hne
  · intro b hb
    apply htable.idomIn_eq_none
    intro hmem
    have hne : f.graph.edges ≠ [] := by
      intro hedges
      simp [Graph.reachable, hedges] at hmem
    exact hb ((Graph.mem_reachable_iff hd hne).mp hmem)
  · intro b hb hentry
    have hne := Graph.edges_ne_nil_of_reaches hb hentry
    obtain ⟨d, hclosest⟩ := Graph.exists_closest hd hne hb hentry
    have hreached := hclosest.onAllPaths.reaches hb
    refine ⟨d, htable.idomIn_eq hd hne hb hentry hclosest, ?_, hreached, hclosest.ne,
      hclosest.mem_dominators_iff hd hne hb, ?_, ?_, ?_, Graph.climbs_to_entry hd hne hb⟩
    · apply hvalid.mem_ids_of_reaches _ hreached
      simpa [graph] using hne
    · intro a ha
      exact ((Graph.mem_dominators hd hne hb).mp ha).reaches hb
    · intro a ha
      rw [Graph.strictlyDominates_eq_true_iff hd hne] at ha
      rw [Graph.dominates_eq_true_iff hd hne]
      exact hclosest.of_other a ha.2 ha.1
    · intro table htab
      refine ⟨htab.cuttersIn_perm ((Graph.mem_reachable_iff hd hne).mpr hb),
        htab.idomIn_eq hd hne hb hentry hclosest, ?_⟩
      intro strict hstrict
      exact htab.greatest?_eq hd hne hb hclosest hstrict

theorem idom_forms_tree_twoEntryLoop :
    twoEntryLoop.validate = .ok () ∧ twoEntryLoop.blocks ≠ [] ∧
      twoEntryLoop.graph.idom? 0 = some 0 ∧ ¬twoEntryLoop.graph.Reaches 0 4 ∧
      twoEntryLoop.graph.idom? 4 = none ∧ twoEntryLoop.graph.Reaches 0 3 ∧
      twoEntryLoop.graph.Tabulates twoEntryLoop.graph.dominated.reverse ∧
      (∃ d, twoEntryLoop.graph.idom? 3 = some d ∧ d = 1 ∧
        twoEntryLoop.graph.idomIn twoEntryLoop.graph.dominated.reverse 3 = some d ∧
        ∀ a, a ∈ twoEntryLoop.graph.dominators 3 ↔ a = 3 ∨ a ∈ twoEntryLoop.graph.dominators d) ∧
      Relation.ReflTransGen (fun x y => twoEntryLoop.graph.idom? x = some y) 3 0 := by
  have hf : twoEntryLoop.validate = .ok () := rfl
  have hblocks : twoEntryLoop.blocks ≠ [] := by decide
  have hfirst : twoEntryLoop.graph.Edge 0 1 := ⟨[1, 2], by decide, by decide⟩
  have hsecond : twoEntryLoop.graph.Edge 1 3 := ⟨[2, 3], by decide, by decide⟩
  have hreached : twoEntryLoop.graph.Reaches 0 3 := .tail (.single hfirst) hsecond
  have hunreached : ¬twoEntryLoop.graph.Reaches 0 4 := by
    intro h
    cases h with
    | tail _ he =>
      obtain ⟨out, hmem, hout⟩ := he
      have hnone : ∀ e ∈ twoEntryLoop.graph.edges, 4 ∉ e.2 := by decide
      exact hnone _ hmem hout
  have htable : twoEntryLoop.graph.Tabulates twoEntryLoop.graph.dominated.reverse := by
    obtain ⟨hkeys, hrow⟩ := twoEntryLoop.graph.tabulates_dominated
    constructor
    · rw [List.map_reverse]
      exact (List.reverse_perm _).trans hkeys
    · exact fun row hmem => hrow row (List.mem_reverse.mp hmem)
  obtain ⟨hroot, hnone, htree⟩ := idom_forms_tree hf
  obtain ⟨d, hd, _, _, _, hdominators, _, _, htables, hclimb⟩ := htree 3 hreached (by decide)
  have hone : twoEntryLoop.graph.idom? 3 = some 1 := by
    simp [twoEntryLoop, Function.graph, Graph.idom?, Graph.idomIn, Graph.dominated, Graph.cuttersIn,
      Graph.greatest?, Graph.reachable, Graph.reachableWithout, Graph.targets, Graph.successors,
      Graph.successors?, Flow.closure, List.lookup_cons]
  exact ⟨hf, hblocks, hroot hblocks, hunreached, hnone 4 hunreached, hreached, htable,
    ⟨d, hd, Option.some.inj (hd.symm.trans hone), (htables _ htable).2.1, hdominators⟩, hclimb⟩

end Function

end AccountLint

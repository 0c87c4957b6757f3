import AccountLint.Proofs.Flow.DominatorTree

/-! Natural loops. The backward search from the source of a back edge finds the blocks from which
the source can be reached past the header, and the header is on all paths to them. Those of them
that can be reached are on cycles inside the loop; a block that cannot be reached need not be on
any. -/
namespace AccountLint
namespace Graph

variable {g : Graph} {a b d s : Int}

/-- A path leads from a block to another without visiting a third one. -/
inductive ReachesPast (g : Graph) (d : Int) : Int → Int → Prop where
  | self {b : Int} (hb : b ≠ d) : ReachesPast g d b b
  | step {a b c : Int} (ha : a ≠ d) (he : g.Edge a b) (h : ReachesPast g d b c) : ReachesPast g d a c

private theorem ReachesPast.ne (h : g.ReachesPast d b s) : b ≠ d := by
  cases h <;> assumption

private theorem mem_predecessors_iff : a ∈ g.predecessors b ↔ g.Edge a b := by
  unfold predecessors Edge
  rw [List.mem_map]
  constructor
  · rintro ⟨⟨x, out⟩, hmem, rfl⟩
    obtain ⟨hedge, hout⟩ := List.mem_filter.mp hmem
    exact ⟨out, hedge, List.contains_iff_mem.mp hout⟩
  · rintro ⟨out, hedge, hout⟩
    exact ⟨(a, out), List.mem_filter.mpr ⟨hedge, List.contains_iff_mem.mpr hout⟩, rfl⟩

private theorem Edge.mem_ids (h : g.Edge a b) : a ∈ g.ids := by
  obtain ⟨out, hmem, _⟩ := h
  exact List.mem_map.mpr ⟨(a, out), hmem, rfl⟩

/-- The backward search that stops at the header finds the blocks from which the source can be
reached past the header. -/
theorem mem_closure_predecessors_iff (hs : s ∈ g.ids) (hne : s ≠ d) :
    b ∈ Flow.closure g.predecessors g.ids [d] [] [s] ↔ g.ReachesPast d b s := by
  constructor
  · intro h
    refine Flow.closure_induction (P := fun b => g.ReachesPast d b s) ?_ ?_ ?_ b h
    · intro x hx
      cases hx
    · intro x hx _
      obtain rfl := List.mem_singleton.mp hx
      exact .self hne
    · intro x hx y hy hyd
      have hyd' : y ≠ d := fun heq => hyd (List.mem_singleton.mpr heq)
      exact .step hyd' (mem_predecessors_iff.mp hy) hx
  · intro h
    induction h with
    | self hb =>
      exact Flow.mem_closure_of_mem_work List.mem_cons_self hs (fun h => hb (List.mem_singleton.mp h))
    | step ha he _ ih =>
      refine Flow.closure_closed ?_ (ih hs hne) (mem_predecessors_iff.mpr he) he.mem_ids
        (fun h => ha (List.mem_singleton.mp h))
      intro x hx
      cases hx

private theorem mem_naturalLoop_iff (hs : s ∈ g.ids) :
    b ∈ g.naturalLoop (s, d) ↔ b = d ∨ g.ReachesPast d b s := by
  unfold naturalLoop
  by_cases heq : s = d
  · have hnone : ¬g.ReachesPast d b s := by
      intro h
      induction h with
      | self hb => exact hb heq
      | step _ _ _ ih => exact ih hs heq
    simp [heq, heq ▸ hnone]
  · simp only [beq_iff_eq, heq, if_false, List.mem_cons, mem_closure_predecessors_iff hs heq]

/-- The header of a loop is on all paths to the blocks of the loop: a path around it would go on to
the source of the back edge. -/
theorem OnAllPaths.of_reachesPast (hd : g.OnAllPaths d s) (h : g.ReachesPast d b s) :
    g.OnAllPaths d b := by
  induction h with
  | self _ => exact hd
  | step _ he h ih =>
    intro visited hp
    have hmem := ih hd _ (hp.step he)
    exact (List.mem_cons.mp hmem).resolve_left h.ne.symm

private theorem mem_backEdges_iff (hd : g.ids.Nodup) (hne : g.edges ≠ []) :
    (s, d) ∈ g.backEdges ↔ g.Edge s d ∧ g.Reaches g.entry s ∧ g.OnAllPaths d s := by
  have hmem : (s, d) ∈ g.backEdges ↔ s ∈ g.reachable ∧ d ∈ g.successors s ∧ g.dominates d s = true := by
    unfold backEdges sortInts
    simp only [List.mem_flatMap, mem_sortBy, List.mem_map, List.mem_filter, Prod.mk.injEq]
    constructor
    · rintro ⟨x, hx, y, hy, rfl, rfl⟩
      exact ⟨hx, hy⟩
    · rintro ⟨hs, hy⟩
      exact ⟨s, hs, d, hy, rfl, rfl⟩
  rw [hmem, mem_reachable_iff hd hne, mem_successors_iff hd, dominates_eq_true_iff hd hne]
  exact and_left_comm

private theorem map_fst_naturalLoops (g : Graph) :
    g.naturalLoops.map Prod.fst = distinct g.backEdges := by
  simp [naturalLoops, Function.comp_def]

private theorem lookup_naturalLoops (h : (s, d) ∈ g.backEdges) :
    g.naturalLoops.lookup (s, d) = some (g.naturalLoop (s, d)) := by
  apply lookup_of_mem
  · rw [map_fst_naturalLoops]
    exact nodup_distinct _
  · exact List.mem_map.mpr ⟨(s, d), mem_distinct.mpr h, rfl⟩

private theorem mem_loopBlocks_iff :
    b ∈ g.loopBlocks ↔ ∃ s d, (s, d) ∈ g.backEdges ∧ b ∈ g.naturalLoop (s, d) := by
  unfold loopBlocks naturalLoops
  rw [mem_distinct, List.mem_flatMap]
  constructor
  · rintro ⟨row, hrow, hb⟩
    obtain ⟨⟨s, d⟩, hedge, rfl⟩ := List.mem_map.mp hrow
    exact ⟨s, d, mem_distinct.mp hedge, hb⟩
  · rintro ⟨s, d, hedge, hb⟩
    exact ⟨_, List.mem_map.mpr ⟨(s, d), mem_distinct.mpr hedge, rfl⟩, hb⟩

/-- An edge between two blocks of a loop. -/
def EdgeWithin (g : Graph) (body : List Int) (a b : Int) : Prop := g.Edge a b ∧ a ∈ body ∧ b ∈ body

section Cycles

variable {body : List Int} (hbody : ∀ b, b ∈ body ↔ b = d ∨ g.ReachesPast d b s)

include hbody

private theorem source_mem : s ∈ body := by
  by_cases hsd : s = d
  · exact (hbody s).mpr (Or.inl hsd)
  · exact (hbody s).mpr (Or.inr (.self hsd))

private theorem ReachesPast.within (h : g.ReachesPast d b s) :
    Relation.ReflTransGen (g.EdgeWithin body) b s := by
  induction h with
  | self _ => exact .refl
  | step ha he h ih =>
    have hstart := (hbody _).mpr (Or.inr (.step ha he h))
    have hnext := (hbody _).mpr (Or.inr h)
    exact .head ⟨he, hstart, hnext⟩ (ih hbody)

/-- A path from the entry to a block of the loop comes through the header, and from there on it
stays inside the loop. -/
theorem Path.within {visited : List Int} (hp : g.Path b visited) (hd : g.OnAllPaths d s)
    (hb : b ∈ body) : Relation.ReflTransGen (g.EdgeWithin body) d b := by
  induction hp with
  | entry =>
    rcases (hbody _).mp hb with rfl | hpast
    · exact .refl
    · have hmem := hd.of_reachesPast hpast _ .entry
      rw [List.mem_singleton.mp hmem]
  | @step a b _ _ he ih =>
    rcases (hbody _).mp hb with rfl | hpast
    · exact .refl
    · have ha : a ∈ body := by
        by_cases had : a = d
        · exact (hbody a).mpr (Or.inl had)
        · exact (hbody a).mpr (Or.inr (.step had he hpast))
      exact (ih ha).tail ⟨he, ha, hb⟩

/-- From a block of the loop that can be reached, the source of the back edge can be reached inside
the loop; from there the back edge leads to the header, and the header leads to the block. -/
theorem cycle_within (he : g.Edge s d) (hs : g.Reaches g.entry s) (hd : g.OnAllPaths d s)
    (hb : b ∈ body) (hr : g.Reaches g.entry b) : Relation.TransGen (g.EdgeWithin body) b b := by
  have hhead : d ∈ body := (hbody d).mpr (Or.inl rfl)
  have hsource : s ∈ body := source_mem hbody
  obtain ⟨visited, hp⟩ := exists_path_iff.mpr hs
  obtain ⟨visited', hp'⟩ := exists_path_iff.mpr hr
  have hforth : Relation.ReflTransGen (g.EdgeWithin body) b s := by
    rcases (hbody b).mp hb with rfl | hpast
    · exact hp.within hbody hd hsource
    · exact hpast.within hbody
  have hround : Relation.TransGen (g.EdgeWithin body) b d := .tail' hforth ⟨he, hsource, hhead⟩
  exact hround.trans_left (hp'.within hbody hd hb)

end Cycles

private theorem ReachesPast.reaches (h : g.ReachesPast d b s) : g.Reaches b s := by
  induction h with
  | self _ => exact .refl
  | step _ he _ ih => exact .head he ih

end Graph

namespace Function

variable {f : Function}

private theorem Valid.mem_backEdges_iff (hf : f.Valid) {s d : Int} :
    (s, d) ∈ f.graph.backEdges ↔
      f.graph.Edge s d ∧ f.graph.Reaches f.entry s ∧ f.graph.OnAllPaths d s := by
  by_cases hne : f.graph.edges = []
  · have hnone : ¬f.graph.Edge s d := by
      rintro ⟨out, hmem, _⟩
      simp [hne] at hmem
    simp [Graph.backEdges, Graph.reachable, hne, hnone, sortInts, sortBy]
  · exact Graph.mem_backEdges_iff hf.nodup_ids hne

/-- In a function that passes validation, the back edges are the edges from blocks that can be
reached to blocks on all paths to them. The natural loop of each is its target, the header, and the
blocks from which its source can be reached past the header; and the header is on all paths to these
blocks. -/
theorem naturalLoops_of_validate (hf : f.validate = .ok ()) :
    (∀ s d, (s, d) ∈ f.graph.backEdges ↔
      f.graph.Edge s d ∧ f.graph.Reaches f.entry s ∧ f.graph.OnAllPaths d s) ∧
    (f.graph.naturalLoops.map Prod.fst).Nodup ∧
    (∀ e, e ∈ f.graph.naturalLoops.map Prod.fst ↔ e ∈ f.graph.backEdges) ∧
    ∀ s d, (s, d) ∈ f.graph.backEdges → ∃ body, f.graph.naturalLoops.lookup (s, d) = some body ∧
      (∀ b, b ∈ body ↔ b = d ∨ f.graph.ReachesPast d b s) ∧
      ∀ b ∈ body, f.graph.OnAllPaths d b ∧ f.graph.dominates d b = true := by
  have hvalid := Valid.of_validate hf
  refine ⟨fun s d => hvalid.mem_backEdges_iff, ?_, ?_, ?_⟩
  · rw [Graph.map_fst_naturalLoops]
    exact nodup_distinct _
  · intro e
    rw [Graph.map_fst_naturalLoops, mem_distinct]
  · intro s d hedge
    obtain ⟨he, _, hd⟩ := hvalid.mem_backEdges_iff.mp hedge
    have hbody : ∀ b, b ∈ f.graph.naturalLoop (s, d) ↔ b = d ∨ f.graph.ReachesPast d b s :=
      fun b => Graph.mem_naturalLoop_iff he.mem_ids
    refine ⟨_, Graph.lookup_naturalLoops hedge, hbody, ?_⟩
    intro b hb
    have honall : f.graph.OnAllPaths d b := by
      rcases (hbody b).mp hb with rfl | hpast
      · exact .refl _ b
      · exact hd.of_reachesPast hpast
    have hne : f.graph.edges ≠ [] := by
      obtain ⟨out, hmem, _⟩ := he
      exact List.ne_nil_of_mem hmem
    exact ⟨honall, (Graph.dominates_eq_true_iff hvalid.nodup_ids hne).mpr honall⟩

/-- A block that is a loop by itself inside of a loop of three blocks, and a block that cannot be
reached and leads into the outer loop. -/
def nestedLoops : Function :=
  { name := "f", blocks := [{ id := 0, successors := [1] }, { id := 1, successors := [2] },
      { id := 2, successors := [2, 3] }, { id := 3, successors := [1, 4] }, { id := 4 },
      { id := 5, successors := [3] }] }

private theorem naturalLoops_nestedLoops :
    nestedLoops.graph.naturalLoops = [((2, 2), [2]), ((3, 1), [1, 5, 2, 3])] := by
  simp [nestedLoops, graph, Graph.naturalLoops, Graph.naturalLoop, Graph.backEdges, Graph.dominates,
    Graph.cutsOff, Graph.isReachable, Graph.reachable, Graph.reachableWithout, Graph.targets,
    Graph.successors, Graph.successors?, Graph.predecessors, Graph.ids, Flow.closure, List.lookup_cons,
    sortInts, sortBy, insertBy, distinct, addNew]

private theorem not_edge_nestedLoops (a : Int) : ¬nestedLoops.graph.Edge a 5 := by
  rintro ⟨out, hmem, hout⟩
  have hnone : ∀ e ∈ nestedLoops.graph.edges, 5 ∉ e.2 := by decide
  exact hnone _ hmem hout

theorem naturalLoops_of_validate_nested :
    nestedLoops.validate = .ok () ∧ (3, 1) ∈ nestedLoops.graph.backEdges ∧
      ∃ body, nestedLoops.graph.naturalLoops.lookup (3, 1) = some body ∧ body = [1, 5, 2, 3] ∧
        nestedLoops.graph.ReachesPast 1 5 3 ∧ ¬nestedLoops.graph.ReachesPast 1 4 3 ∧
        nestedLoops.graph.OnAllPaths 1 2 := by
  have hf : nestedLoops.validate = .ok () := rfl
  obtain ⟨_, _, hkeys, hloops⟩ := naturalLoops_of_validate hf
  have hedge : (3, 1) ∈ nestedLoops.graph.backEdges := by
    rw [← hkeys, naturalLoops_nestedLoops]
    decide
  obtain ⟨body, hlookup, hbody, hhead⟩ := hloops 3 1 hedge
  have heq : body = [1, 5, 2, 3] := by
    rw [naturalLoops_nestedLoops] at hlookup
    exact (Option.some.inj hlookup).symm
  subst heq
  refine ⟨hf, hedge, _, hlookup, rfl, ?_, ?_, (hhead 2 (by decide)).1⟩
  · exact ((hbody 5).mp (by decide)).resolve_left (by decide)
  · intro hpast
    have hmem := (hbody 4).mpr (Or.inr hpast)
    revert hmem
    decide

/-- In a function that passes validation, a block of a loop that can be reached is on a cycle inside
of that loop. A block of a loop that cannot be reached leads to the source of the back edge, which
is. -/
theorem loopBlocks_cycle (hf : f.validate = .ok ()) {b : Int} (hb : b ∈ f.graph.loopBlocks) :
    ∃ s d body, f.graph.naturalLoops.lookup (s, d) = some body ∧ b ∈ body ∧
      (f.graph.Reaches f.entry b → Relation.TransGen (f.graph.EdgeWithin body) b b) ∧
      (¬f.graph.Reaches f.entry b → Relation.TransGen f.graph.Edge b s ∧
        Relation.TransGen (f.graph.EdgeWithin body) s s) := by
  obtain ⟨s, d, hedge, hmem⟩ := Graph.mem_loopBlocks_iff.mp hb
  obtain ⟨he, hs, hd⟩ := (Valid.of_validate hf).mem_backEdges_iff.mp hedge
  have hbody : ∀ b, b ∈ f.graph.naturalLoop (s, d) ↔ b = d ∨ f.graph.ReachesPast d b s :=
    fun b => Graph.mem_naturalLoop_iff he.mem_ids
  have hcycle : ∀ c ∈ f.graph.naturalLoop (s, d), f.graph.Reaches f.entry c →
      Relation.TransGen (f.graph.EdgeWithin (f.graph.naturalLoop (s, d))) c c :=
    fun c hc hr => Graph.cycle_within hbody he hs hd hc hr
  refine ⟨s, d, _, Graph.lookup_naturalLoops hedge, hmem, hcycle b hmem, ?_⟩
  intro hdead
  have hpast : f.graph.ReachesPast d b s := by
    rcases (hbody b).mp hmem with rfl | hpast
    · exact absurd (hd.reaches hs) hdead
    · exact hpast
  refine ⟨?_, hcycle s (Graph.source_mem hbody) hs⟩
  rcases Relation.reflTransGen_iff_eq_or_transGen.mp hpast.reaches with rfl | htrans
  · exact absurd hs hdead
  · exact htrans

private theorem loopBlocks_nestedLoops {b : Int} :
    b ∈ nestedLoops.graph.loopBlocks ↔ b ∈ [2, 1, 5, 2, 3] := by
  unfold Graph.loopBlocks
  rw [naturalLoops_nestedLoops, mem_distinct]
  simp

theorem loopBlocks_cycle_nested :
    nestedLoops.validate = .ok () ∧ 1 ∈ nestedLoops.graph.loopBlocks ∧
      5 ∈ nestedLoops.graph.loopBlocks ∧ nestedLoops.graph.Reaches 0 1 ∧
      ¬nestedLoops.graph.Reaches 0 5 ∧
      (∃ body, Relation.TransGen (nestedLoops.graph.EdgeWithin body) 1 1) ∧
      ∃ s body, Relation.TransGen nestedLoops.graph.Edge 5 s ∧
        Relation.TransGen (nestedLoops.graph.EdgeWithin body) s s := by
  have hf : nestedLoops.validate = .ok () := rfl
  have hone : 1 ∈ nestedLoops.graph.loopBlocks := loopBlocks_nestedLoops.mpr (by decide)
  have hfive : 5 ∈ nestedLoops.graph.loopBlocks := loopBlocks_nestedLoops.mpr (by decide)
  have hreached : nestedLoops.graph.Reaches 0 1 := .single ⟨[1], by decide, by decide⟩
  have hdead : ¬nestedLoops.graph.Reaches 0 5 := by
    intro h
    cases h with
    | tail _ he => exact not_edge_nestedLoops _ he
  obtain ⟨_, _, body, _, _, hcycle, _⟩ := loopBlocks_cycle hf hone
  obtain ⟨s, _, body', _, _, _, hleads⟩ := loopBlocks_cycle hf hfive
  exact ⟨hf, hone, hfive, hreached, hdead, ⟨body, hcycle hreached⟩, s, body', hleads hdead⟩

/-- A block that cannot be reached counts as part of a loop that it leads to, also if it is on no
cycle. -/
theorem loopBlocks_off_cycle :
    nestedLoops.validate = .ok () ∧ 5 ∈ nestedLoops.graph.loopBlocks ∧
      ¬Relation.TransGen nestedLoops.graph.Edge 5 5 := by
  refine ⟨rfl, loopBlocks_nestedLoops.mpr (by decide), ?_⟩
  intro h
  obtain ⟨c, _, he⟩ := Relation.TransGen.tail'_iff.mp h
  exact not_edge_nestedLoops c he

end Function
end AccountLint

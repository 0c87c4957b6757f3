import AccountLint.Flow.Order
import AccountLint.Proofs.Flow.DominatorTree

/-! The order in which blocks are visited. While the search runs, its stack is a path from the
entry. So a block is left after all that its edges lead to, but for blocks from which it can be
reached again, and it is left before all other blocks on all paths to it. -/
namespace AccountLint

def Precedes (order : List Int) (a b : Int) : Prop := [a, b].Sublist order

namespace Precedes

variable {order more : List Int} {a b : Int}

private theorem cons (h : Precedes order a b) (c : Int) :
    Precedes (c :: order) a b := List.Sublist.cons c h

private theorem of_mem (h : b ∈ order) : Precedes (a :: order) a b :=
  List.Sublist.cons_cons a (List.singleton_sublist.mpr h)

private theorem append_right (h : Precedes order a b) : Precedes (order ++ more) a b :=
  h.trans (List.sublist_append_left order more)

private theorem append (ha : a ∈ order) (hb : b ∈ more) : Precedes (order ++ more) a b :=
  (List.singleton_sublist.mpr ha).append (List.singleton_sublist.mpr hb)

private theorem mem (h : Precedes order a b) : a ∈ order ∧ b ∈ order :=
  ⟨h.subset (by simp), h.subset (by simp)⟩

/-- In a list without repetition, nothing comes before what comes before it. -/
theorem asymm (hd : order.Nodup) (h : Precedes order a b) : ¬Precedes order b a := by
  induction order with
  | nil => cases h
  | cons c order ih =>
    obtain ⟨hc, hd⟩ := List.nodup_cons.mp hd
    intro h'
    cases h with
    | cons _ h =>
      cases h' with
      | cons _ h' => exact ih hd h h'
      | cons_cons _ h' => exact hc (mem h).2
    | cons_cons _ h =>
      cases h' with
      | cons _ h' => exact hc (mem h').2
      | cons_cons _ h' => exact hc (List.singleton_sublist.mp h)

theorem mem_before {before after : List Int} (hd : (before ++ b :: after).Nodup)
    (h : Precedes (before ++ b :: after) a b) : a ∈ before := by
  by_contra ha
  rcases List.mem_append.mp h.mem.1 with hbefore | hmem
  · exact ha hbefore
  · rcases List.mem_cons.mp hmem with rfl | hafter
    · exact h.asymm hd h
    · have hback : Precedes (b :: after) b a := .of_mem hafter
      exact h.asymm hd (hback.trans (List.sublist_append_right before _))

end Precedes

namespace Graph

variable {g : Graph} {visited order : List Int} {stack : List (Int × List Int)} {b c : Int}
  {out next : List Int}

/-- What is kept during a search. The stack is a path from the entry to the block on top, the blocks
visited are those on the stack and those left, and of the blocks on the stack all edges have been
followed but those that the stack holds. -/
structure Searching (g : Graph) (visited order : List Int) (stack : List (Int × List Int)) : Prop where
  path : ∀ b rest, stack.map (·.1) = b :: rest → g.Path b (b :: rest)
  visited_iff : ∀ b, b ∈ visited ↔ b ∈ stack.map (·.1) ∨ b ∈ order
  nodup : (stack.map (·.1) ++ order).Nodup
  entry : g.entry ∈ visited
  reached : ∀ b ∈ visited, g.Reaches g.entry b
  edge : ∀ e ∈ stack, ∀ c ∈ e.2, g.Edge e.1 c
  followed : ∀ e ∈ stack, ∀ c, g.Edge e.1 c → c ∈ e.2 ∨ c ∈ visited
  closed : ∀ b ∈ order, ∀ c, g.Edge b c → c ∈ visited
  forward : ∀ b ∈ order, ∀ c, g.Edge b c → Precedes order b c ∨ g.Reaches c b
  dominated : ∀ b ∈ order, ∀ a, g.OnAllPaths a b → a ≠ b →
    a ∈ stack.map (·.1) ∨ Precedes order a b

private theorem successors?_isSome (h : b ∈ g.ids) : ∃ out, g.successors? b = some out := by
  obtain ⟨e, he, rfl⟩ := List.mem_map.mp h
  cases hl : g.successors? e.1 with
  | some out => exact ⟨out, rfl⟩
  | none =>
    have := List.lookup_eq_none_iff.mp hl e (List.mem_reverse.mpr he)
    simp at this

private theorem mem_successors?_iff (hd : g.ids.Nodup) (hnext : g.successors? b = some next)
    (c : Int) :
    c ∈ next ↔ g.Edge b c := by
  rw [← mem_successors_iff hd, successors, hnext]
  rfl

namespace Searching

private theorem start (hd : g.ids.Nodup) (hnext : g.successors? g.entry = some next) :
    g.Searching [g.entry] [] [(g.entry, next)] := by
  have hedge : ∀ c, c ∈ next ↔ g.Edge g.entry c := mem_successors?_iff hd hnext
  constructor
  · intro b rest h
    obtain ⟨rfl, rfl⟩ := List.cons.inj h
    exact .entry
  · simp
  · simp
  · simp
  · intro b hb
    rw [List.mem_singleton.mp hb]
    exact .refl
  · intro e he c hc
    rw [List.mem_singleton.mp he] at hc ⊢
    exact (hedge c).mp hc
  · intro e he c hc
    rw [List.mem_singleton.mp he] at hc ⊢
    exact Or.inl ((hedge c).mpr hc)
  · simp
  · simp
  · simp

/-- Leaving a block all of whose edges have been followed. What they lead to was left before or is
on the stack, and from there the block can be reached. -/
theorem leave (h : g.Searching visited order ((b, []) :: stack)) :
    g.Searching visited (b :: order) stack := by
  have hpath : g.Path b (b :: stack.map (·.1)) := h.path b _ rfl
  have hfollowed : ∀ c, g.Edge b c → c ∈ visited := fun c hc =>
    (h.followed _ List.mem_cons_self c hc).resolve_left List.not_mem_nil
  constructor
  · intro c rest hrest
    rw [hrest] at hpath
    cases hpath with
    | step hp he =>
      have hhead := hp.head?_eq
      obtain rfl : c = _ := by simpa using hhead
      exact hp
  · intro c
    rw [h.visited_iff c]
    simp only [List.map_cons, List.mem_cons]
    tauto
  · have hperm : (stack.map (·.1) ++ b :: order).Perm (b :: stack.map (·.1) ++ order) :=
      List.perm_middle
    exact hperm.nodup_iff.mpr h.nodup
  · exact h.entry
  · exact h.reached
  · exact fun e he => h.edge e (List.mem_cons_of_mem _ he)
  · exact fun e he => h.followed e (List.mem_cons_of_mem _ he)
  · intro a ha c hc
    rcases List.mem_cons.mp ha with rfl | ha
    · exact hfollowed c hc
    · exact h.closed a ha c hc
  · intro a ha c hc
    rcases List.mem_cons.mp ha with rfl | ha
    · rcases (h.visited_iff c).mp (hfollowed c hc) with hstack | horder
      · exact Or.inr (hpath.reaches hstack)
      · exact Or.inl (.of_mem horder)
    · exact (h.forward a ha c hc).imp_left fun hp => hp.cons b
  · intro c hc a ha hne
    rcases List.mem_cons.mp hc with rfl | horder
    · have hmem : a ∈ c :: stack.map (·.1) := ha _ hpath
      exact Or.inl ((List.mem_cons.mp hmem).resolve_left hne)
    · rcases h.dominated c horder a ha hne with hstack | hp
      · rcases List.mem_cons.mp hstack with rfl | hstack
        · exact Or.inr (.of_mem horder)
        · exact Or.inl hstack
      · exact Or.inr (hp.cons b)

/-- Passing over an edge to a block that was visited before. -/
theorem skip (h : g.Searching visited order ((b, c :: out) :: stack)) (hc : c ∈ visited) :
    g.Searching visited order ((b, out) :: stack) := by
  constructor
  · exact h.path
  · exact h.visited_iff
  · exact h.nodup
  · exact h.entry
  · exact h.reached
  · intro e he d hd
    rcases List.mem_cons.mp he with rfl | he
    · exact h.edge _ List.mem_cons_self d (List.mem_cons_of_mem _ hd)
    · exact h.edge e (List.mem_cons_of_mem _ he) d hd
  · intro e he d hd
    rcases List.mem_cons.mp he with rfl | he
    · rcases h.followed _ List.mem_cons_self d hd with hout | hvisited
      · rcases List.mem_cons.mp hout with rfl | hout
        · exact Or.inr hc
        · exact Or.inl hout
      · exact Or.inr hvisited
    · exact h.followed e (List.mem_cons_of_mem _ he) d hd
  · exact h.closed
  · exact h.forward
  · exact h.dominated

/-- Following an edge to a block that was not visited before. -/
theorem enter (hd : g.ids.Nodup) (h : g.Searching visited order ((b, c :: out) :: stack))
    (hc : c ∉ visited) (hnext : g.successors? c = some next) :
    g.Searching (c :: visited) order ((c, next) :: (b, out) :: stack) := by
  have hbc : g.Edge b c := h.edge _ List.mem_cons_self c List.mem_cons_self
  have hpath : g.Path b (b :: stack.map (·.1)) := h.path b _ rfl
  have hedge : ∀ d, d ∈ next ↔ g.Edge c d := mem_successors?_iff hd hnext
  have hb : b ∈ visited := (h.visited_iff b).mpr (Or.inl List.mem_cons_self)
  constructor
  · intro d rest hrest
    obtain ⟨rfl, rfl⟩ := List.cons.inj hrest
    exact hpath.step hbc
  · intro d
    have hvisited := h.visited_iff d
    simp only [List.map_cons, List.mem_cons] at hvisited ⊢
    tauto
  · have hnew : c ∉ b :: stack.map (·.1) ++ order := by
      intro hmem
      exact hc ((h.visited_iff c).mpr (List.mem_append.mp hmem))
    exact List.nodup_cons.mpr ⟨hnew, h.nodup⟩
  · exact List.mem_cons_of_mem _ h.entry
  · intro d hmem
    rcases List.mem_cons.mp hmem with rfl | hmem
    · exact (h.reached b hb).tail hbc
    · exact h.reached d hmem
  · intro e he d hmem
    rcases List.mem_cons.mp he with rfl | he
    · exact (hedge d).mp hmem
    · rcases List.mem_cons.mp he with rfl | he
      · exact h.edge _ List.mem_cons_self d (List.mem_cons_of_mem _ hmem)
      · exact h.edge e (List.mem_cons_of_mem _ he) d hmem
  · intro e he d hmem
    rcases List.mem_cons.mp he with rfl | he
    · exact Or.inl ((hedge d).mpr hmem)
    · rcases List.mem_cons.mp he with rfl | he
      · rcases h.followed _ List.mem_cons_self d hmem with hout | hvisited
        · rcases List.mem_cons.mp hout with rfl | hout
          · exact Or.inr List.mem_cons_self
          · exact Or.inl hout
        · exact Or.inr (List.mem_cons_of_mem _ hvisited)
      · exact (h.followed e (List.mem_cons_of_mem _ he) d hmem).imp_right (List.mem_cons_of_mem _)
  · exact fun a ha d hmem => List.mem_cons_of_mem _ (h.closed a ha d hmem)
  · exact h.forward
  · intro d hmem a ha hne
    exact (h.dominated d hmem a ha hne).imp_left (List.mem_cons_of_mem _)

/-- A search among edges that lead to blocks of the graph comes to an end. -/
theorem search (hd : g.ids.Nodup) (hclosed : ∀ e ∈ g.edges, ∀ c ∈ e.2, c ∈ g.ids)
    (h : g.Searching visited order stack) :
    ∃ visited' order', g.search visited order stack = .ok (visited', order') ∧
      g.Searching visited' order' [] := by
  fun_induction Graph.search g visited order stack with
  | case1 visited order => exact ⟨visited, order, rfl, h⟩
  | case2 visited order b stack ih => exact ih h.leave
  | case3 visited order b c out stack hv ih => exact ih (h.skip (List.contains_iff_mem.mp hv))
  | case4 visited order b c out stack hv hnone =>
    obtain ⟨targets, hmem, hc⟩ : g.Edge b c := h.edge _ List.mem_cons_self c List.mem_cons_self
    obtain ⟨next, hnext⟩ := successors?_isSome (hclosed _ hmem c hc)
    cases hnone.symm.trans hnext
  | case5 visited order b c out stack hv next hnext ih =>
    exact ih (h.enter hd (fun hc => hv (List.contains_iff_mem.mpr hc)) hnext)

end Searching

/-- The blocks that can be reached, in an order that goes along with paths. -/
structure FollowsPaths (g : Graph) (order : List Int) : Prop where
  nodup : order.Nodup
  mem_iff : ∀ b, b ∈ order ↔ g.Reaches g.entry b
  forward : ∀ b ∈ order, ∀ c, g.Edge b c → Precedes order b c ∨ g.Reaches c b
  dominated : ∀ b ∈ order, ∀ a, g.OnAllPaths a b → a ≠ b → Precedes order a b

/-- When the stack is empty, all blocks that can be reached have been left. -/
theorem Searching.followsPaths (h : g.Searching visited order []) : g.FollowsPaths order := by
  have hvisited : ∀ b, b ∈ visited ↔ b ∈ order := by
    intro b
    simpa using h.visited_iff b
  constructor
  · simpa using h.nodup
  · intro b
    constructor
    · intro hb
      exact h.reached b ((hvisited b).mpr hb)
    · intro hb
      induction hb with
      | refl => exact (hvisited _).mp h.entry
      | tail _ he ih => exact (hvisited _).mp (h.closed _ ih _ he)
  · exact h.forward
  · intro b hb a ha hne
    simpa using h.dominated b hb a ha hne

private theorem FollowsPaths.head?_eq (h : g.FollowsPaths order) : order.head? = some g.entry := by
  have hentry : g.entry ∈ order := (h.mem_iff g.entry).mpr .refl
  cases order with
  | nil => cases hentry
  | cons b rest =>
    rw [List.head?_cons, Option.some.injEq]
    by_contra hne
    -- the entry is on all paths to the first block, and so would come before it
    have hfirst : Precedes (b :: rest) g.entry b :=
      h.dominated b List.mem_cons_self g.entry (.entry g b) (Ne.symm hne)
    have hrest : g.entry ∈ rest := (List.mem_cons.mp hentry).resolve_left (Ne.symm hne)
    exact hfirst.asymm h.nodup (.of_mem hrest)

/-- An order of the blocks that can be reached, and behind them the other blocks as they come. -/
def withOthers (g : Graph) (order : List Int) : List Int :=
  order ++ g.ids.filter fun b => !order.contains b

namespace FollowsPaths

variable (h : g.FollowsPaths order)

include h

theorem nodup_withOthers (hd : g.ids.Nodup) : (g.withOthers order).Nodup := by
  apply List.nodup_append'.mpr
  refine ⟨h.nodup, hd.filter _, ?_⟩
  intro b hb hother
  have hnot : b ∉ order := by simpa using (List.mem_filter.mp hother).2
  exact hnot hb

theorem mem_withOthers (hids : ∀ b, g.Reaches g.entry b → b ∈ g.ids) (b : Int) :
    b ∈ g.withOthers order ↔ b ∈ g.ids := by
  constructor
  · intro hb
    rcases List.mem_append.mp hb with hb | hb
    · exact hids b ((h.mem_iff b).mp hb)
    · exact (List.mem_filter.mp hb).1
  · intro hb
    by_cases hmem : b ∈ order
    · exact List.mem_append_left _ hmem
    · apply List.mem_append_right
      simp [hb, hmem]

theorem precedes_other {a b : Int} (ha : g.Reaches g.entry a) (hb : b ∈ g.ids)
    (hother : ¬g.Reaches g.entry b) : Precedes (g.withOthers order) a b := by
  have hmem : b ∉ order := fun hmem => hother ((h.mem_iff b).mp hmem)
  apply Precedes.append ((h.mem_iff a).mpr ha)
  simp [hb, hmem]

theorem precedes_dominated {a b : Int} (hb : g.Reaches g.entry b) (hab : g.OnAllPaths a b)
    (hne : a ≠ b) : Precedes (g.withOthers order) a b :=
  (h.dominated b ((h.mem_iff b).mpr hb) a hab hne).append_right

end FollowsPaths

/-- The blocks that can be reached are visited in an order that goes along with paths, and then the
others. -/
theorem visitOrder_eq_ok (hd : g.ids.Nodup) (hclosed : ∀ e ∈ g.edges, ∀ c ∈ e.2, c ∈ g.ids)
    (hentry : g.entry ∈ g.ids) :
    ∃ order, g.FollowsPaths order ∧ g.visitOrder = .ok (g.withOthers order) := by
  obtain ⟨next, hnext⟩ := successors?_isSome hentry
  obtain ⟨visited, order, hsearch, h⟩ := (Searching.start hd hnext).search hd hclosed
  have hedges : g.edges.isEmpty = false := by
    rw [List.isEmpty_eq_false_iff]
    exact List.ne_nil_of_mem (mem_edges_of_successors? hnext)
  have hsame : ∀ b, visited.contains b = order.contains b := by
    intro b
    rw [Bool.eq_iff_iff, List.contains_iff_mem, List.contains_iff_mem]
    simpa using h.visited_iff b
  refine ⟨order, h.followsPaths, ?_⟩
  unfold visitOrder
  rw [hedges, hnext]
  simp only [Bool.false_eq_true, if_false, hsearch, hsame, bind, Except.bind, pure, Except.pure]
  rfl

end Graph

namespace Function

theorem Valid.visitOrder_eq_ok {f : Function} (hf : f.Valid) (hblocks : f.blocks ≠ []) :
    ∃ order, f.graph.FollowsPaths order ∧ f.graph.visitOrder = .ok (f.graph.withOthers order) :=
  Graph.visitOrder_eq_ok hf.nodup_ids hf.edges_closed (hf.mem_ids_iff.mpr (hf.entry hblocks))

/-- The blocks of a function are visited, and nothing else. -/
theorem Valid.exists_visitOrder {f : Function} (hf : f.Valid) :
    ∃ order, f.graph.visitOrder = .ok order ∧ ∀ b, b ∈ order ↔ b ∈ f.graph.ids := by
  by_cases hblocks : f.blocks = []
  · refine ⟨[], ?_, ?_⟩
    · simp [Graph.visitOrder, graph, hblocks]
    · simp [Graph.ids, graph, hblocks]
  · obtain ⟨order, h, horder⟩ := hf.visitOrder_eq_ok hblocks
    exact ⟨_, horder, h.mem_withOthers fun b => hf.mem_ids_of_reaches hblocks⟩

/-- In a function that passes validation, blocks are visited in an order that is sound for one pass.
-/
theorem visitOrder_respects_flow {f : Function} (hf : f.validate = .ok ())
    (hblocks : f.blocks ≠ []) :
    ∃ order, f.graph.visitOrder = .ok order ∧
      order.Nodup ∧ (∀ b, b ∈ order ↔ b ∈ f.graph.ids) ∧ order.head? = some f.entry ∧
      (∃ reached others, order = reached ++ others ∧ (∀ b, b ∈ reached ↔ f.graph.Reaches f.entry b) ∧
        (∀ b ∈ others, ¬f.graph.Reaches f.entry b) ∧ others.Pairwise (· < ·)) ∧
      (∀ u v, f.graph.Reaches f.entry u → f.graph.Edge u v →
        Precedes order u v ∨ f.graph.Reaches v u) ∧
      ∀ a b, f.graph.Reaches f.entry b → f.graph.strictlyDominates a b = true →
        Precedes order a b := by
  have hvalid := Valid.of_validate hf
  have hd := hvalid.nodup_ids
  have hne : f.graph.edges ≠ [] := by simpa [graph] using hblocks
  obtain ⟨reached, h, horder⟩ := hvalid.visitOrder_eq_ok hblocks
  refine ⟨f.graph.withOthers reached, horder, h.nodup_withOthers hd,
    h.mem_withOthers (fun b => hvalid.mem_ids_of_reaches hblocks), ?_,
    ⟨reached, _, rfl, h.mem_iff, ?_, ?_⟩, ?_, ?_⟩
  · unfold Graph.withOthers
    rw [List.head?_append, h.head?_eq]
    rfl
  · intro b hb hr
    have hnot : b ∉ reached := by simpa using (List.mem_filter.mp hb).2
    exact hnot ((h.mem_iff b).mpr hr)
  · apply List.Pairwise.filter
    rw [hvalid.ids_eq, List.pairwise_map]
    exact List.pairwise_lt_range.imp Int.ofNat_lt.mpr
  · intro u v hu huv
    exact (h.forward u ((h.mem_iff u).mpr hu) v huv).imp_left Precedes.append_right
  · intro a b hb hab
    rw [Graph.strictlyDominates_eq_true_iff hd hne] at hab
    exact h.precedes_dominated hb hab.2 hab.1

theorem visitOrder_respects_flow_twoEntryLoop :
    twoEntryLoop.validate = .ok () ∧ twoEntryLoop.blocks ≠ [] ∧ twoEntryLoop.graph.Reaches 0 3 ∧
      twoEntryLoop.graph.strictlyDominates 1 3 = true ∧ twoEntryLoop.graph.Reaches 0 2 ∧
      twoEntryLoop.graph.Edge 2 1 ∧
      ∃ order, twoEntryLoop.graph.visitOrder = .ok order ∧ order = [0, 1, 3, 2, 4] ∧
        Precedes order 1 3 ∧ (Precedes order 2 1 ∨ twoEntryLoop.graph.Reaches 1 2) := by
  have hf : twoEntryLoop.validate = .ok () := rfl
  have hblocks : twoEntryLoop.blocks ≠ [] := by decide
  have hfirst : twoEntryLoop.graph.Edge 0 1 := ⟨[1, 2], by decide, by decide⟩
  have hother : twoEntryLoop.graph.Edge 0 2 := ⟨[1, 2], by decide, by decide⟩
  have hsecond : twoEntryLoop.graph.Edge 1 3 := ⟨[2, 3], by decide, by decide⟩
  have hback : twoEntryLoop.graph.Edge 2 1 := ⟨[1], by decide, by decide⟩
  have hthree : twoEntryLoop.graph.Reaches 0 3 := .tail (.single hfirst) hsecond
  have htwo : twoEntryLoop.graph.Reaches 0 2 := .single hother
  have hdominates : twoEntryLoop.graph.strictlyDominates 1 3 = true := by
    simp [twoEntryLoop, Function.graph, Graph.strictlyDominates, Graph.dominates, Graph.cutsOff,
      Graph.isReachable, Graph.reachable, Graph.reachableWithout, Graph.targets, Graph.successors,
      Graph.successors?, Flow.closure, List.lookup_cons]
  have hvalue : twoEntryLoop.graph.visitOrder.toOption = some [0, 1, 3, 2, 4] := by decide +kernel
  obtain ⟨order, horder, _, _, _, _, hedges, hdominated⟩ := visitOrder_respects_flow hf hblocks
  have heq : order = [0, 1, 3, 2, 4] := Except.ok.inj (horder.symm.trans (ok_of_toOption hvalue))
  exact ⟨hf, hblocks, hthree, hdominates, htwo, hback, order, horder, heq,
    hdominated 1 3 hthree hdominates, hedges 2 1 htwo hback⟩

end Function

end AccountLint

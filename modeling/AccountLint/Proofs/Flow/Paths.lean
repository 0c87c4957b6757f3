import Mathlib.Logic.Relation
import AccountLint.Flow.Graph
import AccountLint.Proofs.Sorting

/-! Paths of a control flow graph. The search for what can be reached without passing through
removed blocks finds exactly the ends of the paths that avoid them. -/
namespace AccountLint

namespace Flow

variable {next : Int → List Int} {all blocked : List Int}

private theorem mem_closure_of_mem_seen {seen work : List Int} {x : Int} (h : x ∈ seen) :
    x ∈ closure next all blocked seen work := by
  fun_induction closure next all blocked seen work with
  | case1 seen => exact h
  | case2 seen y work hy ih => exact ih (List.mem_cons_of_mem _ h)
  | case3 seen y work hy ih => exact ih h

theorem mem_closure_of_mem_work {seen work : List Int} {x : Int} (h : x ∈ work) (ha : x ∈ all)
    (hb : x ∉ blocked) : x ∈ closure next all blocked seen work := by
  fun_induction closure next all blocked seen work with
  | case1 seen => cases h
  | case2 seen y work hy ih =>
    rcases List.mem_cons.mp h with rfl | h
    · exact mem_closure_of_mem_seen List.mem_cons_self
    · exact ih (List.mem_append_right _ h)
  | case3 seen y work hy ih =>
    rcases List.mem_cons.mp h with rfl | h
    · have hs : x ∈ seen := by
        by_contra hs
        exact hy ⟨ha, hb, hs⟩
      exact mem_closure_of_mem_seen hs
    · exact ih h

/-- Nothing is found twice. -/
theorem nodup_closure {seen work : List Int} (h : seen.Nodup) :
    (closure next all blocked seen work).Nodup := by
  fun_induction closure next all blocked seen work with
  | case1 seen => exact h
  | case2 seen y work hy ih => exact ih (List.nodup_cons.mpr ⟨hy.2.2, h⟩)
  | case3 seen y work hy ih => exact ih h

/-- What one step leads to from the nodes seen is seen as well or still in the work list. -/
def Pending (next : Int → List Int) (all blocked seen work : List Int) : Prop :=
  ∀ x ∈ seen, ∀ y ∈ next x, y ∈ all → y ∉ blocked → y ∈ seen ∨ y ∈ work

/-- What is found is closed under steps. -/
theorem closure_closed {seen work : List Int} (h : Pending next all blocked seen work) {x y : Int}
    (hx : x ∈ closure next all blocked seen work) (hy : y ∈ next x) (ha : y ∈ all)
    (hb : y ∉ blocked) : y ∈ closure next all blocked seen work := by
  fun_induction closure next all blocked seen work with
  | case1 seen =>
    rcases h x hx y hy ha hb with hs | hw
    · exact hs
    · cases hw
  | case2 seen z work hz ih =>
    refine ih ?_ hx
    intro u hu v hv hva hvb
    rcases List.mem_cons.mp hu with rfl | hu
    · exact Or.inr (List.mem_append_left _ hv)
    · rcases h u hu v hv hva hvb with hs | hw
      · exact Or.inl (List.mem_cons_of_mem _ hs)
      · rcases List.mem_cons.mp hw with rfl | hw
        · exact Or.inl List.mem_cons_self
        · exact Or.inr (List.mem_append_right _ hw)
  | case3 seen z work hz ih =>
    refine ih ?_ hx
    intro u hu v hv hva hvb
    rcases h u hu v hv hva hvb with hs | hw
    · exact Or.inl hs
    · rcases List.mem_cons.mp hw with rfl | hw
      · have hs : v ∈ seen := by
          by_contra hs
          exact hz ⟨hva, hvb, hs⟩
        exact Or.inl hs
      · exact Or.inr hw

/-- What holds of the start and is kept by steps holds of all that is found. -/
theorem closure_induction {P : Int → Prop} {seen work : List Int} (hs : ∀ x ∈ seen, P x)
    (hw : ∀ x ∈ work, x ∉ blocked → P x)
    (hn : ∀ x, P x → ∀ y ∈ next x, y ∉ blocked → P y) :
    ∀ x ∈ closure next all blocked seen work, P x := by
  fun_induction closure next all blocked seen work with
  | case1 seen => exact hs
  | case2 seen z work hz ih =>
    have hz' : P z := hw z List.mem_cons_self hz.2.1
    refine ih ?_ ?_
    · intro x hx
      rcases List.mem_cons.mp hx with rfl | hx
      · exact hz'
      · exact hs x hx
    · intro x hx hxb
      rcases List.mem_append.mp hx with hx | hx
      · exact hn z hz' x hx hxb
      · exact hw x (List.mem_cons_of_mem _ hx) hxb
  | case3 seen z work hz ih =>
    exact ih hs fun x hx hxb => hw x (List.mem_cons_of_mem _ hx) hxb

end Flow

namespace Graph

def Edge (g : Graph) (a b : Int) : Prop := ∃ out, (a, out) ∈ g.edges ∧ b ∈ out

/-- A path from the entry to a block, as the blocks that it visits, the last one first. It may be of
any length and visit blocks again. -/
inductive Path (g : Graph) : Int → List Int → Prop where
  | entry : Path g g.entry [g.entry]
  | step {a b : Int} {visited : List Int} (h : Path g a visited) (he : g.Edge a b) :
      Path g b (b :: visited)

theorem Path.mem_self {g : Graph} {b : Int} {visited : List Int} (h : g.Path b visited) :
    b ∈ visited := by
  cases h <;> exact List.mem_cons_self

theorem Path.entry_mem {g : Graph} {b : Int} {visited : List Int} (h : g.Path b visited) :
    g.entry ∈ visited := by
  induction h with
  | entry => exact List.mem_cons_self
  | step _ _ ih => exact List.mem_cons_of_mem _ ih

/-- A block can be reached from another along edges. -/
def Reaches (g : Graph) : Int → Int → Prop := Relation.ReflTransGen g.Edge

theorem Path.head?_eq {g : Graph} {b : Int} {visited : List Int} (h : g.Path b visited) :
    visited.head? = some b := by
  cases h <;> rfl

/-- From every block on a path its end can be reached. -/
theorem Path.reaches {g : Graph} {b c : Int} {visited : List Int} (h : g.Path b visited)
    (hc : c ∈ visited) : g.Reaches c b := by
  induction h with
  | entry =>
    rw [List.mem_singleton.mp hc]
    exact .refl
  | step hp he ih =>
    rcases List.mem_cons.mp hc with rfl | hc
    · exact .refl
    · exact (ih hc).tail he

theorem exists_path_iff {g : Graph} {b : Int} :
    (∃ visited, g.Path b visited) ↔ g.Reaches g.entry b := by
  constructor
  · intro h
    obtain ⟨visited, hp⟩ := h
    exact hp.reaches hp.entry_mem
  · intro h
    induction h with
    | refl => exact ⟨_, .entry⟩
    | tail _ he ih =>
      obtain ⟨visited, hp⟩ := ih
      exact ⟨_, hp.step he⟩

/-- What a path has visited up to one of its blocks is a path, and any other path to that block can
take its place. -/
theorem Path.split {g : Graph} {b c : Int} {after before : List Int}
    (h : g.Path b (after ++ c :: before)) :
    g.Path c (c :: before) ∧
      ∀ before', g.Path c (c :: before') → g.Path b (after ++ c :: before') := by
  generalize hv : after ++ c :: before = visited at h
  induction h generalizing after with
  | entry =>
    cases after with
    | nil =>
      obtain ⟨rfl, rfl⟩ := List.cons.inj hv
      exact ⟨.entry, fun _ h => h⟩
    | cons x after => simp at hv
  | step hp he ih =>
    cases after with
    | nil =>
      obtain ⟨rfl, rfl⟩ := List.cons.inj hv
      exact ⟨hp.step he, fun _ h => h⟩
    | cons x after =>
      obtain ⟨rfl, hrest⟩ := List.cons.inj hv
      obtain ⟨hfront, hother⟩ := ih hrest
      exact ⟨hfront, fun before' h => (hother before' h).step he⟩

private theorem Edge.mem_targets {g : Graph} {a b : Int} (h : g.Edge a b) : b ∈ g.targets := by
  obtain ⟨out, hm, hb⟩ := h
  exact List.mem_flatMap.mpr ⟨(a, out), hm, hb⟩

/-- In a graph where every block has one entry, the last one that counts is the only one. -/
theorem successors?_eq_some {g : Graph} (hd : g.ids.Nodup) {a : Int} {out : List Int}
    (h : (a, out) ∈ g.edges) : g.successors? a = some out := by
  have hk : (g.edges.reverse.map Prod.fst).Nodup := by
    rw [List.map_reverse]
    exact List.nodup_reverse.mpr hd
  exact lookup_of_mem hk (List.mem_reverse.mpr h)

private theorem mem_edges_of_mem_successors {g : Graph} {a b : Int} (h : b ∈ g.successors a) :
    g.Edge a b := by
  unfold successors at h
  cases hs : g.successors? a with
  | none => simp [hs] at h
  | some out =>
    rw [hs] at h
    exact ⟨out, List.mem_reverse.mp (mem_of_lookup hs), h⟩

theorem mem_successors_iff {g : Graph} (hd : g.ids.Nodup) {a b : Int} :
    b ∈ g.successors a ↔ g.Edge a b := by
  constructor
  · exact mem_edges_of_mem_successors
  · rintro ⟨out, hm, hb⟩
    unfold successors
    rw [successors?_eq_some hd hm]
    exact hb

private theorem exists_path_of_mem_reachableWithout {g : Graph} {removed : List Int} {b : Int}
    (h : b ∈ g.reachableWithout removed) :
    ∃ visited, g.Path b visited ∧ ∀ c ∈ visited, c ∉ removed := by
  refine Flow.closure_induction (P := fun b => ∃ visited, g.Path b visited ∧ ∀ c ∈ visited, c ∉ removed)
    ?_ ?_ ?_ b h
  · intro x hx
    cases hx
  · intro x hx hr
    obtain rfl := List.mem_singleton.mp hx
    exact ⟨_, .entry, fun c hc => List.mem_singleton.mp hc ▸ hr⟩
  · rintro x ⟨visited, hp, ha⟩ y hy hr
    refine ⟨_, hp.step (mem_edges_of_mem_successors hy), ?_⟩
    intro c hc
    rcases List.mem_cons.mp hc with rfl | hc
    · exact hr
    · exact ha c hc

private theorem Path.mem_reachableWithout {g : Graph} (hd : g.ids.Nodup) {removed : List Int}
    {b : Int} {visited : List Int} (h : g.Path b visited) (ha : ∀ c ∈ visited, c ∉ removed) :
    b ∈ g.reachableWithout removed := by
  induction h with
  | entry =>
    exact Flow.mem_closure_of_mem_work List.mem_cons_self List.mem_cons_self
      (ha _ List.mem_cons_self)
  | step hp he ih =>
    have hx := ih fun c hc => ha c (List.mem_cons_of_mem _ hc)
    refine Flow.closure_closed ?_ hx ((mem_successors_iff hd).mpr he)
      (List.mem_cons_of_mem _ he.mem_targets) (ha _ List.mem_cons_self)
    intro x hx
    cases hx

/-- The search without some blocks finds the ends of the paths that avoid them. -/
theorem mem_reachableWithout_iff {g : Graph} (hd : g.ids.Nodup) {removed : List Int} {b : Int} :
    b ∈ g.reachableWithout removed ↔
      ∃ visited, g.Path b visited ∧ ∀ c ∈ visited, c ∉ removed := by
  constructor
  · exact exists_path_of_mem_reachableWithout
  · rintro ⟨visited, hp, ha⟩
    exact hp.mem_reachableWithout hd ha

/-- The more blocks are removed, the fewer can be reached. -/
theorem reachableWithout_subset {g : Graph} {removed larger : List Int}
    (hs : ∀ c ∈ removed, c ∈ larger) :
    ∀ b ∈ g.reachableWithout larger, b ∈ g.reachableWithout removed := by
  refine Flow.closure_induction ?_ ?_ ?_
  · intro x hx
    cases hx
  · intro x hx hr
    obtain rfl := List.mem_singleton.mp hx
    exact Flow.mem_closure_of_mem_work List.mem_cons_self List.mem_cons_self fun h => hr (hs _ h)
  · intro x hx y hy hr
    have hin : y ∈ g.entry :: g.targets :=
      List.mem_cons_of_mem _ (mem_edges_of_mem_successors hy).mem_targets
    refine Flow.closure_closed ?_ hx hy hin fun h => hr (hs _ h)
    intro x hx
    cases hx

/-- A path stays a path when there are more edges. -/
theorem Path.mono {g g' : Graph} (hentry : g.entry = g'.entry)
    (hedges : ∀ a b, g.Edge a b → g'.Edge a b) {b : Int} {visited : List Int} (h : g.Path b visited) :
    g'.Path b visited := by
  induction h with
  | entry =>
    rw [hentry]
    exact .entry
  | step _ he ih => exact ih.step (hedges _ _ he)

theorem isReachable_iff {g : Graph} (hd : g.ids.Nodup) (hne : g.edges ≠ []) {b : Int} :
    g.isReachable b = true ↔ ∃ visited, g.Path b visited := by
  have he : g.edges.isEmpty = false := by simpa using hne
  unfold isReachable reachable
  rw [he, List.contains_iff_mem]
  simp only [Bool.false_eq_true, if_false]
  rw [mem_reachableWithout_iff hd]
  constructor
  · rintro ⟨visited, hp, _⟩
    exact ⟨visited, hp⟩
  · rintro ⟨visited, hp⟩
    exact ⟨visited, hp, fun _ _ => List.not_mem_nil⟩

end Graph
end AccountLint

import Mathlib.Dynamics.PeriodicPts.Defs
import AccountLint.Alias.Aliases
import AccountLint.Proofs.Checked

/-! Chains of assignments. A variable and the place that it was assigned are taken for one place,
and so are the two ends of a chain of assignments. The exception are variables that were assigned to
each other in a circle: every one of them is taken for a place of its own. -/
namespace AccountLint

namespace AccessPath

private theorem extend_extend (p : AccessPath) (steps more : List Value) :
    (p.extend steps).extend more = p.extend (steps ++ more) := by
  unfold extend
  rw [List.append_assoc]

private theorem withoutDerefs_extend (p : AccessPath) (steps : List Value) :
    (p.extend steps).withoutDerefs = p.withoutDerefs.extend (steps.filter (· != derefStep)) := by
  unfold withoutDerefs extend
  rw [List.filter_append]

end AccessPath

namespace Aliases

variable {a : Aliases} {p src : AccessPath} {r : Value} {seen : List Value}

/-- The root that one assignment leads to; a root that stands for nothing leads to itself. -/
def next (a : Aliases) (r : Value) : Value := ((a.source? r).map (·.root)).getD r

/-- A root that stands for a place, and that assignments lead back to. -/
def Cyclic (a : Aliases) (r : Value) : Prop :=
  (a.source? r).isSome = true ∧ r ∈ Function.periodicPts a.next

/-- A path leads to those that it becomes when its root is replaced by what it stands for, any
number of times. -/
inductive Leads (a : Aliases) : AccessPath → AccessPath → Prop where
  | refl (p : AccessPath) : Leads a p p
  | step {p src q : AccessPath} (hsrc : a.source? p.root = some src)
      (hrest : Leads a (src.extend p.projections) q) : Leads a p q

private theorem next_of_source? (h : a.source? r = some src) : a.next r = src.root := by
  unfold next
  rw [h]
  rfl

private theorem next_of_none (h : a.source? r = none) : a.next r = r := by
  unfold next
  rw [h]
  rfl

theorem expand_of_mem (h : p.root ∈ seen) : a.expand seen p = p := by
  rw [expand, dif_pos (List.contains_iff_mem.mpr h)]

theorem expand_of_none (h : a.source? p.root = none) : a.expand seen p = p := by
  rw [expand]
  split
  · rfl
  · split
    · rfl
    · rename_i src hsrc
      cases h.symm.trans hsrc

theorem expand_of_some (hs : p.root ∉ seen) (h : a.source? p.root = some src) :
    a.expand seen p = a.expand (p.root :: seen) (src.extend p.projections) := by
  rw [expand, dif_neg fun hc => hs (List.contains_iff_mem.mp hc)]
  split
  · rename_i hnone
    cases h.symm.trans hnone
  · rename_i src' hsrc'
    obtain rfl := Option.some.inj (h.symm.trans hsrc')
    rfl

/-- Which roots are replaced does not depend on the projections, and these stay at the end. -/
theorem expand_extend (seen : List Value) (p : AccessPath) (steps : List Value) :
    a.expand seen (p.extend steps) = (a.expand seen p).extend steps := by
  fun_induction expand a seen p with
  | case1 seen p hs => exact expand_of_mem (p := p.extend steps) (List.contains_iff_mem.mp hs)
  | case2 seen p hs hnone => exact expand_of_none (p := p.extend steps) hnone
  | case3 seen p hs src hsrc ih =>
    rw [expand_of_some (p := p.extend steps) (fun hm => hs (List.contains_iff_mem.mpr hm)) hsrc, ← ih,
      AccessPath.extend_extend]
    rfl

/-- What is below a place is below what the place stands for. -/
theorem canonical_extend (p : AccessPath) (steps : List Value) :
    a.canonical (p.extend steps) =
      (a.canonical p).extend (steps.filter (· != AccessPath.derefStep)) := by
  unfold canonical
  rw [expand_extend, AccessPath.withoutDerefs_extend]

/-- Of the roots seen before, only those matter that are led to. -/
theorem expand_congr {seen seen' : List Value}
    (h : ∀ n, a.next^[n] p.root ∈ seen ↔ a.next^[n] p.root ∈ seen') :
    a.expand seen p = a.expand seen' p := by
  fun_induction expand a seen p generalizing seen' with
  | case1 seen p hs => exact (expand_of_mem ((h 0).mp (List.contains_iff_mem.mp hs))).symm
  | case2 seen p hs hnone => exact (expand_of_none hnone).symm
  | case3 seen p hs src hsrc ih =>
    have hs' : p.root ∉ seen' := fun hm => hs (List.contains_iff_mem.mpr ((h 0).mpr hm))
    rw [expand_of_some hs' hsrc]
    refine ih fun n => ?_
    have hn : a.next^[n] (src.extend p.projections).root = a.next^[n + 1] p.root := by
      rw [Function.iterate_succ_apply, next_of_source? hsrc]
      rfl
    rw [hn, List.mem_cons, List.mem_cons, h (n + 1)]

/-- On a circle of assignments every root stands for a place. -/
theorem Cyclic.source? (h : a.Cyclic r) (n : Nat) : (a.source? (a.next^[n] r)).isSome = true := by
  obtain ⟨hsome, k, hk, hperiod⟩ := h
  by_contra hnone
  rw [Option.not_isSome_iff_eq_none] at hnone
  -- a root that stands for nothing leads to itself only, so it would be the one at the start
  have hfixed : Function.IsFixedPt a.next (a.next^[n] r) := next_of_none hnone
  have hback : a.next^[n] r = r := by
    have hround := (hperiod.const_mul n).eq
    have hle : n ≤ n * k := Nat.le_mul_of_pos_right n hk
    rw [← Nat.sub_add_cancel hle, Function.iterate_add_apply, hfixed.iterate] at hround
    exact hround
  rw [hback] at hnone
  rw [hnone] at hsome
  cases hsome

private theorem Cyclic.of_source? (h : a.Cyclic r) (hsrc : a.source? r = some src) :
    a.Cyclic src.root := by
  have hsome := h.source? 1
  obtain ⟨_, k, hk, hperiod⟩ := h
  rw [Function.iterate_one, next_of_source? hsrc] at hsome
  exact ⟨hsome, k, hk, next_of_source? hsrc ▸ hperiod.apply⟩

/-- On a circle of assignments, a search comes back to where it started and ends there. -/
theorem Cyclic.root_expand (h : a.Cyclic p.root) : (a.expand [] p).root = p.root := by
  have hpos := Function.minimalPeriod_pos_of_mem_periodicPts h.2
  generalize hr : p.root = r at h hpos ⊢
  -- after some steps the roots seen are those before, and up to the period no root comes twice
  have hrun : ∀ left n : Nat, n + left = Function.minimalPeriod a.next r → ∀ q : AccessPath,
      q.root = a.next^[n] r → ∀ seen, (∀ v, v ∈ seen ↔ ∃ m < n, v = a.next^[m] r) →
      (a.expand seen q).root = r := by
    intro left
    induction left with
    | zero =>
      intro n hn q hq seen hseen
      rw [Nat.add_zero] at hn
      rw [hn, Function.iterate_minimalPeriod] at hq
      rw [expand_of_mem ((hseen q.root).mpr ⟨0, hn ▸ hpos, hq⟩), hq]
    | succ left ih =>
      intro n hn q hq seen hseen
      have hnew : q.root ∉ seen := by
        intro hm
        obtain ⟨m, hm, heq⟩ := (hseen q.root).mp hm
        have hmn := (Function.iterate_eq_iterate_iff_of_lt_minimalPeriod (f := a.next) (x := r)
          (m := m) (n := n) (by omega) (by omega)).mp (heq.symm.trans hq)
        omega
      obtain ⟨src, hsrc⟩ := Option.isSome_iff_exists.mp (h.source? n)
      rw [← hq] at hsrc
      rw [expand_of_some hnew hsrc]
      refine ih (n + 1) (by omega) _ ?_ _ fun v => ?_
      · rw [Function.iterate_succ_apply', ← hq, next_of_source? hsrc]
        rfl
      · rw [List.mem_cons, hseen v]
        constructor
        · intro hv
          rcases hv with rfl | ⟨m, hm, hv⟩
          · exact ⟨n, Nat.lt_succ_self n, hq⟩
          · exact ⟨m, by omega, hv⟩
        · intro hv
          obtain ⟨m, hm, hv⟩ := hv
          rcases Nat.lt_succ_iff_lt_or_eq.mp hm with hm | rfl
          · exact Or.inr ⟨m, hm, hv⟩
          · exact Or.inl (hv.trans hq.symm)
  refine hrun _ 0 (Nat.zero_add _) p hr [] fun v => ?_
  simp

private theorem exists_root_expand (seen : List Value) (p : AccessPath) :
    ∃ n, (a.expand seen p).root = a.next^[n] p.root := by
  fun_induction expand a seen p with
  | case1 => exact ⟨0, rfl⟩
  | case2 => exact ⟨0, rfl⟩
  | case3 seen p hs src hsrc ih =>
    obtain ⟨n, hn⟩ := ih
    refine ⟨n + 1, ?_⟩
    rw [hn, Function.iterate_succ_apply, next_of_source? hsrc]
    rfl

/-- The roots on circles are those that stand for a place, and for one of their own in the end. -/
theorem cyclic_iff : a.Cyclic r ↔ (a.source? r).isSome = true ∧ (a.expand [] ⟨r, []⟩).root = r := by
  constructor
  · intro h
    exact ⟨h.1, h.root_expand (p := ⟨r, []⟩)⟩
  · intro h
    obtain ⟨hsome, hroot⟩ := h
    obtain ⟨src, hsrc⟩ := Option.isSome_iff_exists.mp hsome
    rw [expand_of_some (p := ⟨r, []⟩) List.not_mem_nil hsrc] at hroot
    obtain ⟨n, hn⟩ := exists_root_expand (a := a) [r] (src.extend [])
    refine ⟨hsome, n + 1, Nat.succ_pos n, ?_⟩
    rw [Function.IsPeriodicPt, Function.IsFixedPt, Function.iterate_succ_apply, next_of_source? hsrc]
    exact hn.symm.trans hroot

instance (a : Aliases) (r : Value) : Decidable (a.Cyclic r) := decidable_of_iff' _ cyclic_iff

/-- A root that is on no circle stands for the same place as what it was assigned. -/
theorem canonical_eq_of_not_cyclic (hsrc : a.source? p.root = some src) (h : ¬a.Cyclic p.root) :
    a.canonical p = a.canonical (src.extend p.projections) := by
  have hexpand : a.expand [p.root] (src.extend p.projections) =
      a.expand [] (src.extend p.projections) := by
    refine expand_congr fun n => ?_
    have hne : a.next^[n] (src.extend p.projections).root ≠ p.root := by
      intro hback
      refine h ⟨by rw [hsrc]; rfl, n + 1, Nat.succ_pos n, ?_⟩
      rw [Function.IsPeriodicPt, Function.IsFixedPt, Function.iterate_succ_apply, next_of_source? hsrc]
      exact hback
    simp [hne]
  unfold canonical
  rw [expand_of_some List.not_mem_nil hsrc, hexpand]

/-- Assignments after a root on a circle stay on the circle. -/
theorem Cyclic.of_leads {p q : AccessPath} (hleads : a.Leads p q) (h : a.Cyclic p.root) :
    a.Cyclic q.root := by
  induction hleads with
  | refl => exact h
  | step hsrc _ ih => exact ih (h.of_source? hsrc :)

/-- The two ends of a chain of assignments that does not end on a circle are one place. -/
theorem Leads.canonical_eq {p q : AccessPath} (h : a.Leads p q) (hq : ¬a.Cyclic q.root) :
    a.canonical p = a.canonical q := by
  induction h with
  | refl => rfl
  | step hsrc hrest ih =>
    have hp := mt (Cyclic.of_leads (.step hsrc hrest)) hq
    rw [canonical_eq_of_not_cyclic hsrc hp, ih hq]

/-- What is kept while the aliases of a function are found: they are about the function, and no
variable is recorded as standing for a place of its own. -/
structure Tracks (f : Function) (a : Aliases) : Prop where
  function : a.function = f
  root_ne : ∀ s ∈ a.sources, s.2.root ≠ .text s.1

namespace Tracks

variable {f : Function}

private theorem source?_root_ne (h : a.Tracks f) (hsrc : a.source? r = some src) :
    src.root ≠ r := by
  unfold Aliases.source? at hsrc
  split at hsrc
  · exact h.root_ne _ (mem_of_lookup hsrc)
  · cases hsrc

private theorem assign (h : a.Tracks f) (name : String) (value : Int) :
    Yields (fun _ => True) (Tracks f) (a.assign name value) := by
  unfold Aliases.assign
  extract_lets a'
  have ha' : a'.Tracks f := by
    unfold a'
    split
    · exact h
    · exact ⟨h.function, h.root_ne⟩
  refine (Yields.safe_any _).bind fun z _ => ?_
  cases z with
  | none => exact ha'
  | some src =>
    dsimp only
    split
    · exact ha'
    · rename_i hnew
      refine ⟨ha'.function, fun s hs => ?_⟩
      rcases List.mem_append.mp hs with hs | hs
      · exact ha'.root_ne s hs
      · rw [List.mem_singleton.mp hs]
        intro heq
        exact hnew (Bool.or_eq_true_iff.mpr (Or.inr (beq_iff_eq.mpr heq)))

private theorem stmt (h : a.Tracks f) (s : Stmt) :
    Yields (fun _ => True) (Tracks f) (a.stmt s) := by
  unfold Aliases.stmt
  split
  · refine (Yields.safe_any _).bind fun target _ => ?_
    split
    · split
      · exact h
      · exact h.assign _ _
    · exact h
  · exact h

/-- The aliases of a function are found one statement after the other. -/
theorem of_eq_ok (h : Aliases.of f = .ok a) : a.Tracks f := by
  have hrun : Yields (fun _ => True) (Tracks f) (Aliases.of f) := by
    refine (Yields.safe_any _).bind fun order _ => ?_
    refine Yields.foldlM ⟨rfl, fun s hs => (by cases hs)⟩ fun b hb i _ => ?_
    exact (Yields.safe_any _).bind fun block _ => Yields.foldlM hb fun c hc s _ => hc.stmt s
  rw [h] at hrun
  exact hrun

end Tracks

/-- A variable and the place that it was assigned are one place, with all that is below them, just
if assignments do not lead back to the variable; and so are the ends of a chain of assignments of
any length that does not end on a circle. -/
theorem canonical_eq_source_iff {f : Function} (h : Aliases.of f = .ok a) :
    (∀ r src, a.source? r = some src → ∀ steps,
      a.canonical ⟨r, steps⟩ = a.canonical (src.extend steps) ↔ ¬a.Cyclic r) ∧
    ∀ p q, a.Leads p q → ¬a.Cyclic q.root → a.canonical p = a.canonical q := by
  refine ⟨fun r src hsrc steps => ⟨fun heq hcyclic => ?_, fun hr => ?_⟩, fun p q => Leads.canonical_eq⟩
  · have hfirst := hcyclic.root_expand (p := ⟨r, steps⟩)
    have hsecond := (hcyclic.of_source? hsrc).root_expand (p := src.extend steps)
    have hroots : (a.expand [] ⟨r, steps⟩).root = (a.expand [] (src.extend steps)).root := by
      simpa only [canonical, AccessPath.withoutDerefs] using congrArg AccessPath.root heq
    rw [hfirst, hsecond] at hroots
    exact (Tracks.of_eq_ok h).source?_root_ne hsrc hroots.symm
  · exact canonical_eq_of_not_cyclic (p := ⟨r, steps⟩) hsrc hr

end Aliases

/-- A function that assigns `x = y.owner`, `y = z` and `z = y`. -/
def Function.exchanging : Function :=
  { name := "exchange"
    exprs := [
      { id := 0, kind := .localVar, localName := "x" },
      { id := 1, kind := .localVar, localName := "y" },
      { id := 2, kind := .field, name := some (.text "owner"), receiver := some 1 },
      { id := 3, kind := .localVar, localName := "y" },
      { id := 4, kind := .localVar, localName := "z" },
      { id := 5, kind := .localVar, localName := "z" },
      { id := 6, kind := .localVar, localName := "y" }]
    blocks := [
      { id := 0
        stmts := [
          { kind := .assign, target := some (.expr 0), value := 2 },
          { kind := .assign, target := some (.expr 3), value := 4 },
          { kind := .assign, target := some (.expr 5), value := 6 }] }] }

theorem Aliases.canonical_eq_source_iff_exchanging :
    ∃ a, Aliases.of .exchanging = .ok a ∧
      a.source? (.text "x") = some ⟨.text "y", [.text "owner"]⟩ ∧ ¬a.Cyclic (.text "x") ∧
      a.Leads (.ofLocal "x") ⟨.text "y", [.text "owner"]⟩ ∧
      ∀ steps, a.canonical ⟨.text "x", steps⟩ = a.canonical ⟨.text "y", .text "owner" :: steps⟩ := by
  have hvalue : (Aliases.of .exchanging).toOption.map (fun a =>
      (a.source? (.text "x"), decide (a.Cyclic (.text "x")))) =
        some (some ⟨.text "y", [.text "owner"]⟩, false) := by
    decide +kernel
  obtain ⟨a, ha, hfound⟩ := Option.map_eq_some_iff.mp hvalue
  obtain ⟨hsrc, hcyclic⟩ := Prod.mk.inj hfound
  have ha := ok_of_toOption ha
  have hx : ¬a.Cyclic (.text "x") := of_decide_eq_false hcyclic
  refine ⟨a, ha, hsrc, hx, .step hsrc (.refl _), fun steps => ?_⟩
  exact ((canonical_eq_source_iff ha).1 _ _ hsrc steps).mpr hx

/-- Two variables that were assigned to each other are not taken for one place. -/
theorem Aliases.canonical_ne_exchanging :
    ∃ a, Aliases.of .exchanging = .ok a ∧ a.source? (.text "y") = some (.ofLocal "z") ∧
      a.source? (.text "z") = some (.ofLocal "y") ∧
      a.canonical (.ofLocal "y") ≠ a.canonical (.ofLocal "z") := by
  have hvalue : (Aliases.of .exchanging).toOption.map (fun a => (a.source? (.text "y"),
      a.source? (.text "z"), a.canonical (.ofLocal "y"), a.canonical (.ofLocal "z"))) =
        some (some (.ofLocal "z"), some (.ofLocal "y"), .ofLocal "y", .ofLocal "z") := by
    decide +kernel
  obtain ⟨a, ha, hfound⟩ := Option.map_eq_some_iff.mp hvalue
  simp only [Prod.mk.injEq] at hfound
  obtain ⟨hy, hz, hcy, hcz⟩ := hfound
  refine ⟨a, ok_of_toOption ha, hy, hz, ?_⟩
  rw [hcy, hcz]
  decide

end AccountLint

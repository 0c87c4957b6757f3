import Mathlib.Data.List.Perm.Basic
import AccountLint.Proofs.Agreement

/-! One computation follows another if it has a related result whenever the other has one. Two are
akin if a run cannot tell their outcomes apart: it goes on from related results, skips a function
for the same fault, or ends. What is gathered from the entries of a list in another order is the
same in another order. -/
namespace AccountLint

variable {α β γ δ : Type}

/-- The second has a related result whenever the first has one. -/
def Follows (R : α → β → Prop) (x : Except Fault α) (y : Except Fault β) : Prop :=
  ∀ a, x = .ok a → ∃ b, y = .ok b ∧ R a b

/-- A fault that ends a run. -/
def Fault.EndsRun (e : Fault) : Prop := e.rejectsModel = false

/-- Related results, the same fault, or two faults that end a run. -/
inductive Akin (R : α → β → Prop) : Except Fault α → Except Fault β → Prop where
  | ok {a : α} {b : β} (h : R a b) : Akin R (.ok a) (.ok b)
  | same (e : Fault) : Akin R (.error e) (.error e)
  | ends {e e' : Fault} (h : e.EndsRun) (h' : e'.EndsRun) : Akin R (.error e) (.error e')

variable {R : α → β → Prop} {S : γ → δ → Prop}

namespace Follows

theorem ok {a : α} {b : β} (h : R a b) : Follows R (.ok a) (.ok b) := by
  intro a' ha
  rw [← Except.ok.inj ha]
  exact ⟨b, rfl, h⟩

theorem of_eq {T : α → α → Prop} {x y : Except Fault α} (h : y = x) (ht : ∀ a, T a a) :
    Follows T x y := by
  intro a ha
  exact ⟨a, h.trans ha, ht a⟩

theorem of_exceptMap_left {x : Except Fault γ} {y : Except Fault β} {g : γ → α}
    (h : Follows R (x.map g) y) : Follows (fun c b => R (g c) b) x y := by
  intro c hc
  exact h (g c) (by rw [hc]; rfl)

theorem trans_perm {x y z : Except Fault (List α)} (h : Follows List.Perm x y)
    (h' : Follows List.Perm y z) : Follows List.Perm x z := by
  intro cs hcs
  obtain ⟨ds, hds, hperm⟩ := h cs hcs
  obtain ⟨es, hes, hperm'⟩ := h' ds hds
  exact ⟨es, hes, hperm.trans hperm'⟩

theorem bind {x : Except Fault α} {y : Except Fault β} {f : α → Except Fault γ}
    {g : β → Except Fault δ} (h : Follows R x y) (hf : ∀ a b, R a b → Follows S (f a) (g b)) :
    Follows S (x >>= f) (y >>= g) := by
  intro c hc
  obtain ⟨a, ha, hc⟩ := bind_eq_ok.mp hc
  obtain ⟨b, hb, hr⟩ := h a ha
  obtain ⟨d, hd, hs⟩ := hf a b hr c hc
  exact ⟨d, bind_eq_ok.mpr ⟨b, hb, hd⟩, hs⟩

theorem bind_self {x : Except Fault α} {f : α → Except Fault γ} {g : α → Except Fault δ}
    (hf : ∀ a, Follows S (f a) (g a)) : Follows S (x >>= f) (x >>= g) := by
  cases x with
  | ok a => exact hf a
  | error e =>
    intro c hc
    cases hc

theorem mapM {f : α → Except Fault γ} {g : β → Except Fault δ} {xs : List α} {ys : List β}
    (hl : List.Forall₂ (fun a b => Follows S (f a) (g b)) xs ys) :
    Follows (List.Forall₂ S) (xs.mapM f) (ys.mapM g) := by
  induction hl with
  | nil => exact ok .nil
  | cons hr _ ih =>
    rw [List.mapM_cons, List.mapM_cons]
    exact hr.bind fun c d hcd => ih.bind fun cs ds hcds => ok (.cons hcd hcds)

/-- A pass through a list with some entries left out follows the pass through all of it, and what it
leads to is thinned out with the entries. -/
theorem mapM_thins {κ χ : Type} {k : α → κ} {c : γ → χ} {f g : α → Except Fault γ} {xs xs' : List α}
    (hs : Thins k xs xs')
    (hf : ∀ x, ∀ x' ∈ xs', k x' = k x → Follows (fun y y' => c y' = c y) (f x) (g x')) :
    Follows (Thins c) (xs.mapM f) (xs'.mapM g) := by
  intro ys hys
  have hall := mapM_eq_ok.mp hys
  have hstep : ∀ x' ∈ xs', ∃ y', g x' = .ok y' := by
    intro x' hx'
    obtain ⟨x, hx, hk⟩ := List.mem_map.mp (hs.subset (List.mem_map_of_mem hx'))
    obtain ⟨y, _, hy⟩ := exists_of_forall₂_left hall hx
    obtain ⟨y', hy', _⟩ := hf x x' hx' hk.symm y hy
    exact ⟨y', hy'⟩
  obtain ⟨ys', hys'⟩ := exists_mapM_ok hstep
  refine ⟨ys', hys', hs.forall₂ hall (forall₂_with_mem (mapM_eq_ok.mp hys')) ?_⟩
  intro x y x' y' hk hy hy'
  obtain ⟨y'', hy'', hc⟩ := hf x x' hy'.1 hk y hy
  obtain rfl := Except.ok.inj (hy''.symm.trans hy'.2)
  exact hc

theorem concatM {f : α → Except Fault (List γ)} {g : β → Except Fault (List γ)} {xs : List α}
    {ys : List β} (hl : List.Forall₂ (fun a b => Follows List.Perm (f a) (g b)) xs ys) :
    Follows List.Perm (concatM f xs) (concatM g ys) := by
  induction hl with
  | nil => exact ok .nil
  | cons hr _ ih => exact hr.bind fun c d hcd => ih.bind fun cs ds hcds => ok (hcd.append hcds)

section Shuffle

variable {xs ys : List α} (hp : xs.Perm ys)
include hp

theorem mapM_perm (g : α → Except Fault β) : Follows List.Perm (xs.mapM g) (ys.mapM g) := by
  intro zs hzs
  obtain ⟨zs', hall, hperm⟩ := List.perm_comp_forall₂ hp.symm (mapM_eq_ok.mp hzs)
  exact ⟨zs', mapM_eq_ok.mpr hall, hperm.symm⟩

theorem collectM_perm (step : α → Except Fault (Option β)) :
    Follows List.Perm (collectM step xs) (collectM step ys) := by
  intro cs hcs
  obtain ⟨zs, hall, rfl⟩ := collectM_eq_ok.mp hcs
  obtain ⟨zs', hall', hperm⟩ := List.perm_comp_forall₂ hp.symm hall
  exact ⟨_, collectM_eq_ok.mpr ⟨zs', hall', rfl⟩, hperm.symm.filterMap id⟩

theorem concatM_perm (step : α → Except Fault (List β)) :
    Follows List.Perm (AccountLint.concatM step xs) (AccountLint.concatM step ys) := by
  intro cs hcs
  obtain ⟨zs, hall, rfl⟩ := concatM_eq_ok.mp hcs
  obtain ⟨zs', hall', hperm⟩ := List.perm_comp_forall₂ hp.symm hall
  exact ⟨_, concatM_eq_ok.mpr ⟨zs', hall', rfl⟩, hperm.symm.flatten⟩

end Shuffle

end Follows

namespace Akin

theorem follows {x : Except Fault α} {y : Except Fault β} (h : Akin R x y) : Follows R x y := by
  cases h with
  | ok h => exact .ok h
  | same e =>
    intro a ha
    cases ha
  | ends _ _ =>
    intro a ha
    cases ha

theorem of_exceptMap {x : Except Fault α} {g : α → β} (h : ∀ a, R a (g a)) :
    Akin R x (x.map g) := by
  cases x with
  | ok a => exact .ok (h a)
  | error e => exact .same e

theorem of_alike {x : Except Fault α} {y : Except Fault β} (h : Alike R x y) : Akin R x y := by
  cases h with
  | ok h => exact .ok h
  | error e => exact .same e

theorem of_exceptMap_left {x : Except Fault γ} {y : Except Fault β} {g : γ → α}
    (h : Akin R (x.map g) y) : Akin (fun c b => R (g c) b) x y := by
  cases x with
  | ok c =>
    cases h with
    | ok hr => exact .ok hr
  | error e =>
    cases h with
    | same => exact .same e
    | ends he he' => exact .ends he he'

/-- Where all faults end the run, it is enough that there are results on both sides or on none. -/
theorem of_follows {x : Except Fault α} {y : Except Fault β} {T : β → α → Prop}
    (hx : Safe Fault.EndsRun x) (hy : Safe Fault.EndsRun y) (h : Follows R x y) (h' : Follows T y x) :
    Akin R x y := by
  cases x with
  | ok a =>
    obtain ⟨b, rfl, hr⟩ := h a rfl
    exact .ok hr
  | error e =>
    cases y with
    | ok b =>
      obtain ⟨a, ha, _⟩ := h' b rfl
      cases ha
    | error e' => exact .ends hx hy

theorem bind {x : Except Fault α} {y : Except Fault β} {f : α → Except Fault γ}
    {g : β → Except Fault δ} (h : Akin R x y) (hf : ∀ a b, R a b → Akin S (f a) (g b)) :
    Akin S (x >>= f) (y >>= g) := by
  cases h with
  | ok hr => exact hf _ _ hr
  | same e => exact .same e
  | ends he he' => exact .ends he he'

theorem bind_self {x : Except Fault α} {f : α → Except Fault γ} {g : α → Except Fault δ}
    (hf : ∀ a, Akin S (f a) (g a)) : Akin S (x >>= f) (x >>= g) := by
  cases x with
  | ok a => exact hf a
  | error e => exact .same e

theorem collectM_perm {step : α → Except Fault (Option β)} {xs ys : List α} (hp : xs.Perm ys)
    (hstep : ∀ x ∈ xs, Safe Fault.EndsRun (step x)) :
    Akin List.Perm (collectM step xs) (collectM step ys) := by
  refine of_follows (Yields.collectM_safe hstep) (Yields.collectM_safe fun y hy => ?_)
    (Follows.collectM_perm hp step) (Follows.collectM_perm hp.symm step)
  exact hstep y (hp.mem_iff.mpr hy)

/-- A relation between lists that goes through concatenation holds of what is gathered if it does of
the parts. -/
theorem concatM {L : List γ → List δ → Prop} (hnil : L [] [])
    (happend : ∀ {cs ds cs' ds'}, L cs ds → L cs' ds' → L (cs ++ cs') (ds ++ ds'))
    {f : α → Except Fault (List γ)} {g : α → Except Fault (List δ)} {xs : List α}
    (h : ∀ x, Akin L (f x) (g x)) : Akin L (concatM f xs) (concatM g xs) := by
  induction xs with
  | nil => exact .ok hnil
  | cons x xs ih => exact (h x).bind fun c d hcd => ih.bind fun cs ds hcds => .ok (happend hcd hcds)

/-- Steps that keep a relation between two states, taken one after the other. -/
theorem foldlM {f : α → γ → Except Fault α} {g : β → γ → Except Fault β} {xs : List γ} {a : α}
    {b : β} (hab : R a b) (h : ∀ a b, R a b → ∀ x, Akin R (f a x) (g b x)) :
    Akin R (xs.foldlM f a) (xs.foldlM g b) := by
  induction xs generalizing a b with
  | nil => exact .ok hab
  | cons x xs ih =>
    rw [List.foldlM_cons, List.foldlM_cons]
    exact (h a b hab x).bind fun a' b' hab' => ih hab'

end Akin

end AccountLint

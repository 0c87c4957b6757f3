import AccountLint.Proofs.Checked

/-! Two computations side by side. They are alike if they have the same fault or related results;
they agree if their results are related whenever both have one. -/
namespace AccountLint

variable {α β γ δ : Type}

/-- The same fault, or related results. -/
inductive Alike (R : α → β → Prop) : Except Fault α → Except Fault β → Prop where
  | ok {a : α} {b : β} (h : R a b) : Alike R (.ok a) (.ok b)
  | error (e : Fault) : Alike R (.error e) (.error e)

/-- If there are two results, they are related. -/
def Agree (R : α → β → Prop) (x : Except Fault α) (y : Except Fault β) : Prop :=
  ∀ a b, x = .ok a → y = .ok b → R a b

variable {R : α → β → Prop}

theorem rel_none {z : Option β} (h : Option.Rel R none z) : z = none := by
  cases h
  rfl

theorem rel_some {a : α} {z : Option β} (h : Option.Rel R (some a) z) :
    ∃ b, z = some b ∧ R a b := by
  cases h with
  | some h => exact ⟨_, rfl, h⟩

namespace Alike

theorem bind {S : γ → δ → Prop} {x : Except Fault α} {y : Except Fault β}
    {f : α → Except Fault γ} {g : β → Except Fault δ} (h : Alike R x y)
    (hf : ∀ a b, R a b → Alike S (f a) (g b)) : Alike S (x >>= f) (y >>= g) := by
  cases h with
  | ok hr => exact hf _ _ hr
  | error e => exact .error e

theorem bind_self {S : γ → δ → Prop} {x : Except Fault α} {f : α → Except Fault γ}
    {g : α → Except Fault δ} (hf : ∀ a, Alike S (f a) (g a)) : Alike S (x >>= f) (x >>= g) := by
  cases x with
  | ok a => exact hf a
  | error e => exact .error e

/-- What goes on alike from related results is the same computation. -/
theorem bind_eq {x : Except Fault α} {y : Except Fault β} {f : α → Except Fault γ}
    {g : β → Except Fault γ} (h : Alike R x y) (hf : ∀ a b, R a b → f a = g b) :
    (x >>= f) = y >>= g := by
  cases h with
  | ok hr => exact hf _ _ hr
  | error e => rfl

theorem mono {S : α → β → Prop} {x : Except Fault α} {y : Except Fault β} (h : Alike R x y)
    (himp : ∀ a b, R a b → S a b) : Alike S x y := by
  cases h with
  | ok hr => exact .ok (himp _ _ hr)
  | error e => exact .error e

theorem agree {x : Except Fault α} {y : Except Fault β} (h : Alike R x y) : Agree R x y := by
  intro a b ha hb
  cases h with
  | ok hr =>
    rw [← Except.ok.inj ha, ← Except.ok.inj hb]
    exact hr
  | error e => cases ha

theorem collectM {S : γ → δ → Prop} {step : α → Except Fault (Option γ)}
    {step' : β → Except Fault (Option δ)} {xs : List α} {ys : List β} (hl : List.Forall₂ R xs ys)
    (h : ∀ a b, R a b → Alike (Option.Rel S) (step a) (step' b)) :
    Alike (List.Forall₂ S) (collectM step xs) (collectM step' ys) := by
  induction hl with
  | nil => exact .ok .nil
  | cons hr _ ih =>
    refine (h _ _ hr).bind fun z z' hz => ih.bind fun zs zs' hzs => ?_
    cases hz with
    | none => exact .ok hzs
    | some hs => exact .ok (.cons hs hzs)

theorem firstM {S : β → γ → Prop} {step : α → Except Fault (Option β)}
    {step' : α → Except Fault (Option γ)} {xs : List α}
    (h : ∀ x, Alike (Option.Rel S) (step x) (step' x)) :
    Alike (Option.Rel S) (firstM step xs) (firstM step' xs) := by
  induction xs with
  | nil => exact .ok .none
  | cons x xs ih =>
    refine (h x).bind fun z z' hz => ?_
    cases hz with
    | none => exact ih
    | some hs => exact .ok (.some hs)

end Alike

namespace Agree

theorem ok {a : α} {b : β} (h : R a b) : Agree R (.ok a) (.ok b) := by
  intro a' b' ha hb
  rw [← Except.ok.inj ha, ← Except.ok.inj hb]
  exact h

/-- A first result that goes with all others. -/
theorem of_left {a : α} {y : Except Fault β} (h : ∀ b, R a b) : Agree R (.ok a) y := by
  intro a' b ha _
  rw [← Except.ok.inj ha]
  exact h b

/-- A second result that goes with all others. -/
theorem of_right {x : Except Fault α} {b : β} (h : ∀ a, R a b) : Agree R x (.ok b) := by
  intro a b' _ hb
  rw [← Except.ok.inj hb]
  exact h a

theorem of_eq {S : α → α → Prop} {x y : Except Fault α} (h : y = x) (hs : ∀ a, S a a) :
    Agree S x y := by
  intro a b ha hb
  rw [h, ha] at hb
  rw [← Except.ok.inj hb]
  exact hs a

theorem mono {S : α → β → Prop} {x : Except Fault α} {y : Except Fault β} (h : Agree R x y)
    (himp : ∀ a b, R a b → S a b) : Agree S x y := by
  intro a b ha hb
  exact himp a b (h a b ha hb)

theorem bind {S : γ → δ → Prop} {x : Except Fault α} {y : Except Fault β}
    {f : α → Except Fault γ} {g : β → Except Fault δ} (h : Agree R x y)
    (hf : ∀ a b, R a b → Agree S (f a) (g b)) : Agree S (x >>= f) (y >>= g) := by
  intro c d hc hd
  obtain ⟨a, ha, hc⟩ := bind_eq_ok.mp hc
  obtain ⟨b, hb, hd⟩ := bind_eq_ok.mp hd
  exact hf a b (h a b ha hb) c d hc hd

/-- What is known of two results may also use where the first one comes from. -/
theorem with_eq {x : Except Fault α} {y : Except Fault β} (h : Agree R x y) :
    Agree (fun a b => x = .ok a ∧ R a b) x y := fun a b ha hb => ⟨ha, h a b ha hb⟩

/-- The two go on from the same result. -/
theorem bind_self {S : γ → δ → Prop} {x : Except Fault α} {f : α → Except Fault γ}
    {g : α → Except Fault δ} (hf : ∀ a, x = .ok a → Agree S (f a) (g a)) :
    Agree S (x >>= f) (x >>= g) := by
  intro c d hc hd
  obtain ⟨a, ha, hc⟩ := bind_eq_ok.mp hc
  obtain ⟨b, hb, hd⟩ := bind_eq_ok.mp hd
  rw [ha] at hb
  obtain rfl := Except.ok.inj hb
  exact hf a ha c d hc hd

/-- The two go on from tests, the second of which holds whenever the first does. -/
theorem bind_le {S : γ → δ → Prop} {x y : Except Fault Bool} {f : Bool → Except Fault γ}
    {g : Bool → Except Fault δ} (h : Agree (· ≤ ·) x y) (htrue : ∀ a, Agree S (f a) (g true))
    (hfalse : Agree S (f false) (g false)) : Agree S (x >>= f) (y >>= g) := by
  refine h.bind fun a b hab => ?_
  cases b with
  | true => exact htrue a
  | false =>
    obtain rfl := Bool.eq_false_of_le_false hab
    exact hfalse

theorem orElse {x x' y y' : Except Fault Bool} (hx : Agree (· ≤ ·) x x') (hy : Agree (· ≤ ·) y y') :
    Agree (· ≤ ·) (do if ← x then return true else y) (do if ← x' then return true else y') :=
  hx.bind_le (fun _ => .of_right Bool.le_true) hy

theorem anyM {test test' : α → Except Fault Bool} {xs : List α}
    (h : ∀ x, Agree (· ≤ ·) (test x) (test' x)) : Agree (· ≤ ·) (anyM test xs) (anyM test' xs) := by
  induction xs with
  | nil => exact ok (Bool.le_refl false)
  | cons x xs ih => exact (h x).orElse ih

/-- A search that may stop earlier than another, with a result that goes with all others. -/
theorem firstM {L : Option β → Option γ → Prop} {step : α → Except Fault (Option β)}
    {step' : α → Except Fault (Option γ)} {xs : List α} (hnone : L none none)
    (hmiss : ∀ b, ¬L (some b) none) (hearly : ∀ c, L none (some c) → ∀ z, L z (some c))
    (h : ∀ x, Agree L (step x) (step' x)) : Agree L (firstM step xs) (firstM step' xs) := by
  induction xs with
  | nil => exact ok hnone
  | cons x xs ih =>
    refine (h x).bind fun z z' hz => ?_
    match z, z' with
    | none, none => exact ih
    | some b, none => exact absurd hz (hmiss b)
    | some b, some c => exact ok hz
    | none, some c => exact .of_right (hearly c hz)

theorem mapM {S : γ → δ → Prop} {f : α → Except Fault γ} {g : β → Except Fault δ} {xs : List α}
    {ys : List β} (h : List.Forall₂ (fun a b => Agree S (f a) (g b)) xs ys) :
    Agree (List.Forall₂ S) (xs.mapM f) (ys.mapM g) := by
  induction h with
  | nil => exact ok .nil
  | cons hr _ ih =>
    rw [List.mapM_cons, List.mapM_cons]
    exact hr.bind fun c d hcd => ih.bind fun cs ds hcds => ok (.cons hcd hcds)

/-- Steps that keep a relation between two states, taken one after the other. -/
theorem foldlM {f : α → γ → Except Fault α} {g : β → γ → Except Fault β} {xs : List γ} {a : α}
    {b : β} (hab : R a b) (h : ∀ a b, R a b → ∀ x ∈ xs, Agree R (f a x) (g b x)) :
    Agree R (xs.foldlM f a) (xs.foldlM g b) := by
  induction xs generalizing a b with
  | nil => exact ok hab
  | cons x xs ih =>
    rw [List.foldlM_cons, List.foldlM_cons]
    refine (h a b hab x List.mem_cons_self).bind fun a' b' hab' => ?_
    exact ih hab' fun a b hab y hy => h a b hab y (List.mem_cons_of_mem _ hy)

section Gather

variable {L : List γ → List δ → Prop} (hnil : L [] [])
  (happend : ∀ {cs ds cs' ds'}, L cs ds → L cs' ds' → L (cs ++ cs') (ds ++ ds'))
include hnil happend

/-- A relation between lists that goes through concatenation holds of what is gathered if it does of
the parts. -/
theorem concatM {f : α → Except Fault (List γ)} {g : β → Except Fault (List δ)} {xs : List α}
    {ys : List β} (h : List.Forall₂ (fun a b => Agree L (f a) (g b)) xs ys) :
    Agree L (concatM f xs) (concatM g ys) := by
  induction h with
  | nil => exact ok hnil
  | cons hr _ ih => exact hr.bind fun c d hcd => ih.bind fun cs ds hcds => ok (happend hcd hcds)

theorem collectM {f : α → Except Fault (Option γ)} {g : β → Except Fault (Option δ)} {xs : List α}
    {ys : List β}
    (h : List.Forall₂ (fun a b => Agree (fun z z' => L z.toList z'.toList) (f a) (g b)) xs ys) :
    Agree L (collectM f xs) (collectM g ys) := by
  induction h with
  | nil => exact ok hnil
  | cons hr _ ih => exact hr.bind fun c d hcd => ih.bind fun cs ds hcds => ok (happend hcd hcds)

end Gather

end Agree

theorem forall₂_pairs {xs : List α} {ys : List β} (h : List.Forall₂ R xs ys) :
    List.Forall₂ (fun q q' => R q.1 q'.1 ∧ R q.2 q'.2) (pairs xs) (pairs ys) := by
  induction h with
  | nil => exact .nil
  | cons hr hrest ih =>
    exact List.rel_append (List.rel_map (fun _ _ hxy => ⟨hr, hxy⟩) hrest) ih

/-- A list is another one with some entries left out, as far as a function of them tells. -/
def Thins {κ : Type} (k : α → κ) (xs xs' : List α) : Prop := (xs'.map k).Sublist (xs.map k)

namespace Thins

variable {κ : Type} {k : α → κ}

theorem refl (xs : List α) : Thins k xs xs := List.Sublist.refl _

theorem append {xs xs' ys ys' : List α} (h : Thins k xs xs') (h' : Thins k ys ys') :
    Thins k (xs ++ ys) (xs' ++ ys') := by
  unfold Thins
  rw [List.map_append, List.map_append]
  exact List.Sublist.append h h'

theorem flatten {xss xss' : List (List α)} (h : List.Forall₂ (Thins k) xss xss') :
    Thins k xss.flatten xss'.flatten := by
  induction h with
  | nil => exact refl []
  | cons h _ ih => exact h.append ih

theorem of_left_out {z z' : Option α} (h : z' = z ∨ z' = none) : Thins k z.toList z'.toList := by
  rcases h with rfl | rfl
  · exact refl _
  · exact List.nil_sublist _

/-- What entries lead to is thinned out with them, where the function of them decides what counts of
it. -/
theorem forall₂ {c : β → γ} {S S' : α → β → Prop} {xs xs' : List α} {ys ys' : List β}
    (hs : Thins k xs xs') (h : List.Forall₂ S xs ys) (h' : List.Forall₂ S' xs' ys')
    (hc : ∀ x y x' y', k x' = k x → S x y → S' x' y' → c y' = c y) : Thins c ys ys' := by
  induction h generalizing xs' ys' with
  | nil =>
    rw [Thins, List.map_nil, List.sublist_nil, List.map_eq_nil_iff] at hs
    rw [hs] at h'
    cases h'
    exact refl []
  | @cons x y xs ys hxy _ ih =>
    rcases List.sublist_cons_iff.mp hs with hs | ⟨rest, hrest, hs⟩
    · exact (ih hs h').cons _
    · cases h' with
      | nil => exact List.nil_sublist _
      | @cons x' y' xs' ys' hxy' h' =>
        obtain ⟨hk, rfl⟩ := List.cons.inj hrest
        rw [Thins, List.map_cons, List.map_cons, hc x y x' y' hk hxy hxy']
        exact (ih hs h').cons_cons _

end Thins
end AccountLint

import Mathlib.Data.List.Forall2

/-! Lists entry by entry: what two lists with related entries have in common, and where the entries
of a list that is put together come from. -/
namespace AccountLint

variable {α β γ : Type} {R : α → β → Prop} {xs : List α} {ys : List β}

theorem exists_of_forall₂_left (h : List.Forall₂ R xs ys) {x : α} (hx : x ∈ xs) :
    ∃ y ∈ ys, R x y := by
  induction h with
  | nil => cases hx
  | cons hr _ ih =>
    rcases List.mem_cons.mp hx with rfl | hx
    · exact ⟨_, List.mem_cons_self, hr⟩
    · obtain ⟨y, hy, hr⟩ := ih hx
      exact ⟨y, List.mem_cons_of_mem _ hy, hr⟩

theorem exists_of_forall₂_right (h : List.Forall₂ R xs ys) {y : β} (hy : y ∈ ys) :
    ∃ x ∈ xs, R x y := by
  obtain ⟨x, hx, hr⟩ := exists_of_forall₂_left h.flip hy
  exact ⟨x, hx, hr⟩

theorem map_eq_of_forall₂ {f : α → γ} {g : β → γ} (h : List.Forall₂ R xs ys)
    (hr : ∀ x ∈ xs, ∀ y, R x y → f x = g y) : xs.map f = ys.map g := by
  induction h with
  | nil => rfl
  | cons hxy _ ih =>
    rw [List.map_cons, List.map_cons, hr _ List.mem_cons_self _ hxy,
      ih fun x hx => hr x (List.mem_cons_of_mem _ hx)]

theorem any_eq_of_forall₂ {f : α → Bool} {g : β → Bool} (h : List.Forall₂ R xs ys)
    (hr : ∀ x y, R x y → f x = g y) : xs.any f = ys.any g := by
  induction h with
  | nil => rfl
  | cons hxy _ ih => rw [List.any_cons, List.any_cons, hr _ _ hxy, ih]

theorem all_eq_of_forall₂ {f : α → Bool} {g : β → Bool} (h : List.Forall₂ R xs ys)
    (hr : ∀ x y, R x y → f x = g y) : xs.all f = ys.all g := by
  induction h with
  | nil => rfl
  | cons hxy _ ih => rw [List.all_cons, List.all_cons, hr _ _ hxy, ih]

theorem forall₂_with_mem (h : List.Forall₂ R xs ys) :
    List.Forall₂ (fun x y => x ∈ xs ∧ R x y) xs ys :=
  (List.forall₂_and_left xs ys).mpr ⟨fun _ hx => hx, h⟩

theorem forall₂_comp {S : β → γ → Prop} {zs : List γ} (h : List.Forall₂ R xs ys)
    (h' : List.Forall₂ S ys zs) :
    List.Forall₂ (fun x z => ∃ y, R x y ∧ S y z) xs zs := by
  induction h generalizing zs with
  | nil =>
    cases h'
    exact .nil
  | cons hr _ ih =>
    cases h' with
    | cons hs hrest => exact .cons ⟨_, hr, hs⟩ (ih hrest)

theorem forall₂_zipIdx (h : List.Forall₂ R xs ys) (k : Nat) :
    List.Forall₂ (fun x y => x.2 = y.2 ∧ R x.1 y.1) (xs.zipIdx k) (ys.zipIdx k) := by
  induction h generalizing k with
  | nil => exact .nil
  | cons hr _ ih => exact .cons ⟨rfl, hr⟩ (ih (k + 1))

theorem mem_modify {n : Nat} {f : α → α} {x : α} (h : x ∈ xs.modify n f) :
    x ∈ xs ∨ ∃ y ∈ xs, x = f y := by
  obtain ⟨j, hj⟩ := List.mem_iff_getElem?.mp h
  rw [List.getElem?_modify] at hj
  obtain ⟨y, hy, hx⟩ := Option.map_eq_some_iff.mp hj
  have hmem := List.mem_of_getElem? hy
  split at hx
  · exact Or.inr ⟨y, hmem, hx.symm⟩
  · exact Or.inl (hx ▸ hmem)

theorem modify_length_append (pre post : List α) (x : α) (g : α → α) :
    (pre ++ x :: post).modify pre.length g = pre ++ g x :: post := by
  induction pre with
  | nil => rfl
  | cons y pre ih => exact congrArg (y :: ·) ih

theorem getElem?_snoc {x y : α} {i : Nat} (h : (xs ++ [x])[i]? = some y) :
    xs[i]? = some y ∨ (i = xs.length ∧ y = x) := by
  rw [List.getElem?_append] at h
  split at h
  · exact Or.inl h
  · have hi := (List.getElem?_eq_some_iff.mp h).1
    have hzero : i - xs.length = 0 := by simpa using hi
    rw [hzero] at h
    exact Or.inr ⟨by omega, (Option.some.inj h).symm⟩

theorem getElem?_reverse_of_suffix {zs : List α} (h : zs <:+ xs) {i : Nat} (hi : i < zs.length) :
    xs.reverse[i]? = zs.reverse[i]? := by
  obtain ⟨before, rfl⟩ := h
  rw [List.reverse_append, List.getElem?_append_left (by rwa [List.length_reverse])]

theorem zipIdx_snoc (xs : List α) (x : α) :
    (xs ++ [x]).zipIdx = xs.zipIdx ++ [(x, xs.length)] := by
  rw [List.zipIdx_append, Nat.zero_add]
  rfl

theorem exists_mem_zipIdx_iff {P : α → Prop} :
    (∃ x ∈ xs.zipIdx, P x.1) ↔ ∃ a ∈ xs, P a := by
  constructor
  · rintro ⟨x, hx, hp⟩
    exact ⟨x.1, List.fst_mem_of_mem_zipIdx hx, hp⟩
  · rintro ⟨a, ha, hp⟩
    obtain ⟨k, hk⟩ := List.mem_iff_getElem?.mp ha
    exact ⟨(a, k), List.mem_zipIdx_iff_getElem?.mpr hk, hp⟩

theorem exists_mem_singleton {a : α} {P : α → Prop} : (∃ x ∈ [a], P x) ↔ P a := by
  simp

theorem findSome?_flatMap (xs : List α) (g : α → List β) (h : β → Option γ) :
    (xs.flatMap g).findSome? h = xs.findSome? fun x => (g x).findSome? h := by
  induction xs with
  | nil => rfl
  | cons x xs ih =>
    rw [List.flatMap_cons, List.findSome?_append, List.findSome?_cons, ih]
    cases (g x).findSome? h <;> rfl

theorem find?_append_cons_eq_some_iff {q : α → Bool} {before after : List α} {x : α}
    (hx : x ∉ before) :
    (before ++ x :: after).find? q = some x ↔ q x = true ∧ ∀ y ∈ before, q y = false := by
  rw [List.find?_append]
  cases hfind : before.find? q with
  | some y =>
    have hy := List.mem_of_find?_eq_some hfind
    have hq := List.find?_some hfind
    constructor
    · intro h
      obtain rfl := Option.some.inj h
      exact absurd hy hx
    · rintro ⟨_, hnone⟩
      rw [hnone y hy] at hq
      cases hq
  | none =>
    have hnone := List.find?_eq_none.mp hfind
    rw [Option.none_or, List.find?_cons]
    constructor
    · intro h
      refine ⟨?_, fun y hy => by simpa using hnone y hy⟩
      split at h
      · assumption
      · exact List.find?_some h
    · rintro ⟨hq, _⟩
      rw [hq]

end AccountLint

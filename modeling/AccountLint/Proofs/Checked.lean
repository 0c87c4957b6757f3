import Mathlib.Data.List.Nodup
import Mathlib.Data.List.ReduceOption
import AccountLint.Checked
import AccountLint.Proofs.Lists

/-! Passing through lists with steps that may fail: what a result says about the steps, and which
faults are possible. -/
namespace AccountLint

variable {α β γ δ : Type}

theorem bind_eq_ok {x : Except Fault α} {f : α → Except Fault β} {b : β} :
    (x >>= f) = .ok b ↔ ∃ a, x = .ok a ∧ f a = .ok b := by
  cases x with
  | error e =>
    constructor
    · intro h
      cases h
    · rintro ⟨a, h, _⟩
      cases h
  | ok a =>
    constructor
    · intro h
      exact ⟨a, rfl, h⟩
    · rintro ⟨a', h, hf⟩
      obtain rfl := Except.ok.inj h
      exact hf

theorem pure_eq_ok {a b : α} : (pure a : Except Fault α) = .ok b ↔ a = b :=
  ⟨Except.ok.inj, fun h => h ▸ rfl⟩

theorem ok_of_toOption {x : Except Fault α} {a : α} (h : x.toOption = some a) : x = .ok a := by
  cases x with
  | ok b => rw [Option.some.inj h]
  | error e => cases h

theorem bind_exceptMap (x : Except Fault α) (g : α → β) (k : β → Except Fault γ) :
    (x.map g >>= k) = x >>= fun a => k (g a) := by
  cases x <;> rfl

theorem exceptMap_bind (x : Except Fault α) (k : α → Except Fault β) (g : β → γ) :
    (x >>= k).map g = x >>= fun a => (k a).map g := by
  cases x <;> rfl

theorem exceptMap_ite (c : Prop) [Decidable c] (x y : Except Fault α) (g : α → β) :
    (if c then x else y).map g = if c then x.map g else y.map g := apply_ite (Except.map g) c x y

section Mapped

variable {x : Except Fault α} {x' : Except Fault β} {g : α → β}

/-- Going on from a mapped result as before it was mapped. -/
theorem bind_of_exceptMap {k : α → Except Fault γ} {k' : β → Except Fault γ} (hx : x' = x.map g)
    (hk : ∀ a, k' (g a) = k a) : (x' >>= k') = x >>= k := by
  rw [hx, bind_exceptMap]
  exact bind_congr hk

/-- Going on from a mapped result to a mapped result. -/
theorem exceptMap_bind_of_exceptMap {m : γ → δ} {k : α → Except Fault γ} {k' : β → Except Fault δ}
    (hx : x' = x.map g) (hk : ∀ a, k' (g a) = (k a).map m) : (x' >>= k') = (x >>= k).map m := by
  rw [hx, bind_exceptMap, exceptMap_bind]
  exact bind_congr hk

end Mapped

theorem forM_eq_ok {g : α → Except Fault Unit} {xs : List α} :
    xs.forM g = .ok () ↔ ∀ x ∈ xs, g x = .ok () := by
  induction xs with
  | nil =>
    constructor
    · intro _ x hx
      cases hx
    · intro _
      rfl
  | cons x xs ih =>
    have hc : (x :: xs).forM g = g x >>= fun _ => xs.forM g := rfl
    rw [hc, bind_eq_ok]
    constructor
    · rintro ⟨_, hx, hxs⟩ y hy
      rcases List.mem_cons.mp hy with rfl | hy
      · exact hx
      · exact ih.mp hxs y hy
    · intro h
      exact ⟨(), h x List.mem_cons_self, ih.mpr fun y hy => h y (List.mem_cons_of_mem _ hy)⟩

theorem mapM_eq_ok {g : α → Except Fault β} {xs : List α} {ys : List β} :
    xs.mapM g = .ok ys ↔ List.Forall₂ (fun x y => g x = .ok y) xs ys := by
  induction xs generalizing ys with
  | nil =>
    rw [List.mapM_nil, pure_eq_ok, List.forall₂_nil_left_iff]
    exact eq_comm
  | cons x xs ih =>
    rw [List.mapM_cons, bind_eq_ok]
    constructor
    · rintro ⟨y, hy, h⟩
      obtain ⟨zs, hz, h⟩ := bind_eq_ok.mp h
      obtain rfl := pure_eq_ok.mp h
      exact .cons hy (ih.mp hz)
    · intro h
      cases h with
      | cons hy hz => exact ⟨_, hy, bind_eq_ok.mpr ⟨_, ih.mpr hz, rfl⟩⟩

theorem mapM_exceptMap (g : α → Except Fault β) (k : β → γ) (xs : List α) :
    xs.mapM (fun x => (g x).map k) = (xs.mapM g).map (List.map k) := by
  induction xs with
  | nil => rfl
  | cons x xs ih =>
    rw [List.mapM_cons, List.mapM_cons, ih, bind_exceptMap, exceptMap_bind]
    refine bind_congr fun y => ?_
    rw [bind_exceptMap, exceptMap_bind]
    rfl

/-- Steps that a map of the state goes through, taken one after the other. -/
theorem foldlM_exceptMap {step : β → α → Except Fault β} {step' : γ → α → Except Fault γ}
    {k : β → γ} (h : ∀ b x, step' (k b) x = (step b x).map k) (xs : List α) (b : β) :
    xs.foldlM step' (k b) = (xs.foldlM step b).map k := by
  induction xs generalizing b with
  | nil => rfl
  | cons x xs ih =>
    rw [List.foldlM_cons, List.foldlM_cons, h, bind_exceptMap, exceptMap_bind]
    exact bind_congr fun b' => ih b'

theorem exists_mapM_ok {g : α → Except Fault β} {xs : List α} (h : ∀ x ∈ xs, ∃ y, g x = .ok y) :
    ∃ ys, xs.mapM g = .ok ys := by
  induction xs with
  | nil => exact ⟨[], rfl⟩
  | cons x xs ih =>
    obtain ⟨y, hy⟩ := h x List.mem_cons_self
    obtain ⟨ys, hys⟩ := ih fun z hz => h z (List.mem_cons_of_mem _ hz)
    exact ⟨y :: ys, mapM_eq_ok.mpr (.cons hy (mapM_eq_ok.mp hys))⟩

theorem exists_mapM_eq_ok {g : α → Except Fault β} {R : α → β → Prop} {xs : List α}
    (h : ∀ x ∈ xs, ∃ y, g x = .ok y ∧ R x y) : ∃ ys, xs.mapM g = .ok ys ∧ List.Forall₂ R xs ys := by
  obtain ⟨ys, hys⟩ := exists_mapM_ok fun x hx => (h x hx).imp fun _ hy => hy.1
  refine ⟨ys, hys, (forall₂_with_mem (mapM_eq_ok.mp hys)).imp ?_⟩
  rintro x y ⟨hx, hy⟩
  obtain ⟨y', hy', hr⟩ := h x hx
  rwa [Except.ok.inj (hy.symm.trans hy')]

/-- Gathered results are those of the steps, without the steps that have none. -/
theorem collectM_eq_ok {step : α → Except Fault (Option β)} {xs : List α} {ys : List β} :
    collectM step xs = .ok ys ↔
      ∃ zs, List.Forall₂ (fun x z => step x = .ok z) xs zs ∧ ys = zs.reduceOption := by
  induction xs generalizing ys with
  | nil =>
    constructor
    · intro h
      obtain rfl := Except.ok.inj h
      exact ⟨[], .nil, rfl⟩
    · rintro ⟨zs, hz, rfl⟩
      cases hz
      rfl
  | cons x xs ih =>
    rw [collectM, bind_eq_ok]
    constructor
    · rintro ⟨z, hz, h⟩
      obtain ⟨rest, hr, h⟩ := bind_eq_ok.mp h
      obtain ⟨zs, hzs, rfl⟩ := ih.mp hr
      obtain rfl := pure_eq_ok.mp h
      exact ⟨z :: zs, .cons hz hzs, by cases z <;> rfl⟩
    · rintro ⟨zs, hzs, rfl⟩
      cases hzs with
      | @cons _ z _ zs hz hzs =>
        refine ⟨z, hz, bind_eq_ok.mpr ⟨_, ih.mpr ⟨zs, hzs, rfl⟩, ?_⟩⟩
        cases z <;> rfl

theorem concatM_eq_ok {step : α → Except Fault (List β)} {xs : List α} {ys : List β} :
    concatM step xs = .ok ys ↔
      ∃ zs, List.Forall₂ (fun x z => step x = .ok z) xs zs ∧ ys = zs.flatten := by
  induction xs generalizing ys with
  | nil =>
    constructor
    · intro h
      obtain rfl := Except.ok.inj h
      exact ⟨[], .nil, rfl⟩
    · rintro ⟨zs, hz, rfl⟩
      cases hz
      rfl
  | cons x xs ih =>
    rw [concatM, bind_eq_ok]
    constructor
    · rintro ⟨z, hz, h⟩
      obtain ⟨rest, hr, h⟩ := bind_eq_ok.mp h
      obtain ⟨zs, hzs, rfl⟩ := ih.mp hr
      obtain rfl := pure_eq_ok.mp h
      exact ⟨z :: zs, .cons hz hzs, rfl⟩
    · rintro ⟨zs, hzs, rfl⟩
      cases hzs with
      | @cons _ z _ zs hz hzs =>
        exact ⟨z, hz, bind_eq_ok.mpr ⟨_, ih.mpr ⟨zs, hzs, rfl⟩, rfl⟩⟩

/-- What holds of the entries passed so far, and is kept by every step, holds of all entries at the
end. -/
theorem foldlM_invariant {step : β → α → Except Fault β} (inv : List α → β → Prop) {xs : List α}
    {b c : β} (hstart : inv [] b)
    (hstep : ∀ past x rest b c, xs = past ++ x :: rest → inv past b → step b x = .ok c →
      inv (past ++ [x]) c) (h : xs.foldlM step b = .ok c) : inv xs c := by
  have hrun : ∀ rest past b, xs = past ++ rest → inv past b → rest.foldlM step b = .ok c →
      inv xs c := by
    intro rest
    induction rest with
    | nil =>
      intro past b hxs hinv h
      obtain rfl := pure_eq_ok.mp h
      rw [hxs, List.append_nil]
      exact hinv
    | cons x rest ih =>
      intro past b hxs hinv h
      rw [List.foldlM_cons] at h
      obtain ⟨b', hb', h⟩ := bind_eq_ok.mp h
      exact ih (past ++ [x]) b' (by rw [hxs, List.append_assoc]; rfl)
        (hstep past x rest b b' hxs hinv hb') h
  exact hrun xs [] b rfl hstart h

theorem mem_collectM {step : α → Except Fault (Option β)} {xs : List α} {ys : List β}
    (h : collectM step xs = .ok ys) {y : β} : y ∈ ys ↔ ∃ x ∈ xs, step x = .ok (some y) := by
  obtain ⟨zs, hz, rfl⟩ := collectM_eq_ok.mp h
  rw [List.reduceOption_mem_iff]
  constructor
  · intro hy
    exact exists_of_forall₂_right hz hy
  · rintro ⟨x, hx, hs⟩
    obtain ⟨z, hzm, hz⟩ := exists_of_forall₂_left hz hx
    rw [hs] at hz
    obtain rfl := Except.ok.inj hz
    exact hzm

theorem mem_concatM {step : α → Except Fault (List β)} {xs : List α} {ys : List β}
    (h : concatM step xs = .ok ys) {y : β} : y ∈ ys ↔ ∃ x ∈ xs, ∃ zs, step x = .ok zs ∧ y ∈ zs := by
  obtain ⟨zss, hz, rfl⟩ := concatM_eq_ok.mp h
  rw [List.mem_flatten]
  constructor
  · rintro ⟨zs, hzs, hy⟩
    obtain ⟨x, hx, hs⟩ := exists_of_forall₂_right hz hzs
    exact ⟨x, hx, zs, hs, hy⟩
  · rintro ⟨x, hx, zs, hs, hy⟩
    obtain ⟨z, hzm, hz⟩ := exists_of_forall₂_left hz hx
    rw [hs] at hz
    obtain rfl := Except.ok.inj hz
    exact ⟨zs, hzm, hy⟩

theorem concatM_ok_of_mem {step : α → Except Fault (List β)} {xs : List α} {ys : List β}
    (h : concatM step xs = .ok ys) {x : α} (hx : x ∈ xs) : ∃ zs, step x = .ok zs := by
  obtain ⟨zss, hz, _⟩ := concatM_eq_ok.mp h
  obtain ⟨zs, _, hs⟩ := exists_of_forall₂_left hz hx
  exact ⟨zs, hs⟩

theorem collectM_ok_of_mem {step : α → Except Fault (Option β)} {xs : List α} {ys : List β}
    (h : collectM step xs = .ok ys) {x : α} (hx : x ∈ xs) : ∃ z, step x = .ok z := by
  obtain ⟨zs, hz, _⟩ := collectM_eq_ok.mp h
  obtain ⟨z, _, hs⟩ := exists_of_forall₂_left hz hx
  exact ⟨z, hs⟩

theorem collectM_map {h : γ → α} {step : α → Except Fault (Option β)} {xs : List γ} :
    collectM step (xs.map h) = collectM (fun x => step (h x)) xs := by
  induction xs with
  | nil => rfl
  | cons x xs ih => rw [List.map_cons, collectM, collectM, ih]

theorem concatM_map {h : γ → α} {step : α → Except Fault (List β)} {xs : List γ} :
    concatM step (xs.map h) = concatM (fun x => step (h x)) xs := by
  induction xs with
  | nil => rfl
  | cons x xs ih => rw [List.map_cons, concatM, concatM, ih]

/-- Collecting goes through a map of the entries that maps the results. -/
theorem collectM_exceptMap {step : α → Except Fault (Option β)}
    {step' : γ → Except Fault (Option δ)} {k : α → γ} {g : β → δ}
    (h : ∀ x, step' (k x) = (step x).map (Option.map g)) (xs : List α) :
    collectM step' (xs.map k) = (collectM step xs).map (List.map g) := by
  induction xs with
  | nil => rfl
  | cons x xs ih =>
    rw [List.map_cons, collectM, collectM, h, ih, bind_exceptMap, exceptMap_bind]
    refine bind_congr fun z => ?_
    rw [bind_exceptMap, exceptMap_bind]
    cases z <;> rfl

/-- So does looking for the first result. -/
theorem firstM_exceptMap {step : α → Except Fault (Option β)} {step' : γ → Except Fault (Option δ)}
    {k : α → γ} {g : β → δ} (h : ∀ x, step' (k x) = (step x).map (Option.map g)) (xs : List α) :
    firstM step' (xs.map k) = (firstM step xs).map (Option.map g) := by
  induction xs with
  | nil => rfl
  | cons x xs ih =>
    rw [List.map_cons, firstM, firstM, h, bind_exceptMap, exceptMap_bind]
    refine bind_congr fun z => ?_
    cases z with
    | none => exact ih
    | some b => rfl

/-- The results are those of the entries that have one, in their order. -/
theorem collectM_filter {step : α → Except Fault (Option β)} {P : α → Prop} [DecidablePred P]
    {R : α → β → Prop} {xs : List α} {ys : List β} (h : collectM step xs = .ok ys)
    (hnone : ∀ x ∈ xs, step x = .ok none → ¬P x)
    (hsome : ∀ x ∈ xs, ∀ y, step x = .ok (some y) → P x ∧ R x y) :
    List.Forall₂ R (xs.filter fun x => P x) ys := by
  obtain ⟨zs, hz, hy⟩ := collectM_eq_ok.mp h
  rw [hy]
  clear h hy
  induction hz with
  | nil => exact .nil
  | @cons x z xs zs hs _ ih =>
    have hrest := ih (fun x hx => hnone x (List.mem_cons_of_mem _ hx))
      fun x hx => hsome x (List.mem_cons_of_mem _ hx)
    cases z with
    | none =>
      have hx := hnone x List.mem_cons_self hs
      rw [List.filter_cons_of_neg (by simp [hx]), List.reduceOption_cons_of_none]
      exact hrest
    | some y =>
      obtain ⟨hx, hr⟩ := hsome x List.mem_cons_self y hs
      rw [List.filter_cons_of_pos (by simp [hx]), List.reduceOption_cons_of_some]
      exact .cons hr hrest

/-- Collecting the results for the entries that a test does not leave out. -/
theorem collectM_unless {skip : α → Bool} {g : α → Except Fault β} {xs : List α} {ys : List β}
    (h : collectM (fun x => do if skip x then return none else return some (← g x)) xs = .ok ys) :
    List.Forall₂ (fun x y => g x = .ok y) (xs.filter fun x => !skip x) ys := by
  have hall := collectM_filter (P := fun x => skip x = false) (R := fun x y => g x = .ok y) h ?_ ?_
  · simpa using hall
  · intro x _ hx hskip
    simp only [hskip, Bool.false_eq_true, if_false] at hx
    obtain ⟨y, _, hx⟩ := bind_eq_ok.mp hx
    cases pure_eq_ok.mp hx
  · intro x _ y hx
    by_cases hc : skip x = true
    · simp only [hc, if_true] at hx
      cases pure_eq_ok.mp hx
    · simp only [hc, Bool.false_eq_true, if_false] at hx
      obtain ⟨y', hy, hx⟩ := bind_eq_ok.mp hx
      obtain rfl := Option.some.inj (pure_eq_ok.mp hx)
      exact ⟨by simp [hc], hy⟩

/-- Collecting where it is known which steps get through, and what they give. -/
theorem collectM_eq_filterMap {step : α → Except Fault (Option β)} {passes : α → Prop}
    {g : α → Option β} {xs : List α} {ys : List β}
    (h : ∀ x z, step x = .ok z ↔ passes x ∧ z = g x) :
    collectM step xs = .ok ys ↔ (∀ x ∈ xs, passes x) ∧ ys = xs.filterMap g := by
  induction xs generalizing ys with
  | nil =>
    rw [collectM, List.filterMap_nil, Except.ok.injEq, eq_comm (a := [])]
    simp
  | cons x xs ih =>
    rw [collectM, bind_eq_ok, List.forall_mem_cons, List.filterMap_cons]
    constructor
    · rintro ⟨z, hz, hrest⟩
      obtain ⟨rest, hr, heq⟩ := bind_eq_ok.mp hrest
      obtain rfl := pure_eq_ok.mp heq
      obtain ⟨hx, rfl⟩ := (h x z).mp hz
      obtain ⟨hxs, rfl⟩ := ih.mp hr
      refine ⟨⟨hx, hxs⟩, ?_⟩
      cases g x <;> rfl
    · rintro ⟨⟨hx, hxs⟩, rfl⟩
      refine ⟨_, (h x _).mpr ⟨hx, rfl⟩, bind_eq_ok.mpr ⟨_, ih.mpr ⟨hxs, rfl⟩, ?_⟩⟩
      rw [pure_eq_ok]
      cases g x <;> rfl

/-- Collecting results, each of which tells what it is a result for. -/
theorem collectM_traced {step : α → Except Fault (Option β)} {P : α → γ → Prop}
    {R : α × γ → β → Prop} {xs : List α} {ys : List β} (h : collectM step xs = .ok ys)
    (hnone : ∀ x ∈ xs, step x = .ok none → ∀ c, ¬P x c)
    (hsome : ∀ x ∈ xs, ∀ y, step x = .ok (some y) → ∃ c, R (x, c) y ∧ ∀ c', P x c' ↔ c' = c) :
    ∃ traces : List (α × γ), List.Forall₂ R traces ys ∧
      List.Sublist (traces.map Prod.fst) xs ∧ ∀ t, t ∈ traces ↔ t.1 ∈ xs ∧ P t.1 t.2 := by
  obtain ⟨zs, hz, hy⟩ := collectM_eq_ok.mp h
  rw [hy]
  clear h hy
  induction hz with
  | nil => exact ⟨[], .nil, .slnil, fun t => by simp⟩
  | @cons x z xs zs hs _ ih =>
    obtain ⟨traces, hall, hsub, hmem⟩ := ih (fun y hy => hnone y (List.mem_cons_of_mem _ hy))
      (fun y hy => hsome y (List.mem_cons_of_mem _ hy))
    cases z with
    | none =>
      have hno := hnone x List.mem_cons_self hs
      rw [List.reduceOption_cons_of_none]
      refine ⟨traces, hall, hsub.cons _, ?_⟩
      intro t
      rw [hmem, List.mem_cons]
      constructor
      · exact fun ht => ⟨Or.inr ht.1, ht.2⟩
      · intro ht
        obtain ⟨heq | hin, hp⟩ := ht
        · rw [heq] at hp
          exact absurd hp (hno t.2)
        · exact ⟨hin, hp⟩
    | some y =>
      obtain ⟨c, hr, huniq⟩ := hsome x List.mem_cons_self y hs
      rw [List.reduceOption_cons_of_some]
      refine ⟨(x, c) :: traces, .cons hr hall, hsub.cons_cons _, ?_⟩
      intro t
      rw [List.mem_cons, hmem, List.mem_cons]
      constructor
      · intro ht
        rcases ht with rfl | ht
        · exact ⟨Or.inl rfl, (huniq c).mpr rfl⟩
        · exact ⟨Or.inr ht.1, ht.2⟩
      · intro ht
        obtain ⟨heq | hin, hp⟩ := ht
        · rw [heq] at hp
          exact Or.inl (Prod.ext heq ((huniq t.2).mp hp))
        · exact Or.inr ⟨hin, hp⟩

/-- The first result is that of an entry, and there is none only if no entry has one. -/
theorem firstM_eq_ok {step : α → Except Fault (Option β)} {xs : List α} {z : Option β}
    (h : firstM step xs = .ok z) :
    (∀ b, z = some b → ∃ x ∈ xs, step x = .ok (some b)) ∧ (z = none → ∀ x ∈ xs, step x = .ok none) := by
  induction xs with
  | nil =>
    obtain rfl := Except.ok.inj h
    exact ⟨fun b hb => (by cases hb), fun _ x hx => (by cases hx)⟩
  | cons x xs ih =>
    rw [firstM, bind_eq_ok] at h
    obtain ⟨y, hy, h⟩ := h
    cases y with
    | some c =>
      obtain rfl := pure_eq_ok.mp h
      refine ⟨fun b hb => ⟨x, List.mem_cons_self, ?_⟩, fun hz => (by cases hz)⟩
      rw [hy, hb]
    | none =>
      obtain ⟨hsome, hnone⟩ := ih h
      constructor
      · intro b hb
        obtain ⟨w, hw, hstep⟩ := hsome b hb
        exact ⟨w, List.mem_cons_of_mem _ hw, hstep⟩
      · intro hz w hw
        rcases List.mem_cons.mp hw with rfl | hw
        · exact hy
        · exact hnone hz w hw

/-- A test of a list holds if that of an entry does, and fails only if all of them do. -/
theorem anyM_eq_ok {test : α → Except Fault Bool} {xs : List α} {b : Bool}
    (h : anyM test xs = .ok b) :
    (b = true → ∃ x ∈ xs, test x = .ok true) ∧ (b = false → ∀ x ∈ xs, test x = .ok false) := by
  induction xs with
  | nil =>
    obtain rfl := Except.ok.inj h
    exact ⟨fun h => (by cases h), fun _ x hx => (by cases hx)⟩
  | cons x xs ih =>
    rw [anyM, bind_eq_ok] at h
    obtain ⟨c, hc, h⟩ := h
    cases c with
    | true =>
      obtain rfl := Except.ok.inj h
      exact ⟨fun _ => ⟨x, List.mem_cons_self, hc⟩, fun h => (by cases h)⟩
    | false =>
      obtain ⟨ht, hf⟩ := ih h
      constructor
      · intro hb
        obtain ⟨y, hy, hty⟩ := ht hb
        exact ⟨y, List.mem_cons_of_mem _ hy, hty⟩
      · intro hb y hy
        rcases List.mem_cons.mp hy with rfl | hy
        · exact hc
        · exact hf hb y hy

theorem anyM_eq_true_iff {test : α → Except Fault Bool} {xs : List α} {b : Bool}
    (h : anyM test xs = .ok b) : b = true ↔ ∃ x ∈ xs, test x = .ok true := by
  obtain ⟨ht, hf⟩ := anyM_eq_ok h
  constructor
  · exact ht
  · rintro ⟨x, hx, hxt⟩
    by_contra hb
    have := hf (by simpa using hb) x hx
    rw [hxt] at this
    cases this

/-- Where it is known what the tests of entries say, so is what the test of a list says. -/
theorem anyM_iff {test : α → Except Fault Bool} {P : α → Prop} {xs : List α} {b : Bool}
    (h : anyM test xs = .ok b) (hP : ∀ x ∈ xs, ∀ c, test x = .ok c → (c = true ↔ P x)) :
    b = true ↔ ∃ x ∈ xs, P x := by
  obtain ⟨ht, hf⟩ := anyM_eq_ok h
  constructor
  · intro hb
    obtain ⟨x, hx, hxt⟩ := ht hb
    exact ⟨x, hx, (hP x hx true hxt).mp rfl⟩
  · rintro ⟨x, hx, hp⟩
    by_contra hb
    have hxf := hf (Bool.eq_false_iff.mpr hb) x hx
    exact Bool.noConfusion ((hP x hx false hxf).mpr hp)

/-- A test that an entry passes still finds one if the entry is put somewhere into a list. -/
theorem anyM_insert {test : α → Except Fault Bool} {before after : List α} {x : α}
    (h : ∃ b, anyM test (before ++ after) = .ok b) (hx : test x = .ok true) :
    anyM test (before ++ x :: after) = .ok true := by
  induction before with
  | nil =>
    rw [List.nil_append, anyM, hx]
    rfl
  | cons y before ih =>
    obtain ⟨b, hb⟩ := h
    rw [List.cons_append, anyM] at hb ⊢
    obtain ⟨found, hfound, hb⟩ := bind_eq_ok.mp hb
    refine bind_eq_ok.mpr ⟨found, hfound, ?_⟩
    cases found with
    | true => rfl
    | false => exact ih ⟨b, hb⟩

theorem mem_of_mem_pairs {xs : List α} {q : α × α} (h : q ∈ pairs xs) : q.1 ∈ xs ∧ q.2 ∈ xs := by
  induction xs with
  | nil => cases h
  | cons x xs ih =>
    rcases List.mem_append.mp h with h | h
    · obtain ⟨y, hy, rfl⟩ := List.mem_map.mp h
      exact ⟨List.mem_cons_self, List.mem_cons_of_mem _ hy⟩
    · obtain ⟨ha, hb⟩ := ih h
      exact ⟨List.mem_cons_of_mem _ ha, List.mem_cons_of_mem _ hb⟩

/-- The pairs of a list in increasing order are all those of a lesser and a greater entry. -/
theorem mem_pairs_iff {key : α → Int} {xs : List α} (h : xs.Pairwise fun a b => key a < key b)
    {a b : α} : (a, b) ∈ pairs xs ↔ a ∈ xs ∧ b ∈ xs ∧ key a < key b := by
  constructor
  · induction xs with
    | nil =>
      intro hp
      cases hp
    | cons x xs ih =>
      obtain ⟨hx, hxs⟩ := List.pairwise_cons.mp h
      intro hp
      rcases List.mem_append.mp hp with hp | hp
      · obtain ⟨y, hy, heq⟩ := List.mem_map.mp hp
        obtain ⟨rfl, rfl⟩ := Prod.mk.inj heq
        exact ⟨List.mem_cons_self, List.mem_cons_of_mem _ hy, hx _ hy⟩
      · obtain ⟨ha, hb, hlt⟩ := ih hxs hp
        exact ⟨List.mem_cons_of_mem _ ha, List.mem_cons_of_mem _ hb, hlt⟩
  · induction xs with
    | nil =>
      rintro ⟨ha, _⟩
      cases ha
    | cons x xs ih =>
      obtain ⟨hx, hxs⟩ := List.pairwise_cons.mp h
      rintro ⟨ha, hb, hlt⟩
      rcases List.mem_cons.mp hb with rfl | hlater
      · rcases List.mem_cons.mp ha with rfl | ha
        · omega
        · have hgt := hx a ha
          omega
      · rcases List.mem_cons.mp ha with rfl | ha
        · exact List.mem_append_left _ (List.mem_map_of_mem hlater)
        · exact List.mem_append_right _ (ih hxs ⟨ha, hlater, hlt⟩)

theorem pairs_map (k : α → β) (xs : List α) : pairs (xs.map k) = (pairs xs).map (Prod.map k k) := by
  induction xs with
  | nil => rfl
  | cons x xs ih =>
    rw [List.map_cons, pairs, pairs, ih, List.map_append, List.map_map, List.map_map]
    rfl

theorem nodup_pairs {xs : List α} (h : xs.Nodup) : (pairs xs).Nodup := by
  induction xs with
  | nil => exact List.nodup_nil
  | cons x xs ih =>
    obtain ⟨hx, hxs⟩ := List.nodup_cons.mp h
    refine List.nodup_append'.mpr ⟨hxs.map fun y z hyz => (Prod.mk.inj hyz).2, ih hxs, ?_⟩
    intro q hq hq'
    obtain ⟨y, _, rfl⟩ := List.mem_map.mp hq
    exact hx (mem_of_mem_pairs hq').1

/-- A result has a property, and a fault is one that may occur. -/
def Yields (may : Fault → Prop) (post : α → Prop) : Except Fault α → Prop
  | .ok a => post a
  | .error e => may e

/-- There is a result, or a fault that may occur. -/
abbrev Safe (may : Fault → Prop) (x : Except Fault α) : Prop := Yields may (fun _ => True) x

namespace Yields

variable {may : Fault → Prop} {post : α → Prop}

theorem ok_iff {x : Except Fault α} :
    Yields (fun _ => False) post x ↔ ∃ a, x = .ok a ∧ post a := by
  cases x with
  | ok a =>
    constructor
    · intro h
      exact ⟨a, rfl, h⟩
    · intro h
      obtain ⟨a', ha, h⟩ := h
      obtain rfl := Except.ok.inj ha
      exact h
  | error e =>
    constructor
    · intro h
      exact False.elim h
    · intro h
      obtain ⟨a, ha, _⟩ := h
      cases ha

theorem mono {x : Except Fault α} {post' : α → Prop} (h : Yields may post x)
    (himp : ∀ a, post a → post' a) : Yields may post' x := by
  cases x with
  | ok a => exact himp a h
  | error e => exact h

theorem weaken {x : Except Fault α} {may' : Fault → Prop} (h : Yields may post x)
    (himp : ∀ e, may e → may' e) : Yields may' post x := by
  cases x with
  | ok a => exact h
  | error e => exact himp e h

theorem with_eq {x : Except Fault α} (h : Yields may post x) :
    Yields may (fun a => post a ∧ x = .ok a) x := by
  cases x with
  | ok a => exact ⟨h, rfl⟩
  | error e => exact h

theorem safe {x : Except Fault α} (h : Yields may post x) : Safe may x := h.mono fun _ _ => trivial

/-- Where every fault may occur, nothing is asked. -/
theorem safe_any (x : Except Fault α) : Safe (fun _ => True) x := by
  cases x <;> trivial

theorem bind {x : Except Fault α} {f : α → Except Fault β} {post' : β → Prop}
    (hx : Yields may post x) (hf : ∀ a, post a → Yields may post' (f a)) :
    Yields may post' (x >>= f) := by
  cases x with
  | ok a => exact hf a hx
  | error e => exact hx

theorem mapM {g : α → Except Fault β} {post : β → Prop} {xs : List α}
    (h : ∀ x ∈ xs, Yields may post (g x)) :
    Yields may (fun ys => ∀ y ∈ ys, post y) (xs.mapM g) := by
  induction xs with
  | nil =>
    intro y hy
    cases hy
  | cons x xs ih =>
    rw [List.mapM_cons]
    refine (h x List.mem_cons_self).bind fun y hy => ?_
    refine (ih fun z hz => h z (List.mem_cons_of_mem _ hz)).bind fun ys hys => ?_
    intro z hz
    rcases List.mem_cons.mp hz with rfl | hz
    · exact hy
    · exact hys z hz

theorem collectM {step : α → Except Fault (Option β)} {post : β → Prop} {xs : List α}
    (h : ∀ x ∈ xs, Yields may (fun z => ∀ y, z = some y → post y) (step x)) :
    Yields may (fun ys => ∀ y ∈ ys, post y) (AccountLint.collectM step xs) := by
  induction xs with
  | nil =>
    intro y hy
    cases hy
  | cons x xs ih =>
    refine (h x List.mem_cons_self).bind fun z hz => ?_
    refine (ih fun z hz => h z (List.mem_cons_of_mem _ hz)).bind fun ys hys => ?_
    intro y hy
    rcases List.mem_append.mp hy with hy | hy
    · exact hz y (Option.mem_toList.mp hy)
    · exact hys y hy

theorem concatM {step : α → Except Fault (List β)} {post : β → Prop} {xs : List α}
    (h : ∀ x ∈ xs, Yields may (fun zs => ∀ z ∈ zs, post z) (step x)) :
    Yields may (fun ys => ∀ y ∈ ys, post y) (AccountLint.concatM step xs) := by
  induction xs with
  | nil =>
    intro y hy
    cases hy
  | cons x xs ih =>
    refine (h x List.mem_cons_self).bind fun zs hzs => ?_
    refine (ih fun z hz => h z (List.mem_cons_of_mem _ hz)).bind fun ys hys => ?_
    intro y hy
    rcases List.mem_append.mp hy with hy | hy
    · exact hzs y hy
    · exact hys y hy

theorem forM_safe {g : α → Except Fault Unit} {xs : List α} (h : ∀ x ∈ xs, Safe may (g x)) :
    Safe may (xs.forM g) := by
  induction xs with
  | nil => trivial
  | cons x xs ih =>
    exact (h x List.mem_cons_self).bind fun _ _ => ih fun y hy => h y (List.mem_cons_of_mem _ hy)

theorem mapM_safe {g : α → Except Fault β} {xs : List α} (h : ∀ x ∈ xs, Safe may (g x)) :
    Safe may (xs.mapM g) := by
  have hall : Yields may (fun ys => ∀ y ∈ ys, True) (xs.mapM g) := mapM h
  exact hall.safe

theorem collectM_safe {step : α → Except Fault (Option β)} {xs : List α}
    (h : ∀ x ∈ xs, Safe may (step x)) : Safe may (AccountLint.collectM step xs) := by
  have hall : Yields may (fun ys => ∀ y ∈ ys, True) (AccountLint.collectM step xs) :=
    collectM fun x hx => (h x hx).mono fun _ _ _ _ => trivial
  exact hall.safe

theorem concatM_safe {step : α → Except Fault (List β)} {xs : List α}
    (h : ∀ x ∈ xs, Safe may (step x)) : Safe may (AccountLint.concatM step xs) := by
  have hall : Yields may (fun ys => ∀ y ∈ ys, True) (AccountLint.concatM step xs) :=
    concatM fun x hx => (h x hx).mono fun _ _ _ _ => trivial
  exact hall.safe

theorem anyM {test : α → Except Fault Bool} {xs : List α}
    (h : ∀ x ∈ xs, Safe may (test x)) : Safe may (AccountLint.anyM test xs) := by
  induction xs with
  | nil => trivial
  | cons x xs ih =>
    refine (h x List.mem_cons_self).bind fun b _ => ?_
    split
    · trivial
    · exact ih fun y hy => h y (List.mem_cons_of_mem _ hy)

theorem firstM {step : α → Except Fault (Option β)} {post : β → Prop} {xs : List α}
    (h : ∀ x ∈ xs, Yields may (fun z => ∀ y, z = some y → post y) (step x)) :
    Yields may (fun z => ∀ y, z = some y → post y) (AccountLint.firstM step xs) := by
  induction xs with
  | nil =>
    intro y hy
    cases hy
  | cons x xs ih =>
    refine (h x List.mem_cons_self).bind fun z hz => ?_
    split
    · exact hz
    · exact ih fun y hy => h y (List.mem_cons_of_mem _ hy)

theorem firstM_safe {step : α → Except Fault (Option β)} {xs : List α}
    (h : ∀ x ∈ xs, Safe may (step x)) : Safe may (AccountLint.firstM step xs) := by
  have hall : Yields may (fun z => ∀ y, z = some y → True) (AccountLint.firstM step xs) :=
    firstM fun x hx => (h x hx).mono fun _ _ _ _ => trivial
  exact hall.safe

/-- What every step keeps holds at the end. -/
theorem foldlM {step : β → α → Except Fault β} {inv : β → Prop} {xs : List α} {b : β} (hb : inv b)
    (h : ∀ b, inv b → ∀ x ∈ xs, Yields may inv (step b x)) :
    Yields may inv (xs.foldlM step b) := by
  induction xs generalizing b with
  | nil => exact hb
  | cons x xs ih =>
    rw [List.foldlM_cons]
    refine (h b hb x List.mem_cons_self).bind fun c hc => ?_
    exact ih hc fun d hd y hy => h d hd y (List.mem_cons_of_mem _ hy)

end Yields

end AccountLint

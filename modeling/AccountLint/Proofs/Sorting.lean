import Mathlib.Data.List.Induction
import Mathlib.Data.List.Nodup
import Mathlib.Data.List.Sort
import AccountLint.Sorting

/-! Sorted lists, and lists used as sets and as tables. -/
namespace AccountLint

variable {α β : Type}

section Sorting

variable {le : α → α → Bool}

private theorem insertBy_eq_orderedInsert (x : α) (ys : List α) :
    insertBy le x ys = ys.orderedInsert (fun a b => le a b = true) x := by
  induction ys with
  | nil => rfl
  | cons y ys ih =>
    rw [insertBy, List.orderedInsert_cons, ih]

theorem sortBy_eq_insertionSort (xs : List α) :
    sortBy le xs = xs.insertionSort fun a b => le a b = true := by
  induction xs with
  | nil => rfl
  | cons x xs ih => rw [sortBy, List.insertionSort_cons, ih, insertBy_eq_orderedInsert]

theorem sortBy_perm (le : α → α → Bool) (xs : List α) : (sortBy le xs).Perm xs := by
  rw [sortBy_eq_insertionSort]
  exact List.perm_insertionSort _ xs

theorem mem_sortBy {y : α} {xs : List α} : y ∈ sortBy le xs ↔ y ∈ xs := by
  rw [sortBy_eq_insertionSort]
  exact List.mem_insertionSort _

end Sorting

/-- Where no key occurs twice, an entry is found under its key. -/
theorem lookup_of_mem [BEq α] [LawfulBEq α] {k : α} {b : β} {l : List (α × β)}
    (hd : (l.map Prod.fst).Nodup) (h : (k, b) ∈ l) : l.lookup k = some b := by
  induction l with
  | nil => cases h
  | cons e rest ih =>
    obtain ⟨c, d⟩ := e
    rw [List.map_cons, List.nodup_cons] at hd
    rw [List.lookup_cons]
    rcases List.mem_cons.mp h with heq | hm
    · obtain ⟨rfl, rfl⟩ := Prod.mk.inj heq
      rw [beq_self_eq_true]
    · have hne : k ≠ c := by
        rintro rfl
        exact hd.1 (List.mem_map.mpr ⟨(k, b), hm, rfl⟩)
      rw [beq_eq_false_iff_ne.mpr hne]
      exact ih hd.2 hm

theorem lookup_isSome_iff [BEq α] [LawfulBEq α] {k : α} {l : List (α × β)} :
    (l.lookup k).isSome = true ↔ k ∈ l.map Prod.fst := by
  rw [List.lookup_isSome_iff]
  simp

theorem mem_foldl_addNew [BEq α] [LawfulBEq α] {x : α} (xs seen : List α) :
    x ∈ xs.foldl addNew seen ↔ x ∈ seen ∨ x ∈ xs := by
  induction xs generalizing seen with
  | nil => simp
  | cons y ys ih =>
    rw [List.foldl_cons, ih, List.mem_cons]
    unfold addNew
    split
    · rename_i hc
      have hy := List.contains_iff_mem.mp hc
      constructor
      · intro h
        exact h.imp id Or.inr
      · intro h
        rcases h with hs | rfl | hys
        · exact Or.inl hs
        · exact Or.inl hy
        · exact Or.inr hys
    · rw [List.mem_append, List.mem_singleton, or_assoc]

theorem mem_distinct [BEq α] [LawfulBEq α] {x : α} {xs : List α} : x ∈ distinct xs ↔ x ∈ xs := by
  unfold distinct
  rw [mem_foldl_addNew]
  simp

theorem nodup_foldl_addNew [BEq α] [LawfulBEq α] {seen : List α} (h : seen.Nodup)
    (xs : List α) : (xs.foldl addNew seen).Nodup := by
  induction xs generalizing seen with
  | nil => exact h
  | cons x xs ih =>
    refine ih ?_
    unfold addNew
    split
    · exact h
    · rename_i hx
      refine List.nodup_append.mpr ⟨h, List.nodup_singleton x, fun a ha b hb hab => ?_⟩
      obtain rfl := List.mem_singleton.mp hb
      subst hab
      exact hx (List.contains_iff_mem.mpr ha)

theorem nodup_distinct [BEq α] [LawfulBEq α] (xs : List α) : (distinct xs).Nodup :=
  nodup_foldl_addNew List.nodup_nil xs

theorem distinct_of_nodup [BEq α] [LawfulBEq α] {xs : List α} (h : xs.Nodup) :
    distinct xs = xs := by
  have hrun : ∀ (rest seen : List α), (seen ++ rest).Nodup → rest.foldl addNew seen = seen ++ rest := by
    intro rest
    induction rest with
    | nil => exact fun seen _ => (List.append_nil seen).symm
    | cons x rest ih =>
      intro seen hnodup
      have hx : x ∉ seen := fun hmem =>
        (List.nodup_append.mp hnodup).2.2 x hmem x List.mem_cons_self rfl
      rw [List.append_cons] at hnodup ⊢
      rw [List.foldl_cons, addNew, if_neg (by simpa using hx), ih _ hnodup]
  exact hrun xs [] h

theorem distinct_map [BEq α] [LawfulBEq α] [BEq β] [LawfulBEq β] {k : α → β}
    (hk : Function.Injective k) (xs : List α) : distinct (xs.map k) = (distinct xs).map k := by
  unfold distinct
  rw [List.foldl_map]
  change List.foldl _ (([] : List α).map k) xs = _
  refine List.foldl_hom (List.map k) fun seen x => ?_
  have hmem : (seen.map k).contains (k x) = seen.contains x := by
    rw [Bool.eq_iff_iff, List.contains_iff_mem, List.contains_iff_mem, List.mem_map_of_injective hk]
  unfold addNew
  rw [hmem]
  split
  · rfl
  · rw [List.map_append, List.map_singleton]

private theorem distinctBy_concat (eq : α → α → Bool) (xs : List α) (x : α) :
    distinctBy eq (xs ++ [x]) =
      if (distinctBy eq xs).any (eq · x) then distinctBy eq xs else distinctBy eq xs ++ [x] := by
  unfold distinctBy
  rw [List.foldl_append]
  rfl

theorem distinctBy_sublist (eq : α → α → Bool) (xs : List α) : (distinctBy eq xs).Sublist xs := by
  induction xs using List.reverseRecOn with
  | nil => exact .slnil
  | append_singleton xs x ih =>
    rw [distinctBy_concat]
    split
    · exact ih.trans (List.sublist_append_left xs [x])
    · exact ih.append (.refl [x])

theorem distinctBy_subset {eq : α → α → Bool} {x : α} {xs : List α} (h : x ∈ distinctBy eq xs) :
    x ∈ xs := (distinctBy_sublist eq xs).subset h

/-- Every entry equals one of those that are kept, if equality passes from one to the next. -/
theorem exists_mem_distinctBy {eq : α → α → Bool} (hrefl : ∀ a, eq a a = true) {x : α}
    {xs : List α} (h : x ∈ xs) : ∃ y ∈ distinctBy eq xs, eq y x = true := by
  induction xs using List.reverseRecOn with
  | nil => cases h
  | append_singleton xs z ih =>
    rw [distinctBy_concat]
    rcases List.mem_append.mp h with h | h
    · obtain ⟨y, hy, he⟩ := ih h
      split
      · exact ⟨y, hy, he⟩
      · exact ⟨y, List.mem_append_left _ hy, he⟩
    · obtain rfl := List.mem_singleton.mp h
      split
      · rename_i hany
        obtain ⟨y, hy, he⟩ := List.any_eq_true.mp hany
        exact ⟨y, hy, he⟩
      · exact ⟨x, List.mem_append_right _ List.mem_cons_self, hrefl x⟩

/-- In a list in increasing order, what is kept of equal entries is the least of them. -/
theorem mem_distinctBy_iff {eq : α → α → Bool} (hrefl : ∀ a, eq a a = true)
    (htrans : ∀ a b c, eq a b = true → eq b c = true → eq a c = true) {key : α → Int} {xs : List α}
    (hsorted : xs.Pairwise fun a b => key a < key b) {x : α} :
    x ∈ distinctBy eq xs ↔ x ∈ xs ∧ ∀ y ∈ xs, eq y x = true → key x ≤ key y := by
  induction xs using List.reverseRecOn with
  | nil => simp [distinctBy]
  | append_singleton xs z ih =>
    rw [List.pairwise_append] at hsorted
    obtain ⟨hxs, _, hlast⟩ := hsorted
    replace hlast : ∀ y ∈ xs, key y < key z := fun y hy => hlast y hy z List.mem_cons_self
    -- the last entry is greater than all others, and so it decides nothing about them
    have hbefore : x ∈ distinctBy eq xs ↔
        x ∈ xs ∧ ∀ y ∈ xs ++ [z], eq y x = true → key x ≤ key y := by
      rw [ih hxs]
      refine and_congr_right fun hx => ?_
      have hlt := hlast x hx
      constructor
      · intro h y hy he
        rcases List.mem_append.mp hy with hy | hy
        · exact h y hy he
        · rw [List.mem_singleton.mp hy]
          omega
      · exact fun h y hy => h y (List.mem_append_left _ hy)
    rw [distinctBy_concat]
    split
    · rename_i hany
      obtain ⟨y, hy, he⟩ := List.any_eq_true.mp hany
      rw [hbefore, List.mem_append, List.mem_singleton]
      refine and_congr_left fun hleast => ⟨Or.inl, fun hx => ?_⟩
      refine hx.resolve_right ?_
      rintro rfl
      have hxy := hleast y (List.mem_append_left _ (distinctBy_subset hy)) he
      have hyx := hlast y (distinctBy_subset hy)
      omega
    · rename_i hnone
      rw [List.mem_append, hbefore, List.mem_append, List.mem_singleton, or_and_right]
      refine or_congr_right ⟨fun hx => ⟨hx, ?_⟩, And.left⟩
      subst hx
      intro y hy he
      rcases List.mem_append.mp hy with hy | hy
      · obtain ⟨k, hk, hke⟩ := exists_mem_distinctBy hrefl hy
        exact absurd (List.any_eq_true.mpr ⟨k, hk, htrans k y x hke he⟩) hnone
      · exact Int.le_of_eq (congrArg key (List.mem_singleton.mp hy).symm)

end AccountLint

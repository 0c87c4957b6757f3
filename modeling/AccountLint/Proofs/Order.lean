import AccountLint.Cosplay.TypeSet
import AccountLint.Proofs.Sorting
import AccountLint.Report.Diagnostic

/-! The orders of findings and of sites, and sorting by them. Sorting puts entries into the order
and keeps level ones as they stand, so that it commutes with leaving entries out; where no two
entries are level, it depends on the entries only. -/
namespace AccountLint

variable {α : Type} {le : α → α → Bool}

/-- Any two entries have an order, and the order passes from one to the next. -/
structure Ordered (le : α → α → Bool) : Prop where
  total : ∀ a b, le a b = true ∨ le b a = true
  trans : ∀ a b c, le a b = true → le b c = true → le a c = true

namespace Ordered

/-- Comparing parts of entries one after the other orders the entries. -/
theorem ofCmp (cmp : α → α → Ordering) [Std.TransCmp cmp] : Ordered fun a b => (cmp a b).isLE where
  total a b := by
    have hswap : cmp b a = (cmp a b).swap := Std.OrientedCmp.eq_swap
    rw [hswap]
    cases cmp a b <;> simp
  trans a b c := Std.TransCmp.isLE_trans

theorem pairwise_sortBy (h : Ordered le) (xs : List α) :
    (sortBy le xs).Pairwise fun a b => le a b = true := by
  have : Std.Total fun a b : α => le a b = true := ⟨h.total⟩
  have : IsTrans α fun a b => le a b = true := ⟨h.trans⟩
  rw [sortBy_eq_insertionSort]
  exact List.pairwise_insertionSort _ xs

private theorem insertBy_of_forall {x : α} {ys : List α} (h : ∀ y ∈ ys, le x y = true) :
    insertBy le x ys = x :: ys := by
  cases ys with
  | nil => rfl
  | cons y ys => rw [insertBy, if_pos (h y List.mem_cons_self)]

/-- What is left of a sorted list with one entry more. -/
theorem filter_insertBy (h : Ordered le) (keep : α → Bool) (x : α) {ys : List α}
    (hys : ys.Pairwise fun a b => le a b = true) :
    (insertBy le x ys).filter keep =
      if keep x then insertBy le x (ys.filter keep) else ys.filter keep := by
  induction ys with
  | nil => simp [insertBy, List.filter_cons]
  | cons y ys ih =>
    obtain ⟨hy, hrest⟩ := List.pairwise_cons.mp hys
    rw [insertBy]
    split
    · rename_i hxy
      -- All that is kept of `y :: ys` is behind `x`, for it is `y` or behind `y`.
      have hall : ∀ z ∈ (y :: ys).filter keep, le x z = true := by
        intro z hz
        rcases List.mem_cons.mp (List.mem_filter.mp hz).1 with rfl | hz
        · exact hxy
        · exact h.trans x y z hxy (hy z hz)
      rw [insertBy_of_forall hall, List.filter_cons]
    · rename_i hxy
      rw [List.filter_cons, ih hrest, List.filter_cons]
      by_cases hky : keep y = true
      · by_cases hkx : keep x = true
        · simp only [hky, hkx, if_true]
          rw [insertBy, if_neg hxy]
        · simp only [hky, hkx, if_true, if_false, Bool.false_eq_true]
      · simp only [hky, if_false, Bool.false_eq_true]

private theorem filter_sortBy (h : Ordered le) (keep : α → Bool) (xs : List α) :
    (sortBy le xs).filter keep = sortBy le (xs.filter keep) := by
  induction xs with
  | nil => rfl
  | cons x xs ih =>
    rw [sortBy, h.filter_insertBy keep x (h.pairwise_sortBy xs), ih, List.filter_cons]
    split
    · rw [sortBy]
    · rfl

/-- Where level entries are equal, sorting depends on the entries only. -/
theorem sortBy_eq_of_perm (h : Ordered le) {xs ys : List α}
    (hlevel : ∀ a ∈ xs, ∀ b ∈ ys, le a b = true → le b a = true → a = b) (hp : xs.Perm ys) :
    sortBy le xs = sortBy le ys := by
  refine List.Perm.eq_of_pairwise ?_ (h.pairwise_sortBy xs) (h.pairwise_sortBy ys) ?_
  · intro a b ha hb
    exact hlevel a (mem_sortBy.mp ha) b (mem_sortBy.mp hb)
  · exact (sortBy_perm le xs).trans (hp.trans (sortBy_perm le ys).symm)

end Ordered

/-- Where parts of the entries decide the order, sorting the entries sorts the parts. -/
theorem map_sortBy {β : Type} {part : α → β} {le' : β → β → Bool}
    (hle : ∀ a b, le a b = le' (part a) (part b)) (xs : List α) :
    (sortBy le xs).map part = sortBy le' (xs.map part) := by
  rw [sortBy_eq_insertionSort, sortBy_eq_insertionSort]
  exact List.map_insertionSort _ _ part xs fun a _ b _ => by rw [hle]

private theorem Location.cmp_eq_iff {a b : Location} : a.cmp b = .eq ↔ a = b := by
  unfold cmp
  rw [Ordering.then_eq_eq, Ordering.then_eq_eq, Std.compare_eq_iff_eq, Std.compare_eq_iff_eq,
    Std.compare_eq_iff_eq]
  cases a
  cases b
  simp

instance : Ord Location := ⟨Location.cmp⟩

instance : Std.TransOrd Location :=
  inferInstanceAs (Std.TransCmp (compareLex (compareOn Location.file)
    (compareLex (compareOn Location.line) (compareOn Location.column))))

namespace DeserializationSite

theorem ordered_le : Ordered DeserializationSite.le :=
  .ofCmp (compareLex (compareOn location) (compareOn function))

/-- Of one type there are no two sites at one place in functions of one name. -/
theorem eq_of_le {a b : DeserializationSite} (htype : a.type = b.type) (hab : a.le b = true)
    (hba : b.le a = true) : a = b := by
  have hcmp : compareLex (compareOn location) (compareOn function) a b = .eq :=
    Std.OrientedCmp.isLE_antisymm hab hba
  obtain ⟨hlocation, hfunction⟩ := Ordering.then_eq_eq.mp hcmp
  have hlocation : a.location = b.location := Location.cmp_eq_iff.mp hlocation
  have hfunction : a.function = b.function := Std.compare_eq_iff_eq.mp hfunction
  cases a
  cases b
  simp_all

end DeserializationSite

namespace Diagnostic

/-- What the order of findings looks at: file, line, column, category and message. -/
def sortKey (d : Diagnostic) : String × Int × Int × String × String :=
  (d.location.file, d.location.line, d.location.column, d.category, d.message)

private theorem ordered_le : Ordered Diagnostic.le :=
  .ofCmp (compareLex (compareOn location) (compareLex (compareOn category) (compareOn message)))

/-- Leaving out findings before or after they are put in order is the same. -/
theorem filter_sort (keep : Diagnostic → Bool) (ds : List Diagnostic) :
    (sort ds).filter keep = sort (ds.filter keep) := ordered_le.filter_sortBy keep ds

def keyCmp (k l : String × Int × Int × String × String) : Ordering :=
  ((compare k.1 l.1).then ((compare k.2.1 l.2.1).then (compare k.2.2.1 l.2.2.1))).then
    ((compare k.2.2.2.1 l.2.2.2.1).then (compare k.2.2.2.2 l.2.2.2.2))

instance : Std.TransCmp keyCmp :=
  inferInstanceAs (Std.TransCmp (compareLex
    (compareLex (compareOn fun k : String × Int × Int × String × String => k.1)
      (compareLex (compareOn fun k => k.2.1) (compareOn fun k => k.2.2.1)))
    (compareLex (compareOn fun k => k.2.2.2.1) (compareOn fun k => k.2.2.2.2))))

private theorem eq_of_keyCmp {k l : String × Int × Int × String × String}
    (hkl : (keyCmp k l).isLE = true) (hlk : (keyCmp l k).isLE = true) : k = l := by
  have hcmp : keyCmp k l = .eq := Std.OrientedCmp.isLE_antisymm hkl hlk
  simp only [keyCmp, Ordering.then_eq_eq, Std.compare_eq_iff_eq] at hcmp
  obtain ⟨⟨hfile, hline, hcolumn⟩, hcategory, hmessage⟩ := hcmp
  exact Prod.ext hfile (Prod.ext hline (Prod.ext hcolumn (Prod.ext hcategory hmessage)))

/-- The keys of findings in order depend on the findings only, and not on how they stood before. -/
theorem map_sortKey_sort {ds ds' : List Diagnostic} (h : ds.Perm ds') :
    (sort ds).map sortKey = (sort ds').map sortKey := by
  have hkeys : ∀ es : List Diagnostic,
      (sort es).map sortKey = sortBy (fun k l => (keyCmp k l).isLE) (es.map sortKey) :=
    map_sortBy fun _ _ => rfl
  rw [hkeys, hkeys]
  exact (Ordered.ofCmp keyCmp).sortBy_eq_of_perm (fun _ _ _ _ => eq_of_keyCmp) (h.map sortKey)

end Diagnostic
end AccountLint

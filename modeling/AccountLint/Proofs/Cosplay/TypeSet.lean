import Mathlib.Data.Finset.Card
import AccountLint.Proofs.Order
import AccountLint.Proofs.Sorting

/-! Sets of deserialized types. A set is put together by adding sites and by merging other sets into
it. The answers that it gives are decided by the sites that went in: neither the order of the steps
nor their grouping counts, and a site that comes twice counts once. -/
namespace AccountLint

namespace DeserializationSite

/-- The order in which the sites of a type are listed: by file, line, column and function. -/
def Before (a b : DeserializationSite) : Prop :=
  a.location.file < b.location.file ∨ a.location.file = b.location.file ∧
    (a.location.line < b.location.line ∨ a.location.line = b.location.line ∧
      (a.location.column < b.location.column ∨ a.location.column = b.location.column ∧
        a.function < b.function))

/-- A site that does not come behind another one of its type comes before it, or is the same. -/
theorem before_of_le {a b : DeserializationSite} (htype : a.type = b.type) (hne : a ≠ b)
    (hab : a.le b = true) : a.Before b := by
  have htext : ∀ s t : String, compare s t = .lt ↔ s < t := fun _ _ => compareOfLessAndEq_eq_lt
  have hlt : (a.location.cmp b.location).then (compare a.function b.function) = .lt := by
    have hba : b.le a ≠ true := fun hba => hne (eq_of_le htype hab hba)
    have hswap : (a.location.cmp b.location).then (compare a.function b.function) =
        ((b.location.cmp a.location).then (compare b.function a.function)).swap :=
      (inferInstance : Std.OrientedCmp (compareLex (compareOn location) (compareOn function))).eq_swap
    unfold le at hab hba
    rw [hswap] at hab ⊢
    generalize (b.location.cmp a.location).then (compare b.function a.function) = c at hab hba ⊢
    cases c with
    | lt => exact absurd rfl hba
    | eq => exact absurd rfl hba
    | gt => rfl
  unfold Location.cmp at hlt
  simpa only [Ordering.then_eq_lt, Ordering.then_eq_eq, Std.compare_eq_iff_eq, htext,
    Std.compare_eq_lt, and_assoc, or_assoc, and_or_left, Before] using hlt

end DeserializationSite

namespace TypeSet

variable {s t : TypeSet}

private theorem sites_foldl_add (s : TypeSet) (sites : List DeserializationSite) :
    (sites.foldl add s).sites = sites.foldl addNew s.sites := by
  induction sites generalizing s with
  | nil => rfl
  | cons site sites ih => exact ih (s.add site)

theorem mem_foldl_add {site : DeserializationSite} {sites : List DeserializationSite} :
    site ∈ (sites.foldl add s).sites ↔ site ∈ s.sites ∨ site ∈ sites := by
  rw [sites_foldl_add]
  exact mem_foldl_addNew sites s.sites

private theorem mem_add {site new : DeserializationSite} :
    site ∈ (s.add new).sites ↔ site ∈ s.sites ∨ site = new := by
  have hfold : site ∈ ([new].foldl add s).sites ↔ site ∈ s.sites ∨ site ∈ [new] := mem_foldl_add
  rwa [List.mem_singleton] at hfold

private theorem nodup_foldl_add (h : s.sites.Nodup) (sites : List DeserializationSite) :
    (sites.foldl add s).sites.Nodup := by
  rw [sites_foldl_add]
  exact nodup_foldl_addNew h sites

theorem nodup_merge (h : s.sites.Nodup) (t : TypeSet) : (s.merge t).sites.Nodup :=
  nodup_foldl_add h _

theorem mem_ids {i : Int} : i ∈ s.ids ↔ ∃ site ∈ s.sites, site.type = i := by
  unfold ids sortInts
  rw [mem_sortBy, mem_distinct, List.mem_map]

theorem mem_sitesOf {i : Int} {site : DeserializationSite} :
    site ∈ s.sitesOf i ↔ site ∈ s.sites ∧ site.type = i := by
  unfold sitesOf
  rw [mem_sortBy, List.mem_filter, beq_iff_eq]

/-- What a set lists, type by type, are its sites. -/
theorem mem_flatMap_sitesOf {site : DeserializationSite} :
    site ∈ s.ids.flatMap s.sitesOf ↔ site ∈ s.sites := by
  simp only [List.mem_flatMap, mem_ids, mem_sitesOf]
  constructor
  · rintro ⟨_, _, hsite, _⟩
    exact hsite
  · intro hsite
    exact ⟨site.type, ⟨site, hsite, rfl⟩, hsite, rfl⟩

theorem mem_merge {site : DeserializationSite} :
    site ∈ (s.merge t).sites ↔ site ∈ s.sites ∨ site ∈ t.sites := by
  rw [← mem_flatMap_sitesOf (s := t)]
  exact mem_foldl_add

private theorem ordered_int : Ordered fun a b : Int => decide (a ≤ b) := by
  constructor
  · intro a b
    simpa using Int.le_total a b
  · intro a b c hab hbc
    simp only [decide_eq_true_eq] at hab hbc ⊢
    exact Int.le_trans hab hbc

/-- The ids of types do not depend on the order of their sites. -/
theorem ids_congr (h : s.sites.Perm t.sites) : s.ids = t.ids := by
  unfold ids sortInts
  refine ordered_int.sortBy_eq_of_perm ?_ ?_
  · intro a _ b _ hab hba
    exact Int.le_antisymm (of_decide_eq_true hab) (of_decide_eq_true hba)
  · refine (List.perm_ext_iff_of_nodup (nodup_distinct _) (nodup_distinct _)).mpr fun i => ?_
    rw [mem_distinct, mem_distinct]
    exact (h.map _).mem_iff

/-- The first site of a type and the others do not depend on the order of the sites: they are put
into their own. -/
theorem sitesOf_congr (h : s.sites.Perm t.sites) : s.sitesOf = t.sitesOf := by
  funext type
  refine DeserializationSite.ordered_le.sortBy_eq_of_perm ?_ (h.filter _)
  intro a ha b hb
  have hat := beq_iff_eq.mp (List.mem_filter.mp ha).2
  have hbt := beq_iff_eq.mp (List.mem_filter.mp hb).2
  exact DeserializationSite.eq_of_le (hat.trans hbt.symm)

theorem nodup_ids (s : TypeSet) : s.ids.Nodup :=
  (sortBy_perm _ _).nodup_iff.mpr (nodup_distinct _)

theorem pairwise_ids (s : TypeSet) : s.ids.Pairwise (· < ·) := by
  have hle : s.ids.Pairwise fun a b => decide (a ≤ b) = true := ordered_int.pairwise_sortBy _
  refine (hle.and s.nodup_ids).imp ?_
  intro a b hab
  have := of_decide_eq_true hab.1
  have := hab.2
  omega

private theorem pairwise_sitesOf (h : s.sites.Nodup) (i : Int) :
    (s.sitesOf i).Pairwise DeserializationSite.Before := by
  have hle : (s.sitesOf i).Pairwise fun a b => a.le b = true :=
    DeserializationSite.ordered_le.pairwise_sortBy _
  have hnodup : (s.sitesOf i).Nodup := (sortBy_perm _ _).nodup_iff.mpr (h.filter _)
  refine (hle.and hnodup).imp_of_mem ?_
  intro a b ha hb hab
  have htype : a.type = b.type := (mem_sitesOf.mp ha).2.trans (mem_sitesOf.mp hb).2.symm
  exact DeserializationSite.before_of_le htype hab.2 hab.1

private theorem contains_iff {i : Int} : s.contains i = true ↔ i ∈ s.ids := by
  unfold contains
  rw [mem_ids, List.any_eq_true]
  simp

/-- Two sets give the same answers. -/
structure SameView (s t : TypeSet) : Prop where
  ids : s.ids = t.ids
  sitesOf : ∀ i, s.sitesOf i = t.sitesOf i
  size : s.size = t.size
  contains : ∀ i, s.contains i = t.contains i

private theorem SameView.of_perm (h : s.sites.Perm t.sites) : s.SameView t where
  ids := ids_congr h
  sitesOf := congrFun (sitesOf_congr h)
  size := congrArg List.length (ids_congr h)
  contains i := by rw [Bool.eq_iff_iff, contains_iff, contains_iff, ids_congr h]

/-- A set gives the answers that follow from some sites: their types in increasing order, and for
each of them all of its sites in their order, none of them twice. -/
structure Shows (s : TypeSet) (sites : Finset DeserializationSite) : Prop where
  mem_ids : ∀ i, i ∈ s.ids ↔ i ∈ sites.image (·.type)
  ids_increase : s.ids.Pairwise (· < ·)
  mem_sitesOf : ∀ i site, site ∈ s.sitesOf i ↔ site ∈ sites ∧ site.type = i
  sitesOf_increase : ∀ i, (s.sitesOf i).Pairwise DeserializationSite.Before
  size : s.size = (sites.image (·.type)).card
  contains : ∀ i, s.contains i = true ↔ i ∈ sites.image (·.type)

/-- A set that is put together step by step, and the sites that went in. -/
inductive Gathered : TypeSet → Finset DeserializationSite → Prop where
  | empty : Gathered {} ∅
  | add {s : TypeSet} {sites : Finset DeserializationSite} (h : Gathered s sites)
      (site : DeserializationSite) : Gathered (s.add site) (insert site sites)
  | merge {s t : TypeSet} {sites others : Finset DeserializationSite} (hs : Gathered s sites)
      (ht : Gathered t others) : Gathered (s.merge t) (sites ∪ others)

namespace Gathered

variable {u : TypeSet} {sites others further : Finset DeserializationSite}

/-- What each step keeps: a set has the sites that went in, and has none of them twice. -/
theorem holds (h : s.Gathered sites) : s.sites.Nodup ∧ ∀ site, site ∈ s.sites ↔ site ∈ sites := by
  induction h with
  | empty => exact ⟨List.nodup_nil, fun site => by simp⟩
  | @add s sites _ new ih =>
    obtain ⟨hnodup, hmem⟩ := ih
    refine ⟨nodup_foldl_add hnodup [new], fun site => ?_⟩
    rw [mem_add, hmem, Finset.mem_insert, or_comm]
  | merge _ _ ihs iht =>
    refine ⟨nodup_merge ihs.1 _, fun site => ?_⟩
    rw [mem_merge, ihs.2, iht.2, Finset.mem_union]

private theorem perm (hs : s.Gathered sites) (ht : t.Gathered sites) : s.sites.Perm t.sites := by
  refine (List.perm_ext_iff_of_nodup hs.holds.1 ht.holds.1).mpr fun site => ?_
  rw [hs.holds.2, ht.holds.2]

private theorem shows (h : s.Gathered sites) : s.Shows sites := by
  obtain ⟨hnodup, hmem⟩ := h.holds
  have hids : ∀ i, i ∈ s.ids ↔ i ∈ sites.image (·.type) := by
    intro i
    simp only [TypeSet.mem_ids, Finset.mem_image, hmem]
  refine ⟨hids, s.pairwise_ids, fun i site => ?_, pairwise_sitesOf hnodup, ?_, fun i => ?_⟩
  · rw [TypeSet.mem_sitesOf, hmem]
  · have hfinset : s.ids.toFinset = sites.image (·.type) := by
      ext i
      rw [List.mem_toFinset, hids]
    rw [← hfinset, List.toFinset_card_of_nodup s.nodup_ids]
    rfl
  · rw [contains_iff, hids]

/-- Two sets give the same answers just if the same sites went in. -/
theorem sameView_iff (hs : s.Gathered sites) (ht : t.Gathered others) :
    s.SameView t ↔ sites = others := by
  constructor
  · intro h
    ext site
    have hsite := congrArg (site ∈ ·) (h.sitesOf site.type)
    simpa [hs.shows.mem_sitesOf, ht.shows.mem_sitesOf] using hsite
  · rintro rfl
    exact .of_perm (hs.perm ht)

private theorem foldl_add (h : s.Gathered sites) (more : List DeserializationSite) :
    (more.foldl TypeSet.add s).Gathered (sites ∪ more.toFinset) := by
  induction more generalizing s sites with
  | nil => simpa using h
  | cons site more ih =>
    have hstep := ih (h.add site)
    rwa [List.foldl_cons, List.toFinset_cons, Finset.union_insert, ← Finset.insert_union]

/-- Adding the sites of another set, in the order in which they went in, is merging it. -/
theorem foldl_sites (hs : s.Gathered sites) (ht : t.Gathered others) :
    (t.sites.foldl TypeSet.add s).Gathered (sites ∪ others) := by
  have hsites : t.sites.toFinset = others := by
    ext site
    rw [List.mem_toFinset, ht.holds.2]
  rw [← hsites]
  exact hs.foldl_add _

end Gathered

private theorem gathered_ofSites (sites : List DeserializationSite) :
    (ofSites sites).Gathered sites.toFinset := by
  have h := Gathered.empty.foldl_add sites
  rwa [Finset.empty_union] at h

/-- However a set is put together, its answers follow from the sites that went in, and two sets give
the same answers just if the same sites went in. So merging is a join: it does not matter in which
order or grouping sets are merged, nor how often, and merging goes through what a set lists without
a loss. -/
theorem gathered_join {s t u : TypeSet} {sites others further : Finset DeserializationSite}
    (hs : s.Gathered sites) (ht : t.Gathered others) (hu : u.Gathered further) :
    s.Shows sites ∧ (s.SameView t ↔ sites = others) ∧
      (s.merge t).SameView (t.merge s) ∧
      ((s.merge t).merge u).SameView (s.merge (t.merge u)) ∧
      (s.merge s).SameView s ∧
      (s.merge t).SameView (t.sites.foldl add s) := by
  refine ⟨hs.shows, hs.sameView_iff ht, ?_, ?_, ?_, ?_⟩
  · exact ((hs.merge ht).sameView_iff (ht.merge hs)).mpr (Finset.union_comm _ _)
  · exact (((hs.merge ht).merge hu).sameView_iff (hs.merge (ht.merge hu))).mpr
      (Finset.union_assoc _ _ _)
  · exact ((hs.merge hs).sameView_iff hs).mpr (Finset.union_self _)
  · exact ((hs.merge ht).sameView_iff (hs.foldl_sites ht)).mpr rfl

def siteAt (type : Int) (function : String) (line : Int) : DeserializationSite :=
  ⟨type, function, { file := "lib.rs", line := line }⟩

theorem gathered_join_repeated :
    ∃ sites others further,
      (ofSites [siteAt 1 "store" 7, siteAt 1 "load" 3, siteAt 1 "store" 7]).Gathered sites ∧
      ((ofSites [siteAt 1 "load" 3]).merge (ofSites [siteAt 1 "store" 7])).Gathered others ∧
      (ofSites [siteAt 0 "load" 3]).Gathered further ∧ sites = others ∧ sites ≠ further ∧
      (ofSites [siteAt 1 "store" 7, siteAt 1 "load" 3, siteAt 1 "store" 7]).SameView
        ((ofSites [siteAt 1 "load" 3]).merge (ofSites [siteAt 1 "store" 7])) ∧
      (ofSites [siteAt 1 "store" 7, siteAt 1 "load" 3, siteAt 1 "store" 7]).sitesOf 1 =
        [siteAt 1 "load" 3, siteAt 1 "store" 7] := by
  have hs := gathered_ofSites [siteAt 1 "store" 7, siteAt 1 "load" 3, siteAt 1 "store" 7]
  have ht := (gathered_ofSites [siteAt 1 "load" 3]).merge (gathered_ofSites [siteAt 1 "store" 7])
  have hu := gathered_ofSites [siteAt 0 "load" 3]
  have hsame : [siteAt 1 "store" 7, siteAt 1 "load" 3, siteAt 1 "store" 7].toFinset =
      [siteAt 1 "load" 3].toFinset ∪ [siteAt 1 "store" 7].toFinset := by
    decide
  refine ⟨_, _, _, hs, ht, hu, hsame, by decide, ?_, by decide +kernel⟩
  exact (gathered_join hs ht hu).2.1.mpr hsame

end TypeSet
end AccountLint

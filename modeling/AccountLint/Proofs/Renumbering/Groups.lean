import AccountLint.Proofs.Outcome
import AccountLint.Proofs.Renumbering.Types
import AccountLint.Proofs.Sorting

/-! Pairs of entries with the same type, the types in increasing order: with other numbers the types
come in another order, and the pairs are the same. -/
namespace AccountLint

variable {α β : Type} {ρ : Equiv.Perm Int}

namespace TypeRef

theorem renumber_injective (ρ : Equiv.Perm Int) : Function.Injective (renumber ρ) :=
  Function.LeftInverse.injective (renumber_symm_renumber ρ)

/-- References are put into the order of their new positions, if they can be compared at all. -/
theorem sorted_renumber (ts : List TypeRef) :
    Alike (fun us us' => us'.Perm (us.map (renumber ρ))) (sorted ts) (sorted (ts.map (renumber ρ))) := by
  unfold sorted sortedSet
  extract_lets keys keys'
  have hlength : keys'.length = keys.length := by
    unfold keys keys'
    rw [List.length_map, List.length_map, List.length_map]
  have htext : keys'.all (·.text?.isSome) = keys.all (·.text?.isSome) := by
    unfold keys keys'
    rw [List.all_map, List.all_map, List.all_map]
    refine congrArg (fun test => ts.all test) (funext fun t => ?_)
    cases t <;> rfl
  have hnumber : keys'.all Value.isNumber = keys.all Value.isNumber := by
    unfold keys keys'
    rw [List.all_map, List.all_map, List.all_map]
    refine congrArg (fun test => ts.all test) (funext fun t => ?_)
    cases t <;> rfl
  rw [hlength, htext, hnumber]
  split
  · refine .ok (((sortBy_perm _ _).map _).trans ?_)
    refine .trans (.of_eq ?_) (((sortBy_perm _ _).map _).map _).symm
    unfold keys keys'
    rw [List.map_map, List.map_map, List.map_map, List.map_map]
    refine List.map_congr_left fun t _ => ?_
    cases t <;> rfl
  · exact .error _

end TypeRef

/-- Entries are grouped by the same types in another order, and every group keeps its pairs. -/
theorem sorted_pairs_renumber {key : α → TypeRef} {key' : β → TypeRef} {k : α → β}
    (hkey : ∀ x, key' (k x) = (key x).renumber ρ) (xs : List α) :
    Alike (fun ts ts' => (ts'.flatMap fun t => pairs ((xs.map k).filter (key' · == t))).Perm
        ((ts.flatMap fun t => pairs (xs.filter (key · == t))).map (Prod.map k k)))
      (TypeRef.sorted (distinct (xs.map key)))
      (TypeRef.sorted (distinct ((xs.map k).map key'))) := by
  have hkeys : distinct ((xs.map k).map key') = (distinct (xs.map key)).map (TypeRef.renumber ρ) := by
    rw [← distinct_map (TypeRef.renumber_injective ρ), List.map_map, List.map_map]
    exact congrArg distinct (List.map_congr_left fun x _ => hkey x)
  have hgroup : ∀ t : TypeRef, pairs ((xs.map k).filter (key' · == t.renumber ρ)) =
      (pairs (xs.filter (key · == t))).map (Prod.map k k) := by
    intro t
    rw [← pairs_map, List.filter_map]
    refine congrArg (fun test => pairs ((xs.filter test).map k)) (funext fun x => ?_)
    rw [Function.comp_apply, hkey, (TypeRef.renumber_injective ρ).beq_eq]
  rw [hkeys]
  refine (TypeRef.sorted_renumber (distinct (xs.map key))).mono fun ts ts' hperm => ?_
  refine (hperm.flatMap_right _).trans (List.Perm.of_eq ?_)
  rw [List.flatMap_map, List.map_flatMap]
  exact congrArg (fun group => ts.flatMap group) (funext hgroup)

end AccountLint

import AccountLint.Proofs.Alias.Places
import AccountLint.Rule.Paths

/-! Names agree with patterns only if they are texts. -/
namespace AccountLint

theorem pathMatches_eq_true_iff {pattern : String} {n : Option Name} :
    pathMatches pattern n = .ok true ↔
      ∃ s, n = some (.text s) ∧ Text.nameMatches pattern s = true := by
  unfold pathMatches
  split
  · simp
  · simp
  · rename_i n hn
    have hne : ∀ s, n ≠ .text s := fun s hs => hn s (by rw [hs])
    split
    · simp [hne]
    · simp [hne]

theorem matchesAny_eq_ok {patterns : List String} {n : Option Name} {b : Bool}
    (h : matchesAny patterns n = .ok b) :
    b = true ↔ ∃ s, n = some (.text s) ∧ ∃ p ∈ patterns, Text.nameMatches p s = true := by
  rw [anyM_eq_true_iff h]
  constructor
  · intro h
    obtain ⟨p, hp, hm⟩ := h
    obtain ⟨s, hs, hm⟩ := pathMatches_eq_true_iff.mp hm
    exact ⟨s, hs, p, hp, hm⟩
  · intro h
    obtain ⟨s, hs, p, hp, hm⟩ := h
    exact ⟨p, hp, pathMatches_eq_true_iff.mpr ⟨s, hs, hm⟩⟩

end AccountLint

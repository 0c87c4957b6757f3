import Mathlib.Logic.Relation
import AccountLint.Alias.Aliases
import AccountLint.Proofs.Checked
import AccountLint.Proofs.Program.Valid

/-! Origins of expressions. The walk from an expression back to what it was derived from comes to
all of its origins: it ends only at an expression that is derived from nothing or where it has been
before. -/
namespace AccountLint
namespace Aliases

variable {a : Aliases} {i j : Int}

/-- An expression was derived from another one in one step. -/
def Derives (a : Aliases) (i j : Int) : Prop :=
  ∃ e, a.function.expr i = .ok e ∧ a.derivedFrom e = .ok (some j)

private theorem derives_iff :
    a.Derives i j ↔ (a.function.expr i >>= a.derivedFrom) = .ok (some j) := by
  rw [bind_eq_ok]
  rfl

/-- What expressions can be derived from: the receivers and the values that were assigned. -/
def derivable (a : Aliases) : List Int :=
  a.function.exprs.filterMap (·.receiver) ++ a.definitions.map (·.2)

private theorem Derives.mem_derivable (h : a.Derives i j) : j ∈ a.derivable := by
  obtain ⟨e, he, hj⟩ := h
  have hmem : e ∈ a.function.exprs := Function.mem_exprs_of_expr he
  have hreceiver : e.receiver = some j → j ∈ a.derivable := fun hr =>
    List.mem_append_left _ (List.mem_filterMap.mpr ⟨e, hmem, hr⟩)
  unfold derivedFrom at hj
  split at hj
  · exact hreceiver (Except.ok.inj hj)
  · exact hreceiver (Except.ok.inj hj)
  · obtain ⟨converts, _, hj⟩ := bind_eq_ok.mp hj
    have hj := pure_eq_ok.mp hj
    split at hj
    · exact hreceiver hj
    · cases hj
  · obtain ⟨name, _, hdef⟩ := Option.bind_eq_some_iff.mp (Except.ok.inj hj)
    apply List.mem_append_right
    exact List.mem_map.mpr ⟨(name, j), mem_of_lookup hdef, rfl⟩
  · cases hj

private theorem length_derivable_le (a : Aliases) :
    a.derivable.length ≤ a.function.exprs.length + a.definitions.length := by
  have hreceivers := List.length_filterMap_le (fun e : Expr => e.receiver) a.function.exprs
  simp only [derivable, List.length_append, List.length_map]
  omega

private theorem originsFrom_sound {length : Nat} {seen : List Int} :
    j ∈ (a.originsFrom length seen (some i)).1 → Relation.ReflTransGen a.Derives i j := by
  induction length generalizing seen i with
  | zero =>
    intro h
    cases h
  | succ length ih =>
    intro h
    rw [originsFrom] at h
    split at h
    · cases h
    · split at h
      · rw [List.mem_singleton.mp h]
      · rename_i next hnext
        rcases List.mem_cons.mp h with rfl | h
        · exact .refl
        · cases next with
          | none =>
            cases length <;> cases h
          | some k => exact .head (derives_iff.mpr hnext) (ih h)

/-- A walk that is long enough for the expressions not seen yet ends at those seen, and leaves out
nothing that it comes to. -/
theorem originsFrom_closed {nodes : List Int} (hnodes : ∀ i j, a.Derives i j → j ∈ nodes)
    {length : Nat} {seen : List Int} (hi : i ∈ nodes) (hlength : unseen nodes seen ≤ length) :
    (i ∈ (a.originsFrom length seen (some i)).1 ∨ i ∈ seen) ∧
      ∀ j ∈ (a.originsFrom length seen (some i)).1, ∀ k, a.Derives j k →
        k ∈ (a.originsFrom length seen (some i)).1 ∨ k ∈ seen := by
  induction length generalizing seen i with
  | zero =>
    -- no length is left only if every expression was seen, this one too
    have hseen : i ∈ seen := by
      by_contra hnot
      have hlt := unseen_cons_lt hi hnot
      omega
    refine ⟨Or.inr hseen, ?_⟩
    intro j hj
    cases hj
  | succ length ih =>
    rw [originsFrom]
    split
    · rename_i hseen
      refine ⟨Or.inr (List.contains_iff_mem.mp hseen), ?_⟩
      intro j hj
      cases hj
    · rename_i hseen
      have hnot : i ∉ seen := fun h => hseen (List.contains_iff_mem.mpr h)
      split
      · rename_i fault hfault
        refine ⟨Or.inl List.mem_cons_self, ?_⟩
        intro j hj k hk
        rw [List.mem_singleton.mp hj, derives_iff, hfault] at hk
        cases hk
      · rename_i next hnext
        refine ⟨Or.inl List.mem_cons_self, ?_⟩
        intro j hj k hk
        cases next with
        | none =>
          have hrest : (a.originsFrom length (i :: seen) none).1 = [] := by
            cases length <;> rfl
          simp only [hrest, List.mem_singleton] at hj
          rw [hj, derives_iff, hnext] at hk
          cases hk
        | some next =>
          have hmem : next ∈ nodes := hnodes i next (derives_iff.mpr hnext)
          have hlength' : unseen nodes (i :: seen) ≤ length := by
            have hlt := unseen_cons_lt hi hnot
            omega
          obtain ⟨hstart, hrest⟩ := ih hmem hlength'
          have hcome : k ∈ (a.originsFrom length (i :: seen) (some next)).1 ∨ k ∈ i :: seen := by
            rcases List.mem_cons.mp hj with rfl | hj
            · rw [derives_iff, hnext] at hk
              cases hk
              exact hstart
            · exact hrest j hj k hk
          simp only [List.mem_cons] at hcome ⊢
          tauto

/-- The origins of an expression are all that it was derived from, in any number of steps. -/
theorem mem_origins_iff : j ∈ (a.origins i).1 ↔ Relation.ReflTransGen a.Derives i j := by
  constructor
  · exact originsFrom_sound
  · intro h
    have hnodes : ∀ i' j', a.Derives i' j' → j' ∈ i :: a.derivable := fun _ _ hd =>
      List.mem_cons_of_mem i hd.mem_derivable
    have hlength : unseen (i :: a.derivable) [] ≤ a.function.exprs.length + a.definitions.length + 2 := by
      have hle := a.length_derivable_le
      have hall : unseen (i :: a.derivable) [] ≤ (i :: a.derivable).length := List.length_filter_le _ _
      simp only [List.length_cons] at hall
      omega
    obtain ⟨hstart, hclosed⟩ := originsFrom_closed hnodes List.mem_cons_self hlength
    simp only [List.not_mem_nil, or_false] at hstart hclosed
    induction h with
    | refl => exact hstart
    | tail _ hstep ih => exact hclosed _ ih _ hstep

end Aliases
end AccountLint

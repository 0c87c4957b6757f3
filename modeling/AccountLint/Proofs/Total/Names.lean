import AccountLint.Alias.RawPath
import AccountLint.Proofs.Checked
import AccountLint.Proofs.Sorting
import AccountLint.Rule.Paths

/-! Names that are texts never end a run. All is stated for the faults that may occur, so that it
also tells which faults other names lead to. -/
namespace AccountLint

variable {may : Fault → Prop}

/-- A name that is a text, or any name if names that are none may end a run. -/
def Fit (may : Fault → Prop) (v : Value) : Prop := (∃ s, v = .text s) ∨ (may .shape ∧ may .notText)

theorem fit_text (s : String) : Fit may (.text s) := Or.inl ⟨s, rfl⟩

private theorem Fit.isKey_or {v : Value} (h : Fit may v) : v.isKey = true ∨ may .shape := by
  rcases h with ⟨s, rfl⟩ | h
  · exact Or.inl rfl
  · exact Or.inr h.1

theorem Fit.isIn {v : Value} (h : Fit may v) (set : List Value) : Safe may (v.isIn set) := by
  unfold Value.isIn
  split
  · trivial
  · rename_i hk
    exact h.isKey_or.resolve_left hk

theorem Fit.isOneOf {v : Value} (h : Fit may v) (texts : List String) :
    Safe may (v.isOneOf texts) :=
  h.isIn _

def FitName (may : Fault → Prop) (n : Option Name) : Prop := ∀ v, n = some v → Fit may v

theorem fitName_some {v : Value} (h : Fit may v) : FitName may (some v) := by
  intro w hw
  rw [← Option.some.inj hw]
  exact h

theorem FitName.nameIn {e : Expr} (h : FitName may e.name) (texts : List String) :
    Safe may (e.nameIn texts) := by
  unfold Expr.nameIn
  split
  · trivial
  · rename_i n hn
    exact (h n hn).isOneOf texts

private theorem Fit.notText {v : Value} (h : Fit may v) (hv : ∀ s, v ≠ .text s) : may .notText := by
  rcases h with ⟨s, rfl⟩ | hmay
  · exact absurd rfl (hv s)
  · exact hmay.2

theorem FitName.pathMatches {n : Option Name} (h : FitName may n) (pattern : String) :
    Safe may (pathMatches pattern n) := by
  unfold AccountLint.pathMatches
  split
  · trivial
  · trivial
  · rename_i v hv
    split
    · exact (h v rfl).notText fun s hs => hv s (by rw [hs])
    · trivial

theorem FitName.callMatches {n : Option Name} (h : FitName may n) (pattern : String) :
    Safe may (callMatches pattern n) := by
  unfold AccountLint.callMatches
  split
  · trivial
  · trivial
  · rename_i v hv
    split
    · exact (h v rfl).notText fun s hs => hv s (by rw [hs])
    · trivial

theorem FitName.matchesAny {n : Option Name} (h : FitName may n) (patterns : List String) :
    Safe may (matchesAny patterns n) := Yields.anyM fun p _ => h.pathMatches p

structure TypeDecl.FitNames (may : Fault → Prop) (t : TypeDecl) : Prop where
  path : Fit may t.path
  traits : ∀ tr ∈ t.traits, Fit may tr
  fields : ∀ d ∈ t.fields, Fit may d.name
  distinctFrom : ∀ d ∈ t.fields, ∀ n ∈ d.distinctFrom, Fit may n

namespace TypeDecl.FitNames

variable {t : TypeDecl}

theorem name (h : t.FitNames may) : Safe may t.name := by
  unfold TypeDecl.name
  split
  · trivial
  · rename_i hn
    exact h.path.notText hn

theorem hasFact (h : t.FitNames may) (fact : String) : Safe may (t.hasFact fact) := by
  unfold TypeDecl.hasFact
  split
  · trivial
  · refine Yields.bind (Yields.anyM fun x _ => ?_) fun b _ => ?_
    · split
      split
      · exact (fitName_some h.path).pathMatches _
      · trivial
    · split
      · trivial
      · refine Yields.anyM fun x _ => ?_
        split
        split
        · exact Yields.anyM fun tr htr => (fitName_some (h.traits tr htr)).pathMatches _
        · trivial

theorem hasTrait (h : t.FitNames may) (trait : String) : Safe may (t.hasTrait trait) := by
  unfold TypeDecl.hasTrait
  refine Yields.bind (Yields.anyM fun tr htr => (fitName_some (h.traits tr htr)).pathMatches _)
    fun b _ => ?_
  split
  · trivial
  · split
    · exact h.path.isOneOf _
    · trivial

end TypeDecl.FitNames

structure AccessPath.FitNames (may : Fault → Prop) (p : AccessPath) : Prop where
  root : Fit may p.root
  projections : ∀ s ∈ p.projections, Fit may s

namespace AccessPath

theorem fitNames_ofLocal (name : String) : (ofLocal name).FitNames may :=
  ⟨fit_text name, fun s hs => (by cases hs)⟩

theorem FitNames.extend {p : AccessPath} (h : p.FitNames may) {steps : List Value}
    (hs : ∀ s ∈ steps, Fit may s) : (p.extend steps).FitNames may := by
  refine ⟨h.root, fun s hmem => ?_⟩
  rcases List.mem_append.mp hmem with hmem | hmem
  · exact h.projections s hmem
  · exact hs s hmem

theorem fit_stepOf {n : Option Name} (h : FitName may n) : Fit may (stepOf n) := by
  unfold stepOf
  split
  · split
    · exact h _ rfl
    · exact fit_text ""
  · exact fit_text ""

theorem FitNames.display {p : AccessPath} (h : p.FitNames may) : Safe may p.display := by
  unfold AccessPath.display
  split
  · trivial
  · rename_i hnone
    have hall : ∀ v ∈ p.root :: p.projections, Fit may v := by
      intro v hv
      rcases List.mem_cons.mp hv with rfl | hv
      · exact h.root
      · exact h.projections v hv
    by_contra hshape
    have htext : ∀ vs : List Value, (∀ v ∈ vs, Fit may v) → vs.mapM Value.text? ≠ none := by
      intro vs
      induction vs with
      | nil => simp
      | cons v vs ih =>
        intro hvs hcons
        rcases hvs v List.mem_cons_self with ⟨s, rfl⟩ | hmay
        · rw [List.mapM_cons] at hcons
          cases hrest : vs.mapM Value.text? with
          | none => exact ih (fun w hw => hvs w (List.mem_cons_of_mem _ hw)) hrest
          | some ss => simp [hrest, Value.text?] at hcons
        · exact hshape hmay.1
    exact htext _ hall hnone

theorem setOf_yields {ps : List AccessPath} (h : ∀ p ∈ ps, p.FitNames may) :
    Yields may (fun qs => ∀ q ∈ qs, q.FitNames may) (setOf ps) := by
  unfold setOf
  split
  · exact fun q hq => h q (distinctBy_subset hq)
  · rename_i hall
    by_contra hshape
    refine hall (List.all_eq_true.mpr fun p hp => ?_)
    have hroot := (h p hp).root.isKey_or.resolve_right hshape
    have hrest := fun s hs => ((h p hp).projections s hs).isKey_or.resolve_right hshape
    simp only [isKey, Bool.and_eq_true, List.all_eq_true]
    exact ⟨hroot, hrest⟩

end AccessPath

theorem sortedSet_yields {xs : List Value} (h : ∀ v ∈ xs, Fit may v) :
    Yields may (fun ys => ∀ y ∈ ys, y ∈ xs) (sortedSet xs) := by
  unfold sortedSet
  split
  · exact fun y hy => mem_sortBy.mp hy
  · rename_i hcond
    by_contra hshape
    have htexts : xs.all (·.text?.isSome) = true := by
      refine List.all_eq_true.mpr fun v hv => ?_
      rcases h v hv with ⟨s, rfl⟩ | hmay
      · rfl
      · exact absurd hmay.1 hshape
    exact hcond (by simp [htexts])

end AccountLint

import Mathlib.Logic.Relation
import AccountLint.Proofs.Program.Behind

/-! What a search behind a type can reach. However types refer to each other, in circles too, a
search that finds nothing has looked at every type that can be reached through types without a find.
-/
namespace AccountLint

section Search

variable {β : Type} {types : List TypeDecl} {find : TypeDecl → Option β}
  {outside : Int → Except Fault Unit} {seen seen' : List Int} {work work' : List (Option TypeRef)}

/-- A search that finds nothing at a type goes on to its generic arguments. -/
def PassesTo (types : List TypeDecl) (find : TypeDecl → Option β) (i j : Int) : Prop :=
  ∃ t, typeAt? types i = some t ∧ find t = none ∧ some (.index j) ∈ t.args

/-- What is found is at the end of a way from the work list. -/
theorem searchBehind_sound {b : β} (h : searchBehind types find outside seen work = .ok (some b)) :
    ∃ i j t, some (.index i) ∈ work ∧ Relation.ReflTransGen (PassesTo types find) i j ∧
      typeAt? types j = some t ∧ find t = some b := by
  fun_induction searchBehind types find outside seen work with
  | case1 => cases h
  | case2 seen work ih =>
    obtain ⟨i, j, t, hi, hway⟩ := ih h
    exact ⟨i, j, t, List.mem_cons_of_mem _ hi, hway⟩
  | case3 => cases h
  | case4 seen k work hs ih =>
    obtain ⟨i, j, t, hi, hway⟩ := ih h
    exact ⟨i, j, t, List.mem_cons_of_mem _ hi, hway⟩
  | case5 seen k work hs hnone ih =>
    obtain ⟨_, _, h⟩ := bind_eq_ok.mp h
    obtain ⟨i, j, t, hi, hway⟩ := ih h
    exact ⟨i, j, t, List.mem_cons_of_mem _ hi, hway⟩
  | case6 seen k work hs t hat c hc =>
    rw [← Option.some.inj (Except.ok.inj h)]
    exact ⟨k, k, t, List.mem_cons_self, .refl, hat, hc⟩
  | case7 seen k work hs t hat hnone ih =>
    obtain ⟨i, j, u, hi, hway, hfound⟩ := ih h
    rcases List.mem_append.mp hi with hi | hi
    · exact ⟨k, j, u, List.mem_cons_self, .head ⟨t, hat, hnone, List.mem_reverse.mp hi⟩ hway, hfound⟩
    · exact ⟨i, j, u, List.mem_cons_of_mem _ hi, hway, hfound⟩

/-- A position that a search has seen or will come to, if there is a type there. -/
def Expected (types : List TypeDecl) (seen : List Int) (work : List (Option TypeRef)) (i : Int) : Prop :=
  i ∈ seen ∨ some (.index i) ∈ work ∨ typeAt? types i = none

/-- Nothing was found at the types seen, and their arguments are seen or still to come. -/
def Passed (types : List TypeDecl) (find : TypeDecl → Option β) (seen : List Int)
    (work : List (Option TypeRef)) : Prop :=
  ∀ i ∈ seen, ∀ t, typeAt? types i = some t →
    find t = none ∧ ∀ j, some (.index j) ∈ t.args → Expected types seen work j

private theorem expected_of_cons {k : Int} (hk : Expected types seen' work' k)
    (hseen : seen ⊆ seen') (hwork : work ⊆ work') (i : Int)
    (h : Expected types seen (some (.index k) :: work) i) :
    Expected types seen' work' i := by
  rcases h with hi | hi | hi
  · exact Or.inl (hseen hi)
  · rcases List.mem_cons.mp hi with heq | hi
    · cases heq
      exact hk
    · exact Or.inr (Or.inl (hwork hi))
  · exact Or.inr (Or.inr hi)

private theorem Passed.mono (h : Passed types find seen work)
    (hmono : ∀ i, Expected types seen work i → Expected types seen' work' i) :
    ∀ i ∈ seen, ∀ t, typeAt? types i = some t →
      find t = none ∧ ∀ j, some (.index j) ∈ t.args → Expected types seen' work' j :=
  fun i hi t ht => ⟨(h i hi t ht).1, fun j hj => hmono j ((h i hi t ht).2 j hj)⟩

/-- A search that finds nothing leaves out nothing: from where it begins, no way leads to a find. -/
theorem searchBehind_complete (hp : Passed types find seen work)
    (h : searchBehind types find outside seen work = .ok none) {i j : Int} {t : TypeDecl}
    (hi : Expected types seen work i) (hway : Relation.ReflTransGen (PassesTo types find) i j)
    (hj : typeAt? types j = some t) : find t = none := by
  fun_induction searchBehind types find outside seen work with
  | case1 seen =>
    -- the work is done, so that the types seen are closed under steps
    have hseen : j ∈ seen := by
      have hexpected : Expected types seen [] j := by
        induction hway generalizing t with
        | refl => exact hi
        | tail _ hstep ih =>
          obtain ⟨u, hu, _, hmem⟩ := hstep
          rcases ih hu with hb | hb | hb
          · exact (hp _ hb u hu).2 _ hmem
          · cases hb
          · cases hb.symm.trans hu
      rcases hexpected with hj' | hj' | hj'
      · exact hj'
      · cases hj'
      · cases hj'.symm.trans hj
    exact (hp j hseen t hj).1
  | case2 seen work ih =>
    have hmono : ∀ k, Expected types seen (none :: work) k → Expected types seen work k := by
      intro k hk
      simpa [Expected] using hk
    exact ih (hp.mono hmono) h (hmono i hi)
  | case3 => cases h
  | case4 seen k work hs ih =>
    have hk : Expected types seen work k := Or.inl (by simpa using hs)
    have hmono := expected_of_cons hk (List.Subset.refl seen) (List.Subset.refl work)
    exact ih (hp.mono hmono) h (hmono i hi)
  | case5 seen k work hs hnone ih =>
    have hk : Expected types seen work k := Or.inr (Or.inr hnone)
    have hmono := expected_of_cons hk (List.Subset.refl seen) (List.Subset.refl work)
    obtain ⟨_, _, h⟩ := bind_eq_ok.mp h
    exact ih (hp.mono hmono) h (hmono i hi)
  | case6 => cases h
  | case7 seen k work hs u hat hnone ih =>
    have hk : Expected types (k :: seen) (u.args.reverse ++ work) k := Or.inl List.mem_cons_self
    have hmono := expected_of_cons hk (List.subset_cons_self k seen)
      (List.subset_append_right u.args.reverse work)
    refine ih ?_ h (hmono i hi)
    intro l hl v hv
    rcases List.mem_cons.mp hl with rfl | hl
    · obtain rfl := Option.some.inj (hat.symm.trans hv)
      exact ⟨hnone, fun m hm => Or.inr (Or.inl (List.mem_append_left _ (List.mem_reverse.mpr hm)))⟩
    · exact hp.mono hmono l hl v hv

end Search

namespace Program

/-- A type that is no struct has a generic argument. -/
def Wraps (p : Program) (i j : Int) : Prop :=
  ∃ t, typeAt? p.types i = some t ∧ t.isStruct = false ∧ some (.index j) ∈ t.args

/-- A type can be reached from a reference through the generic arguments of types that are no
structs. -/
def Reaches (p : Program) (type : Option TypeRef) (s : TypeDecl) : Prop :=
  ∃ i j, type = some (.index i) ∧ Relation.ReflTransGen p.Wraps i j ∧ typeAt? p.types j = some s

variable {p : Program} {type : Option TypeRef}

private theorem passesTo_iff {i j : Int} :
    PassesTo p.types (fun t => if t.isStruct then some t else none) i j ↔ p.Wraps i j := by
  simp [PassesTo, Wraps]

private theorem structBehind_sound {s : TypeDecl} (h : p.structBehind type = .ok (some s)) :
    s.isStruct = true ∧ p.Reaches type s := by
  obtain ⟨i, j, t, hi, hway, hj, hfound⟩ := searchBehind_sound h
  split at hfound
  · rename_i hstruct
    rw [← Option.some.inj hfound]
    exact ⟨hstruct, i, j, (List.mem_singleton.mp hi).symm, hway.lift id fun _ _ => passesTo_iff.mp, hj⟩
  · cases hfound

private theorem not_isStruct_of_structBehind {s : TypeDecl} (h : p.structBehind type = .ok none)
    (hs : p.Reaches type s) : s.isStruct = false := by
  obtain ⟨i, j, rfl, hway, hj⟩ := hs
  have hpassed : Passed p.types (fun t => if t.isStruct then some t else none) []
      [some (.index i)] := fun k hk => (by cases hk)
  have hnone := searchBehind_complete hpassed h (Or.inr (Or.inl List.mem_cons_self))
    (hway.lift id fun _ _ => passesTo_iff.mpr) hj
  simpa using hnone

/-- The search for the struct behind a type of the table ends, also where types refer to each other
in circles. It returns a struct just if one can be reached through types that are no structs, and
what it returns is such a one. A position outside the table is rejected. -/
theorem structBehind_complete (hargs : ∀ t ∈ p.types, ∀ a ∈ t.args, p.InTable a)
    (type : Option TypeRef) :
    (p.InTable type → ∃ z, p.structBehind type = .ok z ∧
      (z.isSome = true ↔ ∃ s, s.isStruct = true ∧ p.Reaches type s) ∧
      ∀ s, z = some s → s.isStruct = true ∧ p.Reaches type s) ∧
    ∀ i, type = some (.index i) → ¬p.InTable type →
      p.structBehind type = .error (.model (.typeRange i)) := by
  constructor
  · intro htype
    obtain ⟨z, hz⟩ : ∃ z, p.structBehind type = .ok z :=
      ⟨_, searchBehind_eq hargs _ _ [] (by simpa using htype)⟩
    refine ⟨z, hz, ?_, fun s hs => structBehind_sound (hs ▸ hz)⟩
    cases z with
    | some s => simpa using ⟨s, structBehind_sound hz⟩
    | none =>
      have hnone : ∀ s, s.isStruct = true → ¬p.Reaches type s := by
        intro s hs hreach
        rw [not_isStruct_of_structBehind hz hreach] at hs
        cases hs
      simpa using hnone
  · rintro i rfl hout
    have hat : typeAt? p.types i = none := by
      cases hat : typeAt? p.types i with
      | none => rfl
      | some t => exact absurd (inTable_of_typeAt? hat) hout
    unfold structBehind
    rw [searchBehind_of_none rfl hat]
    rfl

/-- A struct behind two types that refer to themselves and each other, and two types that refer to
each other only. -/
def circling : Program :=
  { types := [
      { id := 0, path := .text "A", args := [some (.index 1), none, some (.index 0)] },
      { id := 1, path := .text "B", args := [some (.index 2), some (.index 0)] },
      { id := 2, path := .text "Vault", kind := .struct, args := [some (.index 0)] },
      { id := 3, path := .text "C", args := [some (.index 4)] },
      { id := 4, path := .text "D", args := [some (.index 3), some (.index 3)] }] }

theorem structBehind_complete_circling :
    (∀ t ∈ circling.types, ∀ a ∈ t.args, circling.InTable a) ∧
      circling.InTable (some (.index 0)) ∧ circling.InTable (some (.index 3)) ∧
      (∃ s, circling.structBehind (some (.index 0)) = .ok (some s) ∧ s.isStruct = true ∧
        circling.Reaches (some (.index 0)) s) ∧
      circling.structBehind (some (.index 3)) = .ok none ∧
      ∀ s, s.isStruct = true → ¬circling.Reaches (some (.index 3)) s := by
  have hargs : ∀ t ∈ circling.types, ∀ a ∈ t.args, circling.InTable a := by decide
  have h0 : circling.InTable (some (.index 0)) := by decide
  have h3 : circling.InTable (some (.index 3)) := by decide
  have hfound : (circling.structBehind (some (.index 0))).toOption.map (·.isSome) = some true := by
    decide +kernel
  have hnone : circling.structBehind (some (.index 3)) = .ok none := ok_of_toOption (by decide +kernel)
  obtain ⟨z, hz, _, hsound⟩ := (structBehind_complete hargs (some (.index 0))).1 h0
  obtain ⟨z', hz', hiff, _⟩ := (structBehind_complete hargs (some (.index 3))).1 h3
  rw [hz] at hfound
  obtain ⟨s, rfl⟩ := Option.isSome_iff_exists.mp (Option.some.inj hfound)
  obtain rfl := Except.ok.inj (hnone.symm.trans hz')
  refine ⟨hargs, h0, h3, ⟨s, hz, hsound s rfl⟩, hnone, fun s hs hreach => ?_⟩
  cases hiff.mpr ⟨s, hs, hreach⟩

end Program
end AccountLint

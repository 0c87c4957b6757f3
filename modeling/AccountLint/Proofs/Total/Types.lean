import AccountLint.Program.Behind
import AccountLint.Proofs.Total.Names

/-! Types that refer to types of the table only: every look-up and every search behind a type ends
with a type of the table or with none. -/
namespace AccountLint
namespace Program

/-- A reference to a type of the table, or none. -/
def InTable (p : Program) (r : Option TypeRef) : Prop :=
  ∀ t, r = some t → ∃ i : Int, t = .index i ∧ 0 ≤ i ∧ i < p.types.length

/-- The ids of types are their positions, and types refer to types of the table. -/
structure TypesInRange (p : Program) : Prop where
  id : ∀ {i : Nat} {t : TypeDecl}, p.types[i]? = some t → t.id = i
  field : ∀ t ∈ p.types, ∀ d ∈ t.fields, p.InTable d.type
  arg : ∀ t ∈ p.types, ∀ a ∈ t.args, p.InTable a

variable {p : Program} {may : Fault → Prop}

theorem inTable_none : p.InTable none := fun _ h => (by cases h)

theorem InTable.index {i : Int} (h : p.InTable (some (.index i))) : 0 ≤ i ∧ i < p.types.length := by
  obtain ⟨j, hj, hrange⟩ := h _ rfl
  rw [TypeRef.index.inj hj]
  exact hrange

theorem InTable.not_unresolved {s : String} (h : p.InTable (some (.unresolved s))) : False := by
  obtain ⟨i, hi, _⟩ := h _ rfl
  cases hi

instance (r : Option TypeRef) : Decidable (p.InTable r) :=
  match r with
  | none => isTrue inTable_none
  | some (.unresolved _) => isFalse InTable.not_unresolved
  | some (.index i) => decidable_of_iff (0 ≤ i ∧ i < p.types.length)
    ⟨fun h _ hr => ⟨i, (Option.some.inj hr).symm, h⟩, InTable.index⟩

theorem exists_typeAt? {i : Int} (h0 : 0 ≤ i) (hlt : i < p.types.length) :
    ∃ t ∈ p.types, typeAt? p.types i = some t ∧ p.types[i.toNat]? = some t := by
  have hlt' : i.toNat < p.types.length := by omega
  refine ⟨p.types[i.toNat], List.getElem_mem hlt', ?_, List.getElem?_eq_getElem hlt'⟩
  unfold typeAt?
  rw [if_pos h0, List.getElem?_eq_getElem hlt']

theorem inTable_of_typeAt? {i : Int} {t : TypeDecl} (h : typeAt? p.types i = some t) :
    p.InTable (some (.index i)) := by
  intro r hr
  refine ⟨i, (Option.some.inj hr).symm, ?_⟩
  unfold typeAt? at h
  split at h
  · obtain ⟨hlt, _⟩ := List.getElem?_eq_some_iff.mp h
    omega
  · cases h

theorem type?_index {i : Int} (h : p.InTable (some (.index i))) :
    ∃ t ∈ p.types, p.type? (some (.index i)) = .ok (some t) ∧ p.types[i.toNat]? = some t := by
  obtain ⟨h0, hlt⟩ := h.index
  obtain ⟨t, ht, hat, hget⟩ := exists_typeAt? h0 hlt
  refine ⟨t, ht, ?_, hget⟩
  simp only [type?, hat]

theorem InTable.type? {r : Option TypeRef} (h : p.InTable r) :
    Yields may (fun z => ∀ t, z = some t → t ∈ p.types) (p.type? r) := by
  match r with
  | none => exact fun t ht => (by cases ht)
  | some (.unresolved s) => exact h.not_unresolved.elim
  | some (.index i) =>
    obtain ⟨t, ht, heq, _⟩ := type?_index h
    rw [heq]
    intro t' ht'
    rw [← Option.some.inj ht']
    exact ht

namespace TypesInRange

theorem searchBehind {β : Type} (hp : p.TypesInRange) {find : TypeDecl → Option β}
    {outside : Int → Except Fault Unit} (seen : List Int) {work : List (Option TypeRef)}
    (hw : ∀ r ∈ work, p.InTable r) :
    Yields may (fun z => ∀ b, z = some b → ∃ t ∈ p.types, find t = some b)
      (searchBehind p.types find outside seen work) := by
  fun_induction AccountLint.searchBehind p.types find outside seen work with
  | case1 => exact fun b hb => (by cases hb)
  | case2 seen work ih => exact ih fun r hr => hw r (List.mem_cons_of_mem _ hr)
  | case3 => exact (hw _ List.mem_cons_self).not_unresolved.elim
  | case4 seen i work hs ih => exact ih fun r hr => hw r (List.mem_cons_of_mem _ hr)
  | case5 seen i work hs hnone ih =>
    obtain ⟨h0, hlt⟩ := (hw _ List.mem_cons_self).index
    obtain ⟨t, _, hat, _⟩ := exists_typeAt? h0 hlt
    rw [hnone] at hat
    cases hat
  | case6 seen i work hs t hat b hb =>
    intro b' hb'
    rw [← Option.some.inj hb']
    exact ⟨t, List.fst_mem_of_mem_zipIdx (mem_zipIdx_of_typeAt? hat), hb⟩
  | case7 seen i work hs t hat hnone ih =>
    refine ih fun r hr => ?_
    rcases List.mem_append.mp hr with hr | hr
    · exact hp.arg t (List.fst_mem_of_mem_zipIdx (mem_zipIdx_of_typeAt? hat)) r
        (List.mem_reverse.mp hr)
    · exact hw r (List.mem_cons_of_mem _ hr)

theorem structBehind (hp : p.TypesInRange) {r : Option TypeRef} (hr : p.InTable r) :
    Yields may (fun z => ∀ t, z = some t → t ∈ p.types) (p.structBehind r) := by
  unfold Program.structBehind
  refine (hp.searchBehind [] fun q hq => ?_).mono fun z hz t ht => ?_
  · rw [List.mem_singleton.mp hq]
    exact hr
  · obtain ⟨u, hu, hfind⟩ := hz t ht
    split at hfind
    · rw [← Option.some.inj hfind]
      exact hu
    · cases hfind

private theorem unwrapFrom (hp : p.TypesInRange) (hn : ∀ t ∈ p.types, t.FitNames may)
    (wrappers : List String) (seen : List Int) {r : Option TypeRef} (hr : p.InTable r) :
    Yields may p.InTable (p.unwrapFrom wrappers seen r) := by
  fun_induction Program.unwrapFrom p wrappers seen r with
  | case1 => exact hr
  | case2 => exact hr.not_unresolved.elim
  | case3 => exact hr
  | case4 seen i hs hnone =>
    obtain ⟨h0, hlt⟩ := hr.index
    obtain ⟨t, _, hat, _⟩ := exists_typeAt? h0 hlt
    rw [hnone] at hat
    cases hat
  | case5 seen i hs t hat ih =>
    have ht := List.fst_mem_of_mem_zipIdx (mem_zipIdx_of_typeAt? hat)
    refine (hn t ht).name.bind fun name _ => ?_
    split
    · rename_i a rest _ hargs
      exact ih a (hp.arg t ht a (by rw [hargs]; exact List.mem_cons_self))
    · exact hr

theorem unwrap (hp : p.TypesInRange) (hn : ∀ t ∈ p.types, t.FitNames may) (wrappers : List String)
    {r : Option TypeRef} (hr : p.InTable r) : Yields may p.InTable (p.unwrap wrappers r) :=
  hp.unwrapFrom hn wrappers [] hr

theorem innerType (hp : p.TypesInRange) {r : Option TypeRef} (hr : p.InTable r) :
    Yields may p.InTable (p.innerType r) := by
  unfold Program.innerType
  refine hr.type?.bind fun t ht => ?_
  cases t with
  | none => exact inTable_none
  | some t =>
    cases hlast : t.args.getLast? with
    | none =>
      simp only [hlast]
      exact inTable_none
    | some a =>
      simp only [hlast]
      exact hp.arg t (ht t rfl) a (List.mem_of_getLast? hlast)

end TypesInRange
end Program

theorem TypeDecl.mem_of_fieldNamed? {t : TypeDecl} {n : Name} {d : FieldDecl}
    (h : t.fieldNamed? n = some d) : d ∈ t.fields := List.mem_of_find?_eq_some h

end AccountLint

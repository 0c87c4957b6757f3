import AccountLint.Program.Lookup
import AccountLint.Sorting

/-! Searching behind a type: through its generic arguments, the last one first, and never twice
through the same type. -/
namespace AccountLint

/-- How much is still to be searched: the types not seen, with their arguments. -/
def weight (seen : List Int) : List (TypeDecl × Nat) → Nat
  | [] => 0
  | (t, i) :: rest =>
    (if seen.contains (i : Int) then 0 else t.args.length + 1) + weight seen rest

private theorem weight_cons_le (i : Int) (seen : List Int) (ts : List (TypeDecl × Nat)) :
    weight (i :: seen) ts ≤ weight seen ts := by
  induction ts with
  | nil => exact Nat.le_refl _
  | cons x rest ih =>
    obtain ⟨t, j⟩ := x
    simp only [weight, List.contains_cons]
    cases h : seen.contains (j : Int) <;> cases h' : ((j : Int) == i) <;> simp <;> omega

/-- Seeing a type for the first time pays for its arguments. -/
theorem weight_cons_lt {seen : List Int} {ts : List (TypeDecl × Nat)} {t : TypeDecl} {i : Nat}
    (hm : (t, i) ∈ ts) (hs : seen.contains (i : Int) = false) :
    weight (i :: seen) ts + t.args.length < weight seen ts := by
  induction ts with
  | nil => cases hm
  | cons x rest ih =>
    obtain ⟨u, j⟩ := x
    have hle := weight_cons_le i seen rest
    rcases List.mem_cons.mp hm with h | h
    · obtain ⟨rfl, rfl⟩ := Prod.mk.inj h
      simp only [weight, List.contains_cons, beq_self_eq_true, Bool.true_or, if_true, hs]
      simp
      omega
    · have := ih h
      have hw : (if (((i : Int) :: seen).contains (j : Int)) = true then 0 else u.args.length + 1) ≤
          (if (seen.contains (j : Int)) = true then 0 else u.args.length + 1) := by
        simp only [List.contains_cons]
        cases h : seen.contains (j : Int) <;> cases h' : ((j : Int) == i) <;> simp
      simp only [weight]
      omega

theorem mem_zipIdx_of_typeAt? {types : List TypeDecl} {i : Int} {t : TypeDecl}
    (h : typeAt? types i = some t) : (t, i.toNat) ∈ types.zipIdx := by
  unfold typeAt? at h
  split at h
  · exact List.mem_zipIdx_iff_getElem?.mpr h
  · cases h

theorem toNat_of_typeAt? {types : List TypeDecl} {i : Int} {t : TypeDecl}
    (h : typeAt? types i = some t) : (i.toNat : Int) = i := by
  unfold typeAt? at h
  split at h
  · exact Int.toNat_of_nonneg ‹_›
  · cases h

/-- The first find behind the types of a work list. A position outside the table is passed to
`outside`, which ends the search or goes on. -/
def searchBehind {β : Type} (types : List TypeDecl) (find : TypeDecl → Option β)
    (outside : Int → Except Fault Unit) (seen : List Int) :
    List (Option TypeRef) → Except Fault (Option β)
  | [] => .ok none
  | none :: work => searchBehind types find outside seen work
  | some (.unresolved _) :: _ => .error .shape
  | some (.index i) :: work =>
    if _hs : seen.contains i = true then searchBehind types find outside seen work
    else
      match _h : typeAt? types i with
      | none => do
        outside i
        searchBehind types find outside seen work
      | some t =>
        match find t with
        | some b => .ok (some b)
        | none => searchBehind types find outside (i :: seen) (t.args.reverse ++ work)
termination_by work => weight seen types.zipIdx + work.length
decreasing_by
  all_goals simp_wf
  have hi := toNat_of_typeAt? _h
  have := weight_cons_lt (mem_zipIdx_of_typeAt? _h) (by rw [hi]; simpa using _hs)
  rw [hi] at this
  omega

/-- The struct that a value of a type gives field access to. -/
def Program.structBehind (p : Program) (type : Option TypeRef) : Except Fault (Option TypeDecl) :=
  searchBehind p.types (fun t => if t.isStruct then some t else none)
    (fun i => .error (.model (.typeRange i))) [] [type]

/-- The type of a field with a name, looked for behind a type; positions outside the table are
passed over. -/
def fieldTypeBehind (types : List TypeDecl) (type : Option TypeRef) (name : Name) :
    Except Fault (Option TypeRef) := do
  let found ← searchBehind types (fun t => (t.fieldNamed? name).map (·.type)) (fun _ => .ok ())
    [] [type]
  return found.join

/-- The type behind wrappers with certain names: each is peeled to its first argument. -/
def Program.unwrapFrom (p : Program) (wrappers : List String) (seen : List Int) :
    Option TypeRef → Except Fault (Option TypeRef)
  | none => .ok none
  | some (.unresolved _) => .error .shape
  | some (.index i) =>
    if _hs : seen.contains i = true then .ok (some (.index i))
    else
      match _h : typeAt? p.types i with
      | none => .error (.model (.typeRange i))
      | some t => do
        let name ← t.name
        match wrappers.contains name, t.args with
        | true, a :: _ => unwrapFrom p wrappers (i :: seen) a
        | _, _ => .ok (some (.index i))
termination_by weight seen p.types.zipIdx
decreasing_by
  have hi := toNat_of_typeAt? _h
  have := weight_cons_lt (mem_zipIdx_of_typeAt? _h) (by rw [hi]; simpa using _hs)
  rw [hi] at this
  omega

def resultWrappers : List String := ["Result", "Option", "Box"]

def Program.unwrap (p : Program) (wrappers : List String) (type : Option TypeRef) :
    Except Fault (Option TypeRef) := p.unwrapFrom wrappers [] type

/-- The last generic argument of a type. -/
def Program.innerType (p : Program) (type : Option TypeRef) : Except Fault (Option TypeRef) := do
  match ← p.type? type with
  | none => return none
  | some t => return t.args.getLast?.join

end AccountLint

import Mathlib.Data.List.FinRange
import AccountLint.Proofs.Agreement
import AccountLint.Proofs.Program.Behind
import AccountLint.Rule.Paths

/-! Renumbering types: the positions in the table of types are permuted, and so is every reference
to a type. Look-ups and searches behind types commute with it. -/
namespace AccountLint

/-- The reference to a type at its new position. -/
def TypeRef.renumber (ρ : Equiv.Perm Int) : TypeRef → TypeRef
  | .index i => .index (ρ i)
  | .unresolved name => .unresolved name

def FieldDecl.renumber (ρ : Equiv.Perm Int) (d : FieldDecl) : FieldDecl :=
  { d with type := d.type.map (TypeRef.renumber ρ) }

/-- A type with its id and its references renumbered. -/
def TypeDecl.renumber (ρ : Equiv.Perm Int) (t : TypeDecl) : TypeDecl :=
  { t with
    id := ρ t.id
    fields := t.fields.map (FieldDecl.renumber ρ)
    args := t.args.map (Option.map (TypeRef.renumber ρ)) }

def Expr.renumber (ρ : Equiv.Perm Int) (e : Expr) : Expr :=
  { e with type := e.type.map (TypeRef.renumber ρ) }

def Param.renumber (ρ : Equiv.Perm Int) (a : Param) : Param :=
  { a with type := a.type.map (TypeRef.renumber ρ) }

def LocalVar.renumber (ρ : Equiv.Perm Int) (v : LocalVar) : LocalVar :=
  { v with type := v.type.map (TypeRef.renumber ρ) }

def Function.renumber (ρ : Equiv.Perm Int) (f : Function) : Function :=
  { f with
    params := f.params.map (Param.renumber ρ)
    locals := f.locals.map (LocalVar.renumber ρ)
    exprs := f.exprs.map (Expr.renumber ρ) }

section Fields

variable (ρ : Equiv.Perm Int) (e : Expr)

@[simp] theorem Expr.kind_renumber : (e.renumber ρ).kind = e.kind := rfl

@[simp] theorem Expr.type_renumber : (e.renumber ρ).type = e.type.map (TypeRef.renumber ρ) := rfl

@[simp] theorem Expr.localName_renumber : (e.renumber ρ).localName = e.localName := rfl

@[simp] theorem Expr.operands_renumber : (e.renumber ρ).operands = e.operands := rfl

@[simp] theorem Expr.receiver_renumber : (e.renumber ρ).receiver = e.receiver := rfl

@[simp] theorem Expr.fieldNames_renumber : (e.renumber ρ).fieldNames = e.fieldNames := rfl

end Fields

def positions (n : Nat) : Fin n ≃ { i : Int // 0 ≤ i ∧ i < n } where
  toFun k := ⟨k, by omega⟩
  invFun i := ⟨i.1.toNat, by omega⟩
  left_inv k := by simp
  right_inv i := Subtype.ext (by simp [i.2.1])

/-- A permutation of the positions in a table, which leaves all other integers as they are. -/
def tablePerm {n : Nat} (σ : Equiv.Perm (Fin n)) : Equiv.Perm Int := σ.extendDomain (positions n)

/-- The program with its types in another order, every one of them at the position that a
permutation gives it, and with all references to types renumbered. -/
def Program.renumber (p : Program) (σ : Equiv.Perm (Fin p.types.length)) : Program :=
  { types := List.ofFn fun k => (p.types.get (σ.symm k)).renumber (tablePerm σ)
    functions := p.functions.map (Function.renumber (tablePerm σ)) }

/-- A program is another one with its types renumbered. -/
structure Program.Renumbers (ρ : Equiv.Perm Int) (p p' : Program) : Prop where
  typeAt? : ∀ i, typeAt? p'.types (ρ i) = (typeAt? p.types i).map (TypeDecl.renumber ρ)
  outside : ∀ i, AccountLint.typeAt? p.types i = none → ρ i = i
  types : p'.types.Perm (p.types.map (TypeDecl.renumber ρ))
  functions : p'.functions = p.functions.map (Function.renumber ρ)

section Inverse

variable (ρ : Equiv.Perm Int)

@[simp] theorem TypeRef.renumber_symm_renumber (r : TypeRef) :
    (r.renumber ρ).renumber ρ.symm = r := by
  cases r <;> simp [renumber]

@[simp] theorem FieldDecl.renumber_symm_renumber (d : FieldDecl) :
    (d.renumber ρ).renumber ρ.symm = d := by
  simp [renumber, Function.comp_def]

@[simp] theorem TypeDecl.renumber_symm_renumber (t : TypeDecl) :
    (t.renumber ρ).renumber ρ.symm = t := by
  simp [renumber, Function.comp_def]

@[simp] theorem Function.renumber_symm_renumber (f : Function) :
    (f.renumber ρ).renumber ρ.symm = f := by
  simp [renumber, Function.comp_def, Param.renumber, LocalVar.renumber, Expr.renumber]

end Inverse

namespace Program.Renumbers

variable {ρ : Equiv.Perm Int} {p p' : Program}

/-- The inverse permutation leads back. -/
theorem symm (h : p.Renumbers ρ p') : p'.Renumbers ρ.symm p where
  typeAt? i := by
    have hi := congrArg (Option.map (TypeDecl.renumber ρ.symm)) (h.typeAt? (ρ.symm i))
    simpa [Function.comp_def] using hi.symm
  outside i hi := by
    have hnone := h.typeAt? (ρ.symm i)
    rw [Equiv.apply_symm_apply, hi] at hnone
    have hfixed := h.outside _ (Option.map_eq_none_iff.mp hnone.symm)
    rw [Equiv.apply_symm_apply] at hfixed
    exact hfixed.symm
  types := by
    have hperm := h.types.map (TypeDecl.renumber ρ.symm)
    rw [List.map_map] at hperm
    simpa [Function.comp_def] using hperm.symm
  functions := by
    rw [h.functions, List.map_map]
    simp [Function.comp_def]

end Program.Renumbers

section Table

variable {n : Nat} (σ : Equiv.Perm (Fin n))

private theorem tablePerm_apply (k : Fin n) : tablePerm σ k = σ k :=
  σ.extendDomain_apply_image (positions n) k

private theorem tablePerm_of_outside {i : Int} (hi : ¬(0 ≤ i ∧ i < n)) : tablePerm σ i = i :=
  σ.extendDomain_apply_not_subtype (positions n) hi

private theorem typeAt?_natCast (types : List TypeDecl) (k : Nat) :
    typeAt? types k = types[k]? := by
  simp [typeAt?]

private theorem typeAt?_eq_none_iff {types : List TypeDecl} {i : Int} :
    typeAt? types i = none ↔ ¬(0 ≤ i ∧ i < types.length) := by
  unfold typeAt?
  split
  · rw [List.getElem?_eq_none_iff]
    omega
  · simp only [true_iff]
    omega

end Table

theorem Program.renumbers_renumber (p : Program) (σ : Equiv.Perm (Fin p.types.length)) :
    p.Renumbers (tablePerm σ) (p.renumber σ) where
  typeAt? i := by
    by_cases hi : 0 ≤ i ∧ i < p.types.length
    · obtain ⟨k, rfl⟩ : ∃ k : Fin p.types.length, (k : Int) = i :=
        ⟨⟨i.toNat, by omega⟩, by simp [hi.1]⟩
      rw [tablePerm_apply, typeAt?_natCast, typeAt?_natCast]
      simp [renumber]
    · rw [tablePerm_of_outside σ hi, typeAt?_eq_none_iff.mpr hi, Option.map_none, typeAt?_eq_none_iff]
      simpa [renumber] using hi
  outside i hi := tablePerm_of_outside σ (typeAt?_eq_none_iff.mp hi)
  types := by
    have hperm := Equiv.Perm.ofFn_comp_perm σ.symm fun k =>
      (p.types.get k).renumber (tablePerm σ)
    refine hperm.trans (List.Perm.of_eq ?_)
    rw [← Function.comp_def (TypeDecl.renumber (tablePerm σ)), ← List.map_ofFn, List.ofFn_get]
  functions := rfl

theorem TypeDecl.fieldNamed?_renumber (ρ : Equiv.Perm Int) (t : TypeDecl) (name : Name) :
    (t.renumber ρ).fieldNamed? name = (t.fieldNamed? name).map (FieldDecl.renumber ρ) := by
  unfold fieldNamed?
  exact List.find?_map

namespace Program.Renumbers

variable {ρ : Equiv.Perm Int} {p p' : Program}

theorem type? (h : p.Renumbers ρ p') (r : Option TypeRef) :
    p'.type? (r.map (TypeRef.renumber ρ)) = (p.type? r).map (Option.map (TypeDecl.renumber ρ)) := by
  rcases r with _ | i | name
  · rfl
  · simp only [Option.map_some, TypeRef.renumber, Program.type?, h.typeAt?]
    cases hi : AccountLint.typeAt? p.types i with
    | none => simp [h.outside i hi, Except.map]
    | some t => rfl
  · rfl

private theorem contains_map (seen : List Int) (i : Int) :
    (seen.map ρ).contains (ρ i) = seen.contains i := by
  rw [Bool.eq_iff_iff, List.contains_iff_mem, List.contains_iff_mem,
    List.mem_map_of_injective ρ.injective]

private theorem typeAt?_eq_none (h : p.Renumbers ρ p') {i : Int}
    (hi : AccountLint.typeAt? p.types i = none) :
    AccountLint.typeAt? p'.types (ρ i) = none := by
  rw [h.typeAt?, hi, Option.map_none]

private theorem typeAt?_eq_some (h : p.Renumbers ρ p') {i : Int} {t : TypeDecl}
    (hi : AccountLint.typeAt? p.types i = some t) :
    AccountLint.typeAt? p'.types (ρ i) = some (t.renumber ρ) := by
  rw [h.typeAt?, hi, Option.map_some]

/-- A search goes through the types at the new positions, in the same order. -/
theorem searchBehind (h : p.Renumbers ρ p') {β γ : Type} {find : TypeDecl → Option β}
    {find' : TypeDecl → Option γ} {g : β → γ}
    (hfind : ∀ t, find' (t.renumber ρ) = (find t).map g) (outside : Int → Except Fault Unit)
    (seen : List Int) (work : List (Option TypeRef)) :
    searchBehind p'.types find' outside (seen.map ρ) (work.map (Option.map (TypeRef.renumber ρ))) =
      (searchBehind p.types find outside seen work).map (Option.map g) := by
  fun_induction AccountLint.searchBehind p.types find outside seen work with
  | case1 =>
    rw [List.map_nil, AccountLint.searchBehind]
    rfl
  | case2 seen work ih =>
    rw [List.map_cons, Option.map_none, AccountLint.searchBehind]
    exact ih
  | case3 =>
    rw [List.map_cons, Option.map_some, TypeRef.renumber, AccountLint.searchBehind]
    rfl
  | case4 seen i work hs ih =>
    rw [List.map_cons, Option.map_some, TypeRef.renumber,
      searchBehind_of_seen ((contains_map seen i).trans hs)]
    exact ih
  | case5 seen i work hs hnone ih =>
    have hs' := (contains_map (ρ := ρ) seen i).trans (Bool.eq_false_iff.mpr hs)
    rw [List.map_cons, Option.map_some, TypeRef.renumber,
      searchBehind_of_none hs' (h.typeAt?_eq_none hnone), h.outside i hnone, ih, exceptMap_bind]
  | case6 seen i work hs t hsome b hb =>
    have hs' := (contains_map (ρ := ρ) seen i).trans (Bool.eq_false_iff.mpr hs)
    rw [List.map_cons, Option.map_some, TypeRef.renumber,
      searchBehind_of_some hs' (h.typeAt?_eq_some hsome), hfind, hb]
    rfl
  | case7 seen i work hs t hsome hnone ih =>
    have hs' := (contains_map (ρ := ρ) seen i).trans (Bool.eq_false_iff.mpr hs)
    rw [List.map_cons, Option.map_some, TypeRef.renumber,
      searchBehind_of_some hs' (h.typeAt?_eq_some hsome), hfind, hnone]
    rw [List.map_cons, List.map_append, List.map_reverse] at ih
    exact ih

theorem structBehind (h : p.Renumbers ρ p') (r : Option TypeRef) :
    p'.structBehind (r.map (TypeRef.renumber ρ)) =
      (p.structBehind r).map (Option.map (TypeDecl.renumber ρ)) := by
  refine h.searchBehind (fun t => ?_) _ [] [r]
  change (if t.isStruct then _ else _) = _
  split <;> rfl

private theorem unwrapFrom (h : p.Renumbers ρ p') (wrappers : List String) (seen : List Int)
    (r : Option TypeRef) :
    p'.unwrapFrom wrappers (seen.map ρ) (r.map (TypeRef.renumber ρ)) =
      (p.unwrapFrom wrappers seen r).map (Option.map (TypeRef.renumber ρ)) := by
  fun_induction Program.unwrapFrom p wrappers seen r with
  | case1 =>
    rw [Option.map_none, Program.unwrapFrom]
    rfl
  | case2 =>
    rw [Option.map_some, TypeRef.renumber, Program.unwrapFrom]
    rfl
  | case3 seen i hs =>
    rw [Option.map_some, TypeRef.renumber, unwrapFrom_of_seen ((contains_map seen i).trans hs)]
    rfl
  | case4 seen i hs hnone =>
    have hs' := (contains_map (ρ := ρ) seen i).trans (Bool.eq_false_iff.mpr hs)
    rw [Option.map_some, TypeRef.renumber, unwrapFrom_of_none hs' (h.typeAt?_eq_none hnone),
      h.outside i hnone]
    rfl
  | case5 seen i hs t hsome ih =>
    have hs' := (contains_map (ρ := ρ) seen i).trans (Bool.eq_false_iff.mpr hs)
    rw [Option.map_some, TypeRef.renumber, unwrapFrom_of_some hs' (h.typeAt?_eq_some hsome),
      exceptMap_bind]
    refine bind_congr fun name => ?_
    change (Option.map _ (if _ then (t.args.map _).head? else none)).getD _ = _
    cases wrappers.contains name with
    | false => rfl
    | true =>
      cases hargs : t.args with
      | nil => rfl
      | cons a rest => exact ih a

theorem unwrap (h : p.Renumbers ρ p') (wrappers : List String) (r : Option TypeRef) :
    p'.unwrap wrappers (r.map (TypeRef.renumber ρ)) =
      (p.unwrap wrappers r).map (Option.map (TypeRef.renumber ρ)) := h.unwrapFrom wrappers [] r

theorem innerType (h : p.Renumbers ρ p') (r : Option TypeRef) :
    p'.innerType (r.map (TypeRef.renumber ρ)) =
      (p.innerType r).map (Option.map (TypeRef.renumber ρ)) := by
  unfold Program.innerType
  rw [h.type?, bind_exceptMap, exceptMap_bind]
  refine bind_congr fun z => ?_
  cases z with
  | none => rfl
  | some t =>
    change Except.ok (t.args.map (Option.map (TypeRef.renumber ρ))).getLast?.join =
      .ok (t.args.getLast?.join.map (TypeRef.renumber ρ))
    rw [List.getLast?_map]
    cases t.args.getLast? <;> rfl

end Program.Renumbers

end AccountLint

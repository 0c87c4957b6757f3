import AccountLint.Proofs.Agreement
import AccountLint.Proofs.Alias.Places
import AccountLint.Proofs.Program.Behind
import AccountLint.Rule.Paths

/-! Hardening declarations: fields get further constraints and further fields to differ from, and
types get further facts. Look-ups and searches behind types come to the same ends, and a fact is not
lost. -/
namespace AccountLint

/-- A field with further constraints, but for `mut`, and further fields that it must differ from. -/
structure FieldDecl.Hardens (d d' : FieldDecl) : Prop where
  name : d'.name = d.name
  type : d'.type = d.type
  location : d'.location = d.location
  constraints : d.constraints ⊆ d'.constraints
  mutable : .text "mut" ∈ d'.constraints → .text "mut" ∈ d.constraints
  distinctFrom : d.distinctFrom ⊆ d'.distinctFrom

/-- A type with hardened fields and further facts, but for the one that it declares accounts. -/
structure TypeDecl.Hardens (t t' : TypeDecl) : Prop where
  id : t'.id = t.id
  path : t'.path = t.path
  kind : t'.kind = t.kind
  fields : List.Forall₂ FieldDecl.Hardens t.fields t'.fields
  variants : t'.variants = t.variants
  traits : t'.traits = t.traits
  attributes : t.attributes ⊆ t'.attributes
  accounts : .text TypeFact.accountsStruct ∈ t'.attributes →
    .text TypeFact.accountsStruct ∈ t.attributes
  args : t'.args = t.args
  length : t'.length = t.length
  location : t'.location = t.location

/-- A program with hardened types and the same functions. -/
structure Program.Hardens (p p' : Program) : Prop where
  types : List.Forall₂ TypeDecl.Hardens p.types p'.types
  functions : p'.functions = p.functions

namespace FieldDecl.Hardens

variable {d d' : FieldDecl}

theorem refl (d : FieldDecl) : d.Hardens d :=
  ⟨rfl, rfl, rfl, List.Subset.refl _, fun h => h, List.Subset.refl _⟩

theorem contains_mut (h : d.Hardens d') :
    d'.constraints.contains (.text "mut") = d.constraints.contains (.text "mut") := by
  rw [Bool.eq_iff_iff, List.contains_iff_mem, List.contains_iff_mem]
  exact ⟨h.mutable, fun hm => h.constraints hm⟩

end FieldDecl.Hardens

namespace TypeDecl.Hardens

variable {t t' : TypeDecl}

theorem refl (t : TypeDecl) : t.Hardens t where
  id := rfl
  path := rfl
  kind := rfl
  fields := List.forall₂_same.mpr fun d _ => .refl d
  variants := rfl
  traits := rfl
  attributes := List.Subset.refl _
  accounts := fun h => h
  args := rfl
  length := rfl
  location := rfl

theorem isStruct (h : t.Hardens t') : t'.isStruct = t.isStruct := by
  unfold TypeDecl.isStruct
  rw [h.kind]

theorem isEnum (h : t.Hardens t') : t'.isEnum = t.isEnum := by
  unfold TypeDecl.isEnum
  rw [h.kind]

theorem declName (h : t.Hardens t') : t'.name = t.name := by
  unfold TypeDecl.name
  rw [h.path]

theorem hasTrait (h : t.Hardens t') (trait : String) : t'.hasTrait trait = t.hasTrait trait := by
  unfold TypeDecl.hasTrait
  rw [h.traits, h.path]

theorem fieldNamed? (h : t.Hardens t') (name : Name) :
    Option.Rel FieldDecl.Hardens (t.fieldNamed? name) (t'.fieldNamed? name) := by
  have hfind : ∀ ds ds', List.Forall₂ FieldDecl.Hardens ds ds' →
      Option.Rel FieldDecl.Hardens (ds.find? (·.name.same name)) (ds'.find? (·.name.same name)) := by
    intro ds ds' hds
    induction hds with
    | nil => exact .none
    | cons hd _ ih =>
      rw [List.find?_cons, List.find?_cons, hd.name]
      split
      · exact .some hd
      · exact ih
  exact hfind _ _ h.fields

/-- A fact that a hardened type has among its attributes is new, or the type had it before. -/
theorem hasFact (h : t.Hardens t') (fact : String) :
    Agree (· ≤ ·) (t.hasFact fact) (t'.hasFact fact) := by
  unfold TypeDecl.hasFact
  rw [h.path, h.traits]
  cases hnew : t'.attributes.any (Value.same (.text fact)) with
  | true => exact .of_right Bool.le_true
  | false =>
    have hold : t.attributes.any (Value.same (.text fact)) = false := by
      rw [List.any_eq_false] at hnew ⊢
      exact fun v hv => hnew v (h.attributes hv)
    rw [hold]
    exact .of_eq rfl fun a => Bool.le_refl a

theorem hasFact_accountsStruct (h : t.Hardens t') :
    t'.hasFact TypeFact.accountsStruct = t.hasFact TypeFact.accountsStruct := by
  have hattr : t'.attributes.any (Value.same (.text TypeFact.accountsStruct)) =
      t.attributes.any (Value.same (.text TypeFact.accountsStruct)) := by
    rw [Bool.eq_iff_iff]
    simp only [List.any_eq_true, Value.text_same_iff]
    constructor
    · intro hm
      obtain ⟨v, hv, rfl⟩ := hm
      exact ⟨_, h.accounts hv, rfl⟩
    · intro hm
      obtain ⟨v, hv, rfl⟩ := hm
      exact ⟨_, h.attributes hv, rfl⟩
  unfold TypeDecl.hasFact
  rw [h.path, h.traits, hattr]

end TypeDecl.Hardens

theorem hasFact_agree {z z' : Option TypeDecl} (h : Option.Rel TypeDecl.Hardens z z')
    (fact : String) :
    Agree (· ≤ ·) (hasFact z fact) (hasFact z' fact) := by
  cases h with
  | none => exact .ok (Bool.le_refl false)
  | some h => exact h.hasFact fact

namespace Program.Hardens

variable {p p' : Program}

private theorem typeAt? {types types' : List TypeDecl}
    (h : List.Forall₂ TypeDecl.Hardens types types') (i : Int) :
    Option.Rel TypeDecl.Hardens (typeAt? types i) (typeAt? types' i) := by
  unfold AccountLint.typeAt?
  split
  · generalize i.toNat = n
    induction h generalizing n with
    | nil => exact .none
    | cons ht _ ih =>
      cases n with
      | zero => exact .some ht
      | succ n => exact ih n
  · exact .none

theorem type? (h : p.Hardens p') (r : Option TypeRef) :
    Alike (Option.Rel TypeDecl.Hardens) (p.type? r) (p'.type? r) := by
  match r with
  | none => exact .ok .none
  | some (.unresolved s) => exact .error _
  | some (.index i) =>
    have hat := typeAt? h.types i
    unfold Program.type?
    dsimp only
    generalize AccountLint.typeAt? p.types i = z at hat ⊢
    generalize AccountLint.typeAt? p'.types i = z' at hat ⊢
    cases hat with
    | none => exact .error _
    | some ht => exact .ok (.some ht)

private theorem searchBehind {types types' : List TypeDecl}
    (h : List.Forall₂ TypeDecl.Hardens types types') {β γ : Type} {R : β → γ → Prop}
    {find : TypeDecl → Option β} {find' : TypeDecl → Option γ}
    (hfind : ∀ t t', t.Hardens t' → Option.Rel R (find t) (find' t'))
    (outside : Int → Except Fault Unit) (seen : List Int) (work : List (Option TypeRef)) :
    Alike (Option.Rel R) (searchBehind types find outside seen work)
      (searchBehind types' find' outside seen work) := by
  -- the two searches go through the same positions, and see types with the same arguments
  fun_induction AccountLint.searchBehind types find outside seen work with
  | case1 =>
    rw [AccountLint.searchBehind]
    exact .ok .none
  | case2 seen work ih =>
    rw [AccountLint.searchBehind]
    exact ih
  | case3 =>
    rw [AccountLint.searchBehind]
    exact .error _
  | case4 seen i work hs ih =>
    rw [searchBehind_of_seen hs]
    exact ih
  | case5 seen i work hs hnone ih =>
    rw [searchBehind_of_none (Bool.eq_false_iff.mpr hs) (rel_none (hnone ▸ typeAt? h i))]
    exact .bind_self fun _ => ih
  | case6 seen i work hs t hsome b hb =>
    obtain ⟨t', hsome', ht⟩ := rel_some (hsome ▸ typeAt? h i)
    obtain ⟨b', hb', hr⟩ := rel_some (hb ▸ hfind t t' ht)
    rw [searchBehind_of_some (Bool.eq_false_iff.mpr hs) hsome', hb']
    exact .ok (.some hr)
  | case7 seen i work hs t hsome hnone ih =>
    obtain ⟨t', hsome', ht⟩ := rel_some (hsome ▸ typeAt? h i)
    have hnone' := rel_none (hnone ▸ hfind t t' ht)
    rw [searchBehind_of_some (Bool.eq_false_iff.mpr hs) hsome', hnone', ht.args]
    exact ih

theorem structBehind (h : p.Hardens p') (r : Option TypeRef) :
    Alike (Option.Rel TypeDecl.Hardens) (p.structBehind r) (p'.structBehind r) := by
  refine searchBehind h.types (fun t t' ht => ?_) _ [] [r]
  rw [ht.isStruct]
  split
  · exact .some ht
  · exact .none

theorem unwrap (h : p.Hardens p') (wrappers : List String) (r : Option TypeRef) :
    p'.unwrap wrappers r = p.unwrap wrappers r := by
  refine unwrapFrom_congr (fun i => ?_) wrappers [] r
  have hrel := typeAt? h.types i
  generalize AccountLint.typeAt? p.types i = z, AccountLint.typeAt? p'.types i = z' at hrel
  cases hrel with
  | none => rfl
  | some ht => rw [Option.map_some, Option.map_some, ht.declName, ht.args]

theorem innerType (h : p.Hardens p') (r : Option TypeRef) : p'.innerType r = p.innerType r := by
  refine ((h.type? r).bind_eq fun z z' hz => ?_).symm
  cases hz with
  | none => rfl
  | some ht =>
    dsimp only
    rw [ht.args]

theorem inTable (h : p.Hardens p') {r : Option TypeRef} (hr : p.InTable r) : p'.InTable r := by
  intro t ht
  obtain ⟨i, hi, h0, hlt⟩ := hr t ht
  rw [h.types.length_eq] at hlt
  exact ⟨i, hi, h0, hlt⟩

theorem typesInRange (h : p.Hardens p') (hp : p.TypesInRange) : p'.TypesInRange := by
  constructor
  case id =>
    intro i t' ht'
    have hat := typeAt? h.types i
    unfold AccountLint.typeAt? at hat
    rw [if_pos (Int.natCast_nonneg i), if_pos (Int.natCast_nonneg i), Int.toNat_natCast, ht'] at hat
    generalize hz : p.types[i]? = z at hat
    cases hat with
    | some ht => rw [ht.id, hp.id hz]
  case field =>
    intro t' ht' d' hd'
    obtain ⟨t, ht, hhard⟩ := exists_of_forall₂_right h.types ht'
    obtain ⟨d, hd, hfield⟩ := exists_of_forall₂_right hhard.fields hd'
    rw [hfield.type]
    exact h.inTable (hp.field t ht d hd)
  case arg =>
    intro t' ht' a ha
    obtain ⟨t, ht, hhard⟩ := exists_of_forall₂_right h.types ht'
    rw [hhard.args] at ha
    exact h.inTable (hp.arg t ht a ha)

end Program.Hardens
end AccountLint

import AccountLint.Build.TypeTable
import AccountLint.Guard
import AccountLint.Proofs.Program.Behind
import AccountLint.Sink.Bump

/-! Accesses to fields: the type of an access comes from the first type behind the receiver that has
the field, and its declaration from the first struct there. The two are of the same field just if
what has the field is a struct and no other struct comes before it. -/
namespace AccountLint

def fieldBehind (types : List TypeDecl) (type : Option TypeRef) (name : Name) :
    Except Fault (Option (TypeDecl × FieldDecl)) :=
  searchBehind types (fun t => (t.fieldNamed? name).map fun d => (t, d)) (fun _ => .ok ()) [] [type]

/-- The search for the type of a field is a search for its declaration. -/
theorem fieldTypeBehind_eq_map (types : List TypeDecl) (type : Option TypeRef) (name : Name) :
    fieldTypeBehind types type name =
      (fieldBehind types type name).map fun z => z.bind fun found => found.2.type := by
  have hmap : searchBehind types (fun t => (t.fieldNamed? name).map (·.type)) (fun _ => .ok ()) []
      [type] = (fieldBehind types type name).map (Option.map fun found => found.2.type) := by
    unfold fieldBehind
    rw [← searchBehind_map]
    simp only [Option.map_map, Function.comp_def]
  unfold fieldTypeBehind
  rw [hmap, bind_exceptMap]
  rcases fieldBehind types type name with e | _ | found
  · rfl
  · rfl
  · rfl

namespace Program

variable {p : Program} {type : Option TypeRef} {name : Name} {owner : TypeDecl} {d : FieldDecl}

private theorem inTable_of_fieldBehind (h : fieldBehind p.types type name = .ok (some (owner, d))) :
    p.InTable type := by
  unfold fieldBehind at h
  rcases type with _ | i | s
  · exact inTable_none
  · cases hat : typeAt? p.types i with
    | none =>
      rw [searchBehind_of_none rfl hat, searchBehind] at h
      cases h
    | some t => exact inTable_of_typeAt? hat
  · rw [searchBehind] at h
    cases h

section InTable

variable (hargs : ∀ t ∈ p.types, ∀ a ∈ t.args, p.InTable a)

include hargs

private theorem structBehind_eq_find? (htype : p.InTable type) :
    p.structBehind type = .ok ((typesBehind p.types [] [type]).find? (·.isStruct)) := by
  unfold structBehind
  rw [searchBehind_eq hargs _ _ [] (by simpa using htype)]
  congr 1
  generalize typesBehind p.types [] [type] = order
  induction order with
  | nil => rfl
  | cons t order ih =>
    rw [List.findSome?_cons, List.find?_cons]
    cases t.isStruct with
    | true => rfl
    | false => exact ih

/-- What has a field is the first type of the search that has it. -/
theorem split_of_fieldBehind (h : fieldBehind p.types type name = .ok (some (owner, d))) :
    owner.fieldNamed? name = some d ∧ ∃ before after,
      typesBehind p.types [] [type] = before ++ owner :: after ∧
        ∀ t ∈ before, t.fieldNamed? name = none := by
  have hfind := h
  unfold fieldBehind at hfind
  rw [searchBehind_eq hargs _ _ [] (by simpa using inTable_of_fieldBehind h)] at hfind
  obtain ⟨before, t, after, horder, ht, hbefore⟩ :=
    List.findSome?_eq_some_iff.mp (Except.ok.inj hfind)
  obtain ⟨d', hd, heq⟩ := Option.map_eq_some_iff.mp ht
  obtain ⟨rfl, rfl⟩ := Prod.mk.inj heq
  exact ⟨hd, before, after, horder, fun u hu => Option.map_eq_none_iff.mp (hbefore u hu)⟩

end InTable
end Program

structure Facts.AccessesField (f : Facts) (e : Expr) (type : Option TypeRef) (name : Name) : Prop where
  kind : e.kind = .field
  receiver : ∃ r receiver, e.receiver = some r ∧ f.function.expr r = .ok receiver ∧ receiver.type = type
  name : AccessPath.stepOf e.name = name

namespace Facts.AccessesField

variable {f : Facts} {e : Expr} {type : Option TypeRef} {name : Name} {z : Option TypeDecl}

private theorem declaredField_eq (h : f.AccessesField e type name)
    (hz : f.program.structBehind type = .ok z) :
    f.declaredField e = .ok (z.bind (·.fieldNamed? name)) := by
  obtain ⟨r, receiver, hr, hreceiver, rfl⟩ := h.receiver
  unfold declaredField
  rw [h.kind, hr]
  refine bind_eq_ok.mpr ⟨receiver, hreceiver, bind_eq_ok.mpr ⟨z, hz, ?_⟩⟩
  rw [h.name]
  cases z <;> rfl

private theorem declaresBump_eq (h : f.AccessesField e type name)
    (hz : f.program.structBehind type = .ok z) {i : Int} (hi : f.source i = .ok e) :
    f.declaresBump i =
      .ok ((z.bind (·.fieldNamed? name)).any fun d => d.constraints.contains (.text "bump")) := by
  obtain ⟨r, receiver, hr, hreceiver, rfl⟩ := h.receiver
  unfold declaresBump
  refine bind_eq_ok.mpr ⟨e, hi, ?_⟩
  rw [h.kind, hr]
  refine bind_eq_ok.mpr ⟨receiver, hreceiver, bind_eq_ok.mpr ⟨z, hz, ?_⟩⟩
  rw [h.name]
  cases z <;> rfl

end Facts.AccessesField

/-- The type of an access to a field is that of a declaration, and what the access is taken to
declare comes from the first struct in the order of the search. This is the type with the
declaration just if it is a struct and none of the types before it is; and then the declaration is
the same. A struct before it hides the declaration. -/
theorem structBehind_eq_owner_iff {table : TypeTable} {p : Program} (htypes : p.types = table.types)
    (hargs : ∀ t ∈ p.types, ∀ a ∈ t.args, p.InTable a) {type : Option TypeRef} {name : Name}
    {owner : TypeDecl} {d : FieldDecl} (h : fieldBehind table.types type name = .ok (some (owner, d))) :
    table.fieldType type name = .ok d.type ∧ owner.fieldNamed? name = some d ∧
      p.structBehind type = .ok ((typesBehind p.types [] [type]).find? (·.isStruct)) ∧
      ∃ before after, typesBehind p.types [] [type] = before ++ owner :: after ∧
        (∀ t ∈ before, t.fieldNamed? name = none) ∧
        (p.structBehind type = .ok (some owner) ↔
          owner.isStruct = true ∧ ∀ t ∈ before, t.isStruct = false) ∧
        ∀ (f : Facts) (e : Expr), f.program = p → f.AccessesField e type name →
          (p.structBehind type = .ok (some owner) → f.declaredField e = .ok (some d) ∧
            ∀ i, f.source i = .ok e →
              f.declaresBump i = .ok (d.constraints.contains (.text "bump"))) ∧
          ((∃ t ∈ before, t.isStruct = true) → f.declaredField e = .ok none ∧
            ∀ i, f.source i = .ok e → f.declaresBump i = .ok false) := by
  rw [← htypes] at h
  have hfind := p.structBehind_eq_find? hargs (Program.inTable_of_fieldBehind h)
  obtain ⟨hd, before, after, horder, hbefore⟩ := Program.split_of_fieldBehind hargs h
  have hnot : owner ∉ before := by
    intro hmem
    rw [hbefore owner hmem] at hd
    cases hd
  refine ⟨?_, hd, hfind, before, after, horder, hbefore, ?_, ?_⟩
  · unfold TypeTable.fieldType
    rw [← htypes, fieldTypeBehind_eq_map, h]
    rfl
  · rw [hfind, horder, Except.ok.injEq, find?_append_cons_eq_some_iff hnot]
  · rintro f e rfl haccess
    constructor
    · intro howner
      refine ⟨?_, fun i hi => ?_⟩
      · rw [haccess.declaredField_eq howner, Option.bind_some, hd]
      · rw [haccess.declaresBump_eq howner hi, Option.bind_some, hd]
        rfl
    · rintro ⟨t, ht, hstruct⟩
      -- the struct that comes first is among those without the field
      obtain ⟨u, hu⟩ := Option.isSome_iff_exists.mp (List.find?_isSome.mpr ⟨t, ht, hstruct⟩)
      have hnone := hbefore u (List.mem_of_find?_eq_some hu)
      have hfirst : f.program.structBehind type = .ok (some u) := by
        rw [hfind, horder, List.find?_append, hu, Option.some_or]
      refine ⟨?_, fun i hi => ?_⟩
      · rw [haccess.declaredField_eq hfirst, Option.bind_some, hnone]
      · rw [haccess.declaresBump_eq hfirst hi, Option.bind_some, hnone]
        rfl

def FieldDecl.authority : FieldDecl :=
  { name := .text "authority", type := some (.index 0), constraints := [.text "owner"] }

def TypeDecl.innerVault : TypeDecl :=
  { id := 1, path := .text "Inner", kind := .struct, fields := [.authority] }

def TypeDecl.outerVault : TypeDecl :=
  { id := 2, path := .text "Outer", kind := .struct, fields := [{ name := .text "bump" }]
    args := [some (.index 1)] }

/-- A program with the two structs, and a hidden type with the inner one and itself as arguments. -/
def Program.wrappedVault : Program :=
  { types := [
      { id := 0, path := .text Paths.accountInfo }, .innerVault, .outerVault,
      { id := 3, path := .text "Hidden", args := [some (.index 1), none, some (.index 3)] }] }

private theorem Program.wrappedVault_inTable :
    ∀ t ∈ wrappedVault.types, ∀ a ∈ t.args, wrappedVault.InTable a := by decide

theorem structBehind_eq_owner_iff_wrappedVault :
    (∀ t ∈ Program.wrappedVault.types, ∀ a ∈ t.args, Program.wrappedVault.InTable a) ∧
      fieldBehind Program.wrappedVault.types (some (.index 3)) (.text "authority") =
        .ok (some (.innerVault, .authority)) ∧
      TypeTable.fieldType { types := Program.wrappedVault.types } (some (.index 3))
        (.text "authority") = .ok (some (.index 0)) ∧
      Program.wrappedVault.structBehind (some (.index 3)) = .ok (some .innerVault) ∧
      ∃ before after, typesBehind Program.wrappedVault.types [] [some (.index 3)] =
        before ++ .innerVault :: after ∧ ∀ t ∈ before, t.isStruct = false := by
  have hfield : fieldBehind Program.wrappedVault.types (some (.index 3)) (.text "authority") =
      .ok (some (.innerVault, .authority)) := ok_of_toOption (by decide +kernel)
  have hstruct : Program.wrappedVault.structBehind (some (.index 3)) = .ok (some .innerVault) :=
    ok_of_toOption (by decide +kernel)
  have htypes : Program.wrappedVault.types =
      ({ types := Program.wrappedVault.types } : TypeTable).types := rfl
  obtain ⟨htype, _, _, before, after, horder, _, howner, _⟩ :=
    structBehind_eq_owner_iff htypes Program.wrappedVault_inTable hfield
  exact ⟨Program.wrappedVault_inTable, hfield, htype, hstruct, before, after, horder,
    (howner.mp hstruct).2⟩

/-- A field that is typed but whose declaration is not seen: the search for the struct stops at
another one. -/
theorem structBehind_misses_owner :
    (∀ t ∈ Program.wrappedVault.types, ∀ a ∈ t.args, Program.wrappedVault.InTable a) ∧
      fieldBehind Program.wrappedVault.types (some (.index 2)) (.text "authority") =
        .ok (some (.innerVault, .authority)) ∧
      TypeTable.fieldType { types := Program.wrappedVault.types } (some (.index 2))
        (.text "authority") = .ok (some (.index 0)) ∧
      Program.wrappedVault.structBehind (some (.index 2)) = .ok (some .outerVault) ∧
      TypeDecl.outerVault.fieldNamed? (.text "authority") = none :=
  ⟨Program.wrappedVault_inTable, ok_of_toOption (by decide +kernel), ok_of_toOption (by decide +kernel),
    ok_of_toOption (by decide +kernel), by decide⟩

end AccountLint

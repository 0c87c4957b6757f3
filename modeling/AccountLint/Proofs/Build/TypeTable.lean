import AccountLint.Build.TypeTable
import AccountLint.Proofs.Alias.Places
import AccountLint.Proofs.Program.Valid
import AccountLint.Proofs.Total.Types

/-! Tables of types under construction. Where types refer to types of the table only, so do the
types that the table tells, and there is an answer for all but some calls of methods. -/
namespace AccountLint

namespace TypeTable

variable {t : TypeTable} {p : Program} {may : Fault → Prop}

theorem add_types (t : TypeTable) (d : TypeDecl) :
    (t.add d).1.types = t.types ++ [{ d with id := t.types.length }] := by
  unfold add
  dsimp only
  split
  · rfl
  · split
    · rfl
    · rfl

private theorem mem_positions_add {d : TypeDecl} {entry : Value × Int}
    (h : entry ∈ (t.add d).1.positions) :
    entry ∈ t.positions ∨ entry.2 = t.types.length := by
  unfold add at h
  dsimp only at h
  split at h
  · exact Or.inl h
  · split at h
    · exact Or.inl h
    · refine (List.mem_append.mp h).imp_right fun h => ?_
      rw [List.mem_singleton.mp h]

/-- Tables that are built type by type. -/
inductive Built : TypeTable → Prop where
  | empty : Built {}
  | add {t : TypeTable} (h : Built t) (d : TypeDecl) : Built (t.add d).1
  | primitive {t : TypeTable} (h : Built t) (path : Value) : Built (t.primitive path).1
  | array {t : TypeTable} (h : Built t) (element : TypeRef) (length : Option Int) :
      Built (t.array element length).1

/-- The ids of types are their positions, and paths are recorded with positions of the table. -/
structure Numbered (t : TypeTable) : Prop where
  id : ∀ {i : Nat} {d : TypeDecl}, t.types[i]? = some d → d.id = i
  position : ∀ entry ∈ t.positions, 0 ≤ entry.2 ∧ entry.2 < t.types.length

private theorem Numbered.add (h : t.Numbered) (d : TypeDecl) : (t.add d).1.Numbered where
  id := by
    intro i e he
    rw [add_types] at he
    rcases getElem?_snoc he with hold | ⟨rfl, rfl⟩
    · exact h.id hold
    · rfl
  position := by
    intro entry hentry
    rw [add_types, List.length_append, List.length_singleton]
    rcases mem_positions_add hentry with hold | hnew
    · have := h.position entry hold
      omega
    · omega

theorem Built.numbered (h : t.Built) : t.Numbered := by
  induction h with
  | empty => exact ⟨fun h => (by cases h), fun entry h => (by cases h)⟩
  | add _ d ih => exact ih.add d
  | primitive _ path ih =>
    unfold TypeTable.primitive
    split
    · exact ih
    · split
      · exact ih
      · exact ih.add _
  | array _ element length ih =>
    unfold TypeTable.array
    split
    · exact ih
    · exact ih.add _

/-- The table of a program whose types refer to types of the table only. -/
structure Grounded (t : TypeTable) (p : Program) : Prop where
  types : t.types = p.types
  inRange : p.TypesInRange
  position : ∀ path i, t.position? path = some i → p.InTable (some (.index i))

/-- A reference to a type of the table, or none. -/
def Has (t : TypeTable) (r : Option TypeRef) : Prop := ({ types := t.types } : Program).InTable r

instance (t : TypeTable) (r : Option TypeRef) : Decidable (t.Has r) :=
  match r with
  | none => isTrue Program.inTable_none
  | some (.index i) =>
    decidable_of_iff (0 ≤ i ∧ i < t.types.length)
      ⟨fun h _ hr => ⟨i, (Option.some.inj hr).symm, h⟩, Program.InTable.index⟩
  | some (.unresolved _) => isFalse Program.InTable.not_unresolved

/-- Types refer to types of the table only. -/
structure Closed (t : TypeTable) : Prop where
  built : t.Built
  field : ∀ d ∈ t.types, ∀ f ∈ d.fields, t.Has f.type
  arg : ∀ d ∈ t.types, ∀ a ∈ d.args, t.Has a

theorem Numbered.inTable (h : t.Numbered) (htypes : t.types = p.types) (path : Value) (i : Int)
    (hi : t.position? path = some i) : p.InTable (some (.index i)) := by
  obtain ⟨entry, hentry, rfl⟩ := Option.map_eq_some_iff.mp hi
  intro r hr
  obtain rfl := Option.some.inj hr
  exact ⟨entry.2, rfl, htypes ▸ h.position entry (List.mem_of_find?_eq_some hentry)⟩

theorem Closed.grounded (h : t.Closed) : t.Grounded { types := t.types } where
  types := rfl
  inRange := ⟨h.built.numbered.id, h.field, h.arg⟩
  position := h.built.numbered.inTable rfl

namespace Grounded

variable {type : Option TypeRef}

theorem entry (h : t.Grounded p) {r : TypeRef} (hr : p.InTable (some r)) :
    ∃ d ∈ p.types, t.entry r = .ok d := by
  obtain ⟨i, rfl, h0, hlt⟩ := hr r rfl
  rw [← h.types] at hlt
  obtain ⟨d, hd, _⟩ := fromEnd?_of_inRange h0 hlt
  refine ⟨d, h.types ▸ mem_of_fromEnd? hd, ?_⟩
  unfold TypeTable.entry
  dsimp only
  rw [hd]

theorem fieldType (h : t.Grounded p) (htype : p.InTable type) (name : Name) :
    Yields may p.InTable (t.fieldType type name) := by
  unfold TypeTable.fieldType fieldTypeBehind
  rw [h.types]
  have hwork : ∀ r ∈ [type], p.InTable r := fun r hr => List.mem_singleton.mp hr ▸ htype
  refine (h.inRange.searchBehind [] hwork).bind fun found hfound => ?_
  cases found with
  | none => exact Program.inTable_none
  | some r =>
    obtain ⟨d, hd, hfield⟩ := hfound r rfl
    obtain ⟨f, hf, rfl⟩ := Option.map_eq_some_iff.mp hfield
    exact h.inRange.field d hd f (TypeDecl.mem_of_fieldNamed? hf)

private theorem inTable_of_mem_args (h : t.Grounded p) {d : TypeDecl} (hd : d ∈ p.types)
    {a : Option TypeRef} (ha : d.args.head? = some a) : p.InTable a :=
  h.inRange.arg d hd a (List.mem_of_mem_head? ha)

theorem elementType (h : t.Grounded p) (htype : p.InTable type) :
    Yields may p.InTable (t.elementType type) := by
  unfold TypeTable.elementType
  split
  · exact Program.inTable_none
  · obtain ⟨d, hd, hentry⟩ := h.entry htype
    rw [hentry]
    cases hkind : d.kind == .array with
    | false =>
      simp only [bind, Except.bind, hkind]
      exact Program.inTable_none
    | true =>
      simp only [bind, Except.bind, hkind]
      cases ha : d.args.head? with
      | none => exact Program.inTable_none
      | some a => exact h.inTable_of_mem_args hd ha

end Grounded

/-- Why a table cannot tell the type of the result of a method: the name of the method is a list, or
the method takes a value out of a type whose path is no text. -/
inductive CannotTell (t : TypeTable) (receiver : Option TypeRef) : Name → Fault → Prop where
  | name {method : Name} (h : method.isKey = false) : CannotTell t receiver method .shape
  | path {method : String} {r : TypeRef} {d : TypeDecl} (hmethod : method ∈ unwrapMethods)
      (hr : receiver = some r) (hd : t.entry r = .ok d) (hpath : ∀ s, d.path ≠ .text s) :
      CannotTell t receiver (.text method) .notText

private theorem isOneOf_yields {v : Value} {texts : List String}
    (hv : v.isKey = false → may .shape) :
    Yields may (fun b => b = true → ∃ s ∈ texts, v = .text s) (v.isOneOf texts) := by
  cases hone : v.isOneOf texts with
  | ok b => exact (Value.isOneOf_eq_ok hone).mp
  | error e =>
    unfold Value.isOneOf Value.isIn at hone
    split at hone
    · cases hone
    · rename_i hkey
      obtain rfl := Except.error.inj hone
      exact hv (by simpa using hkey)

private theorem name_safe {d : TypeDecl} (hd : (∀ s, d.path ≠ .text s) → may .notText) :
    Safe may d.name := by
  unfold TypeDecl.name
  split
  · trivial
  · rename_i hpath
    exact hd hpath

/-- The type of the result of a method is a type of the table, if the table can tell it. -/
theorem Grounded.methodType_yields (h : t.Grounded p) {receiver : Option TypeRef}
    (hreceiver : p.InTable receiver) (method : Name) :
    Yields (t.CannotTell receiver method) p.InTable (t.methodType receiver method) := by
  unfold methodType
  refine (isOneOf_yields .name).bind fun same _ => ?_
  split
  · exact hreceiver
  split
  · cases hi : t.position? (.text accountInfoPath) with
    | none => exact Program.inTable_none
    | some i => exact h.position _ i hi
  split
  · exact Program.inTable_none
  rename_i r
  refine (isOneOf_yields .name).bind fun unwraps hunwraps => ?_
  split
  · rename_i htrue
    obtain ⟨s, hs, rfl⟩ := hunwraps htrue
    obtain ⟨d, hd, hentry⟩ := h.entry hreceiver
    rw [hentry]
    refine (name_safe fun hpath => .path hs rfl hentry hpath).bind fun name _ => ?_
    split
    · split
      · rename_i a rest hargs
        exact h.inTable_of_mem_args hd (by rw [hargs]; rfl)
      · exact hreceiver
    · exact hreceiver
  · exact Program.inTable_none

/-- The methods that take a value out of a wrapper fall under no other rule. -/
theorem isOneOf_of_mem_unwrapMethods {method : String} (h : method ∈ unwrapMethods) :
    (Value.text method).isOneOf sameTypeMethods = .ok false ∧
      (Value.text method).same (.text "to_account_info") = false ∧
      (Value.text method).isOneOf unwrapMethods = .ok true := by
  simp only [unwrapMethods, List.mem_cons, List.not_mem_nil, or_false] at h
  rcases h with rfl | rfl | rfl
  · exact ⟨rfl, rfl, rfl⟩
  · exact ⟨rfl, rfl, rfl⟩
  · exact ⟨rfl, rfl, rfl⟩

theorem Grounded.methodType_eq_error_iff (h : t.Grounded p) {receiver : Option TypeRef}
    (hreceiver : p.InTable receiver) {method : Name} {e : Fault} :
    t.methodType receiver method = .error e ↔ t.CannotTell receiver method e := by
  constructor
  · intro he
    have hyields := h.methodType_yields hreceiver method
    rw [he] at hyields
    exact hyields
  · intro he
    cases he with
    | name hname =>
      unfold methodType Value.isOneOf Value.isIn
      rw [if_neg (by simp [hname])]
      rfl
    | @path method r d hmethod hr hd hpath =>
      have hnone : d.name = .error .notText := by
        unfold TypeDecl.name
        split
        · exact absurd ‹_› (hpath _)
        · rfl
      obtain ⟨hsame, hinfo, hunwraps⟩ := isOneOf_of_mem_unwrapMethods hmethod
      unfold methodType
      rw [hsame, hr]
      simp only [bind, Except.bind, hinfo, hunwraps, hd, hnone, Bool.false_eq_true, if_false, if_true]

end TypeTable
end AccountLint

import AccountLint.Proofs.Document.FlawedFunctions
import AccountLint.Proofs.Document.Load

/-! What a document cannot get wrong. The types that a loaded program mentions are all declared, and
its functions are well formed. -/
namespace AccountLint

/-- A function of a program as documents give it. -/
structure Function.WellBuilt (f : Function) (p : Program) : Prop where
  valid : f.validate = .ok ()
  hasBlock : f.blocks ≠ []
  entry : f.entry = 0
  nodup : ∀ b ∈ f.blocks, b.successors.Nodup
  paramType : ∀ q ∈ f.params, p.InTable q.type
  localType : ∀ v ∈ f.locals, p.InTable v.type
  exprType : ∀ e ∈ f.exprs, p.InTable e.type
  construct : ∀ e ∈ f.exprs, e.kind = .construct → e.fieldNames.length = e.operands.length

private theorem FunctionDraft.Grounded.wellBuilt {d : FunctionDraft} {p : Program}
    (h : d.Grounded p) (hbranching : d.Branching) (hvalid : d.function.validate = .ok ()) :
    d.function.WellBuilt p where
  valid := hvalid
  hasBlock := by
    rw [← List.length_pos_iff, hbranching.length_blocks]
    exact List.length_pos_iff.mpr hbranching.hasBlock
  entry := rfl
  nodup := fun b hb => hbranching.nodup b.successors (mem_blocks hb).2
  paramType := h.paramType
  localType := h.localType
  exprType := h.exprType
  construct := h.construct

namespace Document

variable {p : Program}

private theorem RefersTo.inTable {declarations : List Value}
    (hlength : declarations.length = p.types.length) {name : Value} {type : Option TypeRef}
    (h : RefersTo declarations name type) : p.InTable type := by
  cases h with
  | unknown => exact Program.inTable_none
  | @declared i _ _ _ _ hat _ =>
    intro t ht
    obtain rfl := Option.some.inj ht
    refine ⟨i, rfl, Int.natCast_nonneg i, ?_⟩
    have hi := (List.getElem?_eq_some_iff.mp hat).1
    omega

/-- The types of a document refer to types of the document. -/
theorem typesInRange_of_depicts {declarations : List Value}
    (h : List.Forall₂ (TypeDepicts declarations) declarations.zipIdx p.types) : p.TypesInRange := by
  have hlength : declarations.length = p.types.length := by
    rw [← h.length_eq, List.length_zipIdx]
  constructor
  case id =>
    intro i t ht
    obtain ⟨hi, rfl⟩ := List.getElem?_eq_some_iff.mp ht
    have hform := h.get (by rw [List.length_zipIdx, hlength]; exact hi) hi
    simpa using hform.id
  case field =>
    intro t ht d hd
    obtain ⟨form, _, hform⟩ := exists_of_forall₂_right h ht
    obtain ⟨_, _, _, _, _, _, hfields, _⟩ := hform.parts
    obtain ⟨_, _, _, _, _, htype⟩ := exists_of_forall₂_right hfields hd
    exact htype.inTable hlength
  case arg =>
    intro t ht a ha
    obtain ⟨form, _, hform⟩ := exists_of_forall₂_right h ht
    obtain ⟨_, _, _, _, _, _, _, hargs⟩ := hform.parts
    obtain ⟨_, _, htype⟩ := exists_of_forall₂_right hargs ha
    exact htype.inTable hlength

private theorem typeTable_built {names : TypeNames} {forms : List Value} {table : TypeTable}
    (hheads : ∀ form ∈ forms, hasHead "type" form = true) (h : typeTable names forms = .ok table) :
    table.Built := by
  refine foldlM_invariant (fun _ (t : TypeTable) => t.Built) .empty ?_ h
  intro past form rest t t' hsplit ht hstep
  have hform : form ∈ forms := hsplit ▸ List.mem_append_right _ List.mem_cons_self
  obtain ⟨_, _, _, d, -, -, rfl⟩ := addType_eq_ok (hheads form hform) hstep
  exact ht.add d

/-- The names and the table of a document are about its types. -/
theorem env_grounded {forms : List Value} {names : TypeNames} {table : TypeTable}
    (hheads : ∀ form ∈ forms, hasHead "type" form = true) (hnames : typeNames forms = .ok names)
    (htable : typeTable names forms = .ok table) (htypes : p.types = table.types) :
    Env.Grounded ⟨names, table⟩ forms p := by
  have hof := typeNames_of hheads hnames
  have hdepicts : List.Forall₂ (TypeDepicts forms) forms.zipIdx p.types :=
    htypes ▸ typeTable_depicts hof hheads htable
  have hlength : forms.length = p.types.length := by rw [← hdepicts.length_eq, List.length_zipIdx]
  constructor
  case table =>
    refine ⟨htypes.symm, typesInRange_of_depicts hdepicts, ?_⟩
    exact (typeTable_built hheads htable).numbered.inTable htypes.symm
  case resolve => exact fun name type hname => (hof name type hname).inTable hlength
  case oddPath =>
    intro t ht hodd
    obtain ⟨form, hform, htype⟩ := exists_of_forall₂_right hdepicts ht
    obtain ⟨name, kind, options, hparts, _, hpath, _⟩ := htype.parts
    exact ⟨name, kind, options, t.path, hparts ▸ List.fst_mem_of_mem_zipIdx hform, hpath, hodd⟩

/-- A loaded program comes from names and a table that are about its types, and from drafts of its
functions. -/
theorem load_env {text : String} (h : load text = .ok p) :
    ∃ (forms : List Value) (names : TypeNames) (table : TypeTable),
      Env.Grounded ⟨names, table⟩ (forms.filter (hasHead "type")) p ∧
      names.Of (forms.filter (hasHead "type")) ∧
      List.Forall₂ (fun form f => ∃ d, functionDraft ⟨names, table⟩ form = .ok d ∧
        d.function.validate = .ok () ∧ f = d.function)
        (forms.filter (hasHead "function")) p.functions := by
  obtain ⟨forms, names, table, -, hnames, htable, htypes, hfunctions⟩ := load_eq_ok h
  have hheads : ∀ form ∈ forms.filter (hasHead "type"), hasHead "type" form = true :=
    fun form hform => (List.mem_filter.mp hform).2
  exact ⟨forms, names, table, env_grounded hheads hnames htable htypes, typeNames_of hheads hnames,
    hfunctions⟩

private theorem wellBuilt_of_mem {text : String} (h : load text = .ok p) {f : Function}
    (hf : f ∈ p.functions) :
    f.WellBuilt p := by
  obtain ⟨forms, names, table, henv, hof, hfunctions⟩ := load_env h
  obtain ⟨form, _, d, hd, hvalid, rfl⟩ := exists_of_forall₂_right hfunctions hf
  have hdraft := functionDraft_blames henv hof form
  rw [hd] at hdraft
  exact hdraft.1.1.wellBuilt hdraft.1.2 hvalid

/-- What a document cannot get wrong: its types refer to types of the table, and each of its
functions is well formed and grounded. -/
theorem load_grounded {text : String} {p : Program} (h : load text = .ok p) :
    p.TypesInRange ∧ ∀ f ∈ p.functions, f.validate = .ok () ∧
      (∀ e ∈ f.exprs, p.InTable e.type) ∧ (∀ q ∈ f.params, p.InTable q.type) ∧
      ∀ e ∈ f.exprs, e.kind = .construct → e.fieldNames.length ≤ e.operands.length := by
  obtain ⟨forms, names, table, henv, -⟩ := load_env h
  refine ⟨henv.table.inRange, fun f hf => ?_⟩
  have hbuilt := wellBuilt_of_mem h hf
  exact ⟨hbuilt.valid, hbuilt.exprType, hbuilt.paramType,
    fun e he hkind => Nat.le_of_eq (hbuilt.construct e he hkind)⟩

/-- Every type that a loaded program mentions is a type of its table, also where the type of an
expression was found and not given, and its functions are well formed. -/
theorem load_wellBuilt {text : String} {p : Program} (h : load text = .ok p) :
    p.TypesInRange ∧ ∀ f ∈ p.functions, f.WellBuilt p := by
  obtain ⟨forms, names, table, henv, -⟩ := load_env h
  exact ⟨henv.table.inRange, fun f hf => wellBuilt_of_mem h hf⟩

/-- A document whose types are found behind a wrapper, in an array, by a method and from variables.
It names a successor twice and sets a field twice. -/
def wrappedText : String :=
  "(program (type R array (args Box))(type Box struct (args S))(type S struct (fields (r R)))
 (function f (params (b Box))(block 0 (succ 1 1)(let l (index (field b r)))
 (eval (new S (r l)(r (method unwrap l)))))(block 1 (succ))))"

theorem load_wellBuilt_wrapped : ∃ p, load wrappedText = .ok p ∧
    p.functions.map (fun f => (f.exprs.map (·.type), f.blocks.map (·.successors))) =
      [([1, 0, 1, 1, 1, 1, 2, 2].map fun i => some (.index i), [[1], []])] ∧
    p.TypesInRange ∧ ∀ f ∈ p.functions, f.WellBuilt p := by
  have hread : ((load wrappedText).toOption.map fun p => p.functions.map fun f =>
      (f.exprs.map (·.type), f.blocks.map (·.successors))) =
      some [([1, 0, 1, 1, 1, 1, 2, 2].map fun i => some (.index i), [[1], []])] := by
    decide +kernel
  obtain ⟨p, hp, hview⟩ := Option.map_eq_some_iff.mp hread
  have hload := ok_of_toOption hp
  exact ⟨p, hload, hview, load_wellBuilt hload⟩

end Document
end AccountLint

import AccountLint.Proofs.Document.Grounding
import AccountLint.Proofs.Total.Run

/-! Runs on loaded programs. Types and expressions are in order then, so that only names that are no
texts can end a run. -/
namespace AccountLint

/-- The names in a program are texts, and statements assign to expressions only. Documents are not
asked for that. -/
structure Program.NamesAreTexts (p : Program) : Prop where
  typePath : ∀ t ∈ p.types, ∃ s, t.path = .text s
  trait : ∀ t ∈ p.types, ∀ tr ∈ t.traits, ∃ s, tr = .text s
  fieldName : ∀ t ∈ p.types, ∀ d ∈ t.fields, ∃ s, d.name = .text s
  distinctFrom : ∀ t ∈ p.types, ∀ d ∈ t.fields, ∀ n ∈ d.distinctFrom, ∃ s, n = .text s
  paramName : ∀ f ∈ p.functions, ∀ q ∈ f.params, ∃ s, q.name = .text s
  exprName : ∀ f ∈ p.functions, ∀ e ∈ f.exprs, ∀ n, e.name = some n → ∃ s, n = .text s
  target : ∀ f ∈ p.functions, ∀ b ∈ f.blocks, ∀ s ∈ b.stmts, ∀ t, s.target = some t → ∃ i, t = .expr i

variable {p : Program} {may : Fault → Prop}

private theorem Program.NamesAreTexts.wellFormed (h : p.NamesAreTexts) {text : String}
    (hload : Document.load text = .ok p) : p.WellFormed := by
  obtain ⟨htypes, hfunctions⟩ := Document.load_grounded hload
  exact {
    typeId := htypes.id
    fieldType := htypes.field
    argType := htypes.arg
    paramType := fun f hf => (hfunctions f hf).2.2.1
    exprType := fun f hf => (hfunctions f hf).2.1
    construct := fun f hf => (hfunctions f hf).2.2.2
    typePath := h.typePath
    trait := h.trait
    fieldName := h.fieldName
    distinctFrom := h.distinctFrom
    paramName := h.paramName
    exprName := h.exprName
    target := h.target }

private theorem FunctionReport.ofFunction_yields {rules : List Rule} (hrules : ∀ r ∈ rules, r.Plain)
    (hp : p.TypesInRange) (hn : ∀ t ∈ p.types, t.FitNames may) {f : Function} (hfit : f.Fits may p)
    (hv : f.validate = .ok ()) :
    Yields may (fun answer => answer.1.skipped = false → answer.1.types.InTable p)
      (ofFunction p rules f) := by
  have hbody : Yields may (Fits p f.name) (ofBody p rules f) := ofBody_yields hrules hp hn hfit hv
  unfold ofFunction
  split
  · exact fun hskipped => (by cases hskipped)
  · cases hreport : ofBody p rules f with
    | ok report =>
      rw [hreport] at hbody
      exact fun _ => hbody.types
    | error e =>
      rw [hreport] at hbody
      dsimp only
      split
      · exact fun hskipped => (by cases hskipped)
      · exact hbody

/-- A run on functions that are well formed ends with a result, or with a fault that their names
lead to. -/
theorem runRules_safe {rules : List Rule} (hrules : ∀ r ∈ rules, r.Plain) (tags : List Value)
    (hp : p.TypesInRange) (hn : ∀ t ∈ p.types, t.FitNames may)
    (hfits : ∀ f ∈ p.functions, f.Fits may p) (hv : ∀ f ∈ p.functions, f.validate = .ok ()) :
    Safe may (runRules p rules tags) := by
  unfold runRules
  refine Yields.bind (Yields.mapM fun f hf =>
    FunctionReport.ofFunction_yields hrules hp hn (hfits f hf) (hv f hf)) fun reports hreports => ?_
  refine (programFindings_safe hp hn hrules tags fun r hr => ?_).bind fun _ _ => trivial
  obtain ⟨answer, hanswer, rfl⟩ := List.mem_map.mp hr
  exact hreports answer hanswer

/-- The faults that names which are no texts lead to. -/
def NameFault (e : Fault) : Prop := e = .shape ∨ e = .notText

private theorem fit_nameFault (v : Value) : Fit NameFault v := Or.inr ⟨Or.inl rfl, Or.inr rfl⟩

/-- The default rules run on every loaded program whose names are texts, and skip just the functions
that have no body. On any loaded program, only faults of names end the run. -/
theorem lint_of_load {text : String} (h : Document.load text = .ok p) :
    (p.NamesAreTexts → ∃ result notes, lint .default {} p = .ok (result, notes) ∧
      result.skipped = (p.functions.filter fun f => !f.modeled).map (·.name)) ∧
    ∀ e, lint .default {} p = .error e → NameFault e := by
  obtain ⟨htypes, hfunctions⟩ := Document.load_grounded h
  have hrules : ∀ r ∈ (({} : Config).apply .default).1.enabled, r.Plain := by
    rw [enabled_default]
    exact fun r hr => Rule.plain_of_mem_defaults hr
  constructor
  · intro hnames
    obtain ⟨result, notes, hrun, hskipped⟩ :=
      runRules_of_wellFormed (hnames.wellFormed h) hrules ({} : Config).tags
    refine ⟨result, _, bind_eq_ok.mpr ⟨_, hrun, rfl⟩, hskipped.trans (congrArg _ ?_)⟩
    refine List.filter_congr fun f hf => ?_
    simp [Function.isSkipped, (hfunctions f hf).1, Except.isOk, Except.toBool]
  · intro e he
    -- Any name is fit if the faults that names lead to may occur.
    have hfits : ∀ f ∈ p.functions, f.Fits NameFault p := by
      intro f hf
      obtain ⟨_, hexprs, hparams, hconstruct⟩ := hfunctions f hf
      exact ⟨fun _ _ n _ => fit_nameFault n, hexprs, fun _ _ => fit_nameFault _, hparams,
        fun e he hkind => Or.inl (hconstruct e he hkind), fun _ _ _ _ _ _ => Or.inr (Or.inl rfl)⟩
    have hn : ∀ t ∈ p.types, t.FitNames NameFault := fun t _ =>
      ⟨fit_nameFault _, fun _ _ => fit_nameFault _, fun _ _ => fit_nameFault _,
        fun _ _ _ _ => fit_nameFault _⟩
    have hsafe : Safe NameFault (lint .default {} p) :=
      (runRules_safe hrules ({} : Config).tags htypes hn hfits fun f hf => (hfunctions f hf).1).bind
        fun _ _ => trivial
    rw [he] at hsafe
    exact hsafe

/-- A document about an account in a record of accounts. -/
def accountText : String :=
  "(program (type AccountInfo opaque (path \"solana_program::account_info::AccountInfo\"))
    (function external (unmodeled))
    (function f (params (accts _)) (block 0 (succ) (eval (field accts vault AccountInfo)))))"

def accountProgram : Program :=
  { types := [
      { id := 0, path := .text "solana_program::account_info::AccountInfo", kind := .hidden }]
    functions := [
      { name := "external", modeled := false, blocks := [{ id := 0 }] },
      { name := "f"
        params := [{ name := .text "accts" }]
        exprs := [
          { id := 0, kind := .localVar, localName := "accts" },
          { id := 1, kind := .field, name := some (.text "vault"), receiver := some 0
            type := some (.index 0) }]
        blocks := [{ id := 0, stmts := [{ kind := .eval, value := 1 }] }] }] }

theorem lint_of_load_account : Document.load accountText = .ok accountProgram ∧
    ∃ result notes, lint .default {} accountProgram = .ok (result, notes) ∧
      result.skipped = ["external"] := by
  have hload : Document.load accountText = .ok accountProgram := ok_of_toOption (by decide +kernel)
  refine ⟨hload, (lint_of_load hload).1 ?_⟩
  constructor <;> simp [accountProgram]

/-- A document about an account in a tuple of accounts. -/
def tupleText : String :=
  "(program (type AccountInfo opaque (path \"solana_program::account_info::AccountInfo\"))
    (function f (params (accts _)) (block 0 (succ) (eval (field accts 1 AccountInfo)))))"

/-- A document may read a field by its number. A finding about such a field cannot be put in words,
and the run ends without a result. -/
theorem lint_fails_tuple : ∃ p, Document.load tupleText = .ok p ∧
    ∀ result, lint .default {} p ≠ .ok result := by
  have hfails : (Document.load tupleText).toOption.any (fun p => !(lint .default {} p).isOk) = true := by
    decide +kernel
  obtain ⟨p, hp, hlint⟩ := (Option.any_eq_true _ _).mp hfails
  refine ⟨p, ok_of_toOption hp, fun result hresult => ?_⟩
  rw [hresult] at hlint
  cases hlint

end AccountLint

import AccountLint.Proofs.Flow.Dominance
import AccountLint.Proofs.Program.Validation
import AccountLint.Proofs.Total.Program

/-! A run on a well-formed program ends with a result, and skips just the functions without a body
and those that are malformed. -/
namespace AccountLint

/-- What makes a program well formed: the ids of types are their positions, all types that are
mentioned are in the table, every constructor has an operand for each of its fields, names are
texts, and what statements assign to are expressions, as it is where every `let` has a text for its
name. That the bodies of functions pass validation is not asked: a function that fails it is
skipped. -/
structure Program.WellFormed (p : Program) : Prop where
  typeId : ∀ {i : Nat} {t : TypeDecl}, p.types[i]? = some t → t.id = i
  fieldType : ∀ t ∈ p.types, ∀ d ∈ t.fields, p.InTable d.type
  argType : ∀ t ∈ p.types, ∀ a ∈ t.args, p.InTable a
  paramType : ∀ f ∈ p.functions, ∀ q ∈ f.params, p.InTable q.type
  exprType : ∀ f ∈ p.functions, ∀ e ∈ f.exprs, p.InTable e.type
  construct : ∀ f ∈ p.functions, ∀ e ∈ f.exprs, e.kind = .construct →
    e.fieldNames.length ≤ e.operands.length
  typePath : ∀ t ∈ p.types, ∃ s, t.path = .text s
  trait : ∀ t ∈ p.types, ∀ tr ∈ t.traits, ∃ s, tr = .text s
  fieldName : ∀ t ∈ p.types, ∀ d ∈ t.fields, ∃ s, d.name = .text s
  distinctFrom : ∀ t ∈ p.types, ∀ d ∈ t.fields, ∀ n ∈ d.distinctFrom, ∃ s, n = .text s
  paramName : ∀ f ∈ p.functions, ∀ q ∈ f.params, ∃ s, q.name = .text s
  exprName : ∀ f ∈ p.functions, ∀ e ∈ f.exprs, ∀ n, e.name = some n → ∃ s, n = .text s
  target : ∀ f ∈ p.functions, ∀ b ∈ f.blocks, ∀ s ∈ b.stmts, ∀ t, s.target = some t →
    ∃ i, t = .expr i

namespace Program.WellFormed

variable {p : Program} {may : Fault → Prop}

theorem typesInRange (hp : p.WellFormed) : p.TypesInRange := ⟨hp.typeId, hp.fieldType, hp.argType⟩

private theorem fitNames (hp : p.WellFormed) : ∀ t ∈ p.types, t.FitNames may := by
  intro t ht
  exact ⟨Or.inl (hp.typePath t ht), fun tr htr => Or.inl (hp.trait t ht tr htr),
    fun d hd => Or.inl (hp.fieldName t ht d hd),
    fun d hd n hn => Or.inl (hp.distinctFrom t ht d hd n hn)⟩

private theorem fits (hp : p.WellFormed) {f : Function} (hf : f ∈ p.functions) : f.Fits may p where
  name := fun e he n hn => Or.inl (hp.exprName f hf e he n hn)
  type := hp.exprType f hf
  paramName := fun q hq => Or.inl (hp.paramName f hf q hq)
  paramType := hp.paramType f hf
  construct := fun e he hk => Or.inl (hp.construct f hf e he hk)
  target := fun b hb s hs t ht => Or.inl (hp.target f hf b hb s hs t ht)

/-- In the facts of a function of a well-formed program nothing can go wrong. -/
theorem facts_fit (hp : p.WellFormed) {f : Function} (hf : f ∈ p.functions) {facts : Facts}
    (h : Facts.build p f = .ok facts) : facts.Fits fun _ => False := by
  have hbuild : Yields (fun _ => False) (fun facts => facts.Fits fun _ => False) (Facts.build p f) :=
    (Facts.build_yields hp.typesInRange hp.fitNames (hp.fits hf) (Facts.build_eq_ok h).1).mono
      fun _ hfits => hfits.1
  rw [h] at hbuild
  exact hbuild

end Program.WellFormed

/-- A function that is not accepted is rejected as a model. -/
theorem Function.validate_rejects {f : Function}
    (h : ∀ b ∈ f.blocks, ∀ s ∈ b.stmts, ∀ t, s.target = some t → ∃ i, t = .expr i) :
    Safe (fun e => e.rejectsModel = true) f.validate := by
  refine (Yields.weaken f.validate_blames fun e he => he.resolve_right ?_).safe
  rintro ⟨⟨b, hb, s, hs, t, ht, v, hv, -⟩, -⟩
  obtain ⟨i, hi⟩ := h b hb s hs t ht
  cases hv.symm.trans hi

/-- A function that a run skips: it has no body, or a malformed one. -/
def Function.isSkipped (f : Function) : Bool := !f.modeled || !f.validate.isOk

private theorem FunctionReport.ofFunction_of_wellFormed {p : Program} (hp : p.WellFormed)
    {rules : List Rule} (hrules : ∀ r ∈ rules, r.Plain) {f : Function} (hf : f ∈ p.functions) :
    ∃ answer, ofFunction p rules f = .ok answer ∧ answer.1.function = f.name ∧
      answer.1.skipped = f.isSkipped ∧ (answer.1.skipped = false → answer.1.types.InTable p) := by
  unfold ofFunction Function.isSkipped
  cases hmodeled : f.modeled with
  | false => exact ⟨_, rfl, rfl, rfl, fun h => (by cases h)⟩
  | true =>
    cases hv : f.validate with
    | ok u =>
      have hbody : Yields (fun _ => False) (Fits p f.name) (ofBody p rules f) :=
        ofBody_yields hrules hp.typesInRange hp.fitNames (hp.fits hf) hv
      obtain ⟨report, hreport, hfits⟩ := Yields.ok_iff.mp hbody
      rw [hreport]
      exact ⟨_, rfl, hfits.function, hfits.skipped, fun _ => hfits.types⟩
    | error e =>
      have hrejects : e.rejectsModel = true := by
        have := Function.validate_rejects (hp.target f hf)
        rw [hv] at this
        exact this
      have hbody : ofBody p rules f = .error e := by
        unfold ofBody Facts.build
        rw [hv]
        rfl
      rw [hbody]
      simp only [hrejects, Bool.not_true, Bool.false_eq_true, if_false, if_true]
      exact ⟨_, rfl, rfl, rfl, fun h => (by cases h)⟩

theorem enabled_default : (({} : Config).apply .default).1.enabled = Rule.defaults := rfl

/-- Rules with plain templates run on every well-formed program. -/
theorem runRules_of_wellFormed {p : Program} (hp : p.WellFormed) {rules : List Rule}
    (hrules : ∀ r ∈ rules, r.Plain) (tags : List Value) :
    ∃ result notes, runRules p rules tags = .ok (result, notes) ∧
      result.skipped = (p.functions.filter Function.isSkipped).map (·.name) := by
  obtain ⟨answers, hanswers, hall⟩ := exists_mapM_eq_ok fun f hf =>
    FunctionReport.ofFunction_of_wellFormed hp hrules hf
  have htypes : ∀ r ∈ answers.map (·.1), r.skipped = false → r.types.InTable p := by
    intro r hr hskip
    obtain ⟨answer, hanswer, rfl⟩ := List.mem_map.mp hr
    obtain ⟨f, _, _, _, hin⟩ := exists_of_forall₂_right hall hanswer
    exact hin hskip
  have hsafe : Safe (fun _ => False) (programFindings p rules tags (answers.map (·.1))) :=
    programFindings_safe hp.typesInRange hp.fitNames hrules tags htypes
  obtain ⟨ds, hds, _⟩ := Yields.ok_iff.mp hsafe
  refine ⟨_, _, bind_eq_ok.mpr ⟨answers, hanswers, bind_eq_ok.mpr ⟨ds, hds, rfl⟩⟩, ?_⟩
  have hfilter := List.rel_filter (p := Function.isSkipped) (q := fun a => a.1.skipped)
    (fun f a h => by beta_reduce; rw [h.2.1]) hall
  exact (map_eq_of_forall₂ hfilter fun f _ a h => h.1.symm).symm

/-- The default rules run on every well-formed program, and skip just the functions that have no
body or a malformed one, in the order of the program. -/
theorem lint_of_wellFormed {p : Program} (hp : p.WellFormed) :
    (∃ result notes, lint .default {} p = .ok (result, notes) ∧
      result.skipped = (p.functions.filter fun f => !f.modeled || !f.validate.isOk).map (·.name)) ∧
    ∀ f ∈ p.functions, f.validate = .ok () →
      ∀ b, f.graph.isReachable b = true → (f.graph.idom? b).isSome = true := by
  constructor
  · have hrules : ∀ r ∈ (({} : Config).apply .default).1.enabled, r.Plain := by
      rw [enabled_default]
      exact fun r hr => Rule.plain_of_mem_defaults hr
    obtain ⟨result, notes, hrun, hskipped⟩ := runRules_of_wellFormed hp hrules ({} : Config).tags
    exact ⟨result, _, bind_eq_ok.mpr ⟨_, hrun, rfl⟩, hskipped⟩
  · intro f _ hv b hb
    have hne : f.graph.edges ≠ [] := by
      intro he
      unfold Graph.isReachable Graph.reachable at hb
      simp [he] at hb
    exact Graph.idom?_isSome (Function.Valid.of_validate hv).nodup_ids hne hb

/-- A program whose type is its own argument, with a function that has no body, one without its
entry, and one that assigns two variables to each other in a loop. -/
def Program.cyclic : Program :=
  { types := [
      { id := 0, path := .text "Node", kind := .struct, args := [some (.index 0)],
        fields := [{ name := .text "next", type := some (.index 0) }] }]
    functions := [
      { name := "external", modeled := false },
      { name := "broken", blocks := [{ id := 0 }], entry := 1 },
      { name := "swap"
        params := [{ name := .text "a", type := some (.index 0) }]
        exprs := [
          { id := 0, kind := .localVar, localName := "a", type := some (.index 0) },
          { id := 1, kind := .localVar, localName := "b", type := some (.index 0) },
          { id := 2, kind := .field, name := some (.text "next"), receiver := some 1 }]
        blocks := [
          { id := 0, successors := [1, 0], stmts := [
            { kind := .assign, target := some (.expr 0), value := 2 },
            { kind := .assign, target := some (.expr 1), value := 0 }] },
          { id := 1, successors := [0] }] }] }

private theorem Program.wellFormed_cyclic : Program.cyclic.WellFormed := by
  have hself : Program.cyclic.InTable (some (.index 0)) := by
    intro t ht
    exact ⟨0, (Option.some.inj ht).symm, by decide, by decide⟩
  constructor
  case typeId =>
    intro i t h
    match i with
    | 0 =>
      rw [← Option.some.inj h]
      rfl
    | i + 1 => cases h
  case fieldType => simpa [Program.cyclic] using hself
  case argType => simpa [Program.cyclic] using hself
  case paramType => simpa [Program.cyclic] using hself
  case exprType => simpa [Program.cyclic, Program.inTable_none] using hself
  all_goals simp [Program.cyclic]

theorem lint_of_wellFormed_cyclic :
    Program.cyclic.WellFormed ∧ ∃ result notes, lint .default {} .cyclic = .ok (result, notes) ∧
      result.skipped = ["external", "broken"] :=
  ⟨Program.wellFormed_cyclic, (lint_of_wellFormed Program.wellFormed_cyclic).1⟩

end AccountLint

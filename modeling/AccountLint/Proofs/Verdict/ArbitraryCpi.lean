import AccountLint.Proofs.Flow.Dominance
import AccountLint.Proofs.Guard.KeyChecks
import AccountLint.Proofs.Sink.Operands
import AccountLint.Proofs.Verdict.Function

/-! Invocations of programs that nobody checked: the findings of the rule are the invocations that a
path leads to along which the program is never checked. -/
namespace AccountLint

/-- The invocation of a program: where it is, and the expression for the id of the program. -/
structure Invocation where
  block : Int
  expr : Expr
  program : Int

/-- An expression invokes a program: it is an instruction with the id of the program, or it enters
the context of the invocation. -/
def Expr.InvokesProgram (program : Program) (e : Expr) (operand : Int) : Prop :=
  SinkPattern.Sets { kind := .constructField, targets := [Paths.instruction], field := "program_id" }
      program e operand ∨
    SinkPattern.Passes
      { kind := .callArg, targets := [Paths.cpiContextNew, Paths.cpiContextNewWithSigner] } e operand

namespace Facts

/-- An invocation takes place in a function, and the program does not come from a type that vouches
for it. -/
structure Invokes (f : Facts) (v : Invocation) : Prop where
  expr : v.expr ∈ f.function.exprs
  block : f.function.Evaluates v.block v.expr.id
  program : v.expr.InvokesProgram f.program v.program
  unvouched : f.derivesFrom TypeFact.validatesProgramId v.program = .ok false

/-- A block is where the program of an invocation is checked: it compares the place of the program
or the key of it, or it is the entry and the place is declared with an address. For a program
without a place any comparison will do, and any use of a field that is declared with an address. -/
def ChecksProgram (f : Facts) (v : Invocation) (b : Int) : Prop :=
  f.ChecksKeys ["address"] (fun q => f.pathOf (some v.program) = .ok (some q)) b

/-- Some path leads to an invocation along which the program is not checked. -/
def Exposes (f : Facts) (v : Invocation) : Prop :=
  ∃ visited, f.function.graph.Path v.block visited ∧ ∀ c ∈ visited, ¬f.ChecksProgram v c

end Facts

structure Invocation.Reported (f : Function) (v : Invocation) (d : Diagnostic) : Prop where
  category : d.category = "arbitrary-cpi"
  errorId : d.errorId = "arbitraryCpi"
  message : d.message = "program_id may not be checked"
  function : d.function = f.name
  location : d.location = v.expr.location
  block : ∃ texts count, d.evidence = .sink v.block texts count

namespace Rule

private theorem arbitraryCpi_exemptsExpr (f : Facts) (i : Int) :
    arbitraryCpi.exemptsExpr f i = f.derivesFrom TypeFact.validatesProgramId i := by
  unfold exemptsExpr arbitraryCpi
  simp only [anyM, beq_self_eq_true, if_true]
  cases f.derivesFrom TypeFact.validatesProgramId i with
  | error e => rfl
  | ok b => cases b <;> rfl

/-- The sinks of the rule are the invocations, one each. -/
theorem arbitraryCpi_sinksIn {f : Facts} (hnodup : f.located.Nodup)
    (hloc : ∀ b e, (b, e) ∈ f.located ↔ e ∈ f.function.exprs ∧ f.function.Evaluates b e.id)
    {sinks : List Sink} (h : arbitraryCpi.sinksIn f = .ok sinks) :
    ∃ vs : List Invocation, vs.Nodup ∧ (∀ v, v ∈ vs ↔ f.Invokes v) ∧
      List.Forall₂ (fun v s => SinkPattern.operandSink f .arbitraryCpi v.block v.expr v.program = .ok s)
        vs sinks := by
  obtain ⟨zss, hz, rfl⟩ := concatM_eq_ok.mp h
  obtain ⟨constructs, _, hconstructs, hrest, rfl⟩ := List.forall₂_cons_left_iff.mp hz
  obtain ⟨calls, _, hcalls, hend, rfl⟩ := List.forall₂_cons_left_iff.mp hrest
  obtain rfl := List.forall₂_nil_left_iff.mp hend
  obtain ⟨sets, hsets, hsub, hmem⟩ :=
    keep?_operands (fun b e z => SinkPattern.constructSink_picks) hconstructs
  obtain ⟨passes, hpasses, hsub', hmem'⟩ :=
    keep?_operands (fun b e z => SinkPattern.callArgSink_picks rfl) hcalls
  have hdisjoint : sets.Disjoint passes := by
    intro t ht ht'
    have hk := ((hmem t).mp ht).2.1.kind
    rw [((hmem' t).mp ht').2.1.kind] at hk
    cases hk
  have hinj : Function.Injective fun t : (Int × Expr) × Int => Invocation.mk t.1.1 t.1.2 t.2 := by
    intro t u htu
    obtain ⟨hb, he, ho⟩ := Invocation.mk.inj htu
    exact Prod.ext (Prod.ext hb he) ho
  refine ⟨(sets ++ passes).map fun t => ⟨t.1.1, t.1.2, t.2⟩, ?_, ?_, ?_⟩
  · exact (List.nodup_append'.mpr ⟨(hnodup.sublist hsub).of_map _, (hnodup.sublist hsub').of_map _,
      hdisjoint⟩).map hinj
  · intro v
    have hv : v ∈ (sets ++ passes).map (fun t => Invocation.mk t.1.1 t.1.2 t.2) ↔
        ((v.block, v.expr), v.program) ∈ sets ++ passes :=
      List.mem_map_of_injective hinj (a := ((v.block, v.expr), v.program))
    rw [hv, List.mem_append, hmem, hmem', hloc, arbitraryCpi_exemptsExpr]
    constructor
    · intro h
      rcases h with ⟨⟨he, hb⟩, ho, hu⟩ | ⟨⟨he, hb⟩, ho, hu⟩
      · exact ⟨he, hb, Or.inl ho, hu⟩
      · exact ⟨he, hb, Or.inr ho, hu⟩
    · intro h
      rcases h.program with ho | ho
      · exact Or.inl ⟨⟨h.expr, h.block⟩, ho, h.unvouched⟩
      · exact Or.inr ⟨⟨h.expr, h.block⟩, ho, h.unvouched⟩
  · rw [List.forall₂_map_left_iff, List.flatten_cons, List.flatten_cons, List.flatten_nil,
      List.append_nil]
    exact List.rel_append hsets hpasses

/-- An invocation is covered if its program is checked on every path to it. -/
theorem arbitraryCpi_isCovered_iff {f : Facts} (hf : f.function.Valid)
    (hloc : ∀ b e, (b, e) ∈ f.located ↔ e ∈ f.function.exprs ∧ f.function.Evaluates b e.id)
    {guards : List Guard} (hg : arbitraryCpi.relevantGuards f = .ok guards) {v : Invocation}
    (hv : f.Invokes v) {s : Sink}
    (hs : SinkPattern.operandSink f .arbitraryCpi v.block v.expr v.program = .ok s) :
    arbitraryCpi.isCovered f guards s = true ↔ ¬f.Exposes v := by
  obtain ⟨hblock, _, _, huncond, _, hpaths⟩ := SinkPattern.operandSink_eq_ok hs
  have hplaces : (· ∈ s.paths) = fun q => f.pathOf (some v.program) = .ok (some q) :=
    funext fun q => propext (hpaths q)
  have hne : f.function.graph.edges ≠ [] := by
    obtain ⟨stmt, hstmt, _⟩ := hv.block
    obtain ⟨k, hk, _⟩ := Function.mem_roots_iff.mp hstmt
    intro he
    have := List.map_eq_nil_iff.mp he
    rw [this] at hk
    cases hk
  have hgroup : ∀ c, c ∈ (guards.filter (·.covers s.paths)).map (·.block) ↔ f.ChecksProgram v c := by
    intro c
    have hcover : (∃ g ∈ guards, g.covers s.paths = true ∧ g.block = c) ↔
        f.ChecksKeys ["address"] (· ∈ s.paths) c := exists_covering_iff rfl hloc hg
    rw [hplaces] at hcover
    unfold Facts.ChecksProgram
    rw [← hcover, List.mem_map]
    constructor
    · intro h
      obtain ⟨g, hg, hb⟩ := h
      obtain ⟨hg, hcov⟩ := List.mem_filter.mp hg
      exact ⟨g, hg, hcov, hb⟩
    · intro h
      obtain ⟨g, hg, hcov, hb⟩ := h
      exact ⟨g, List.mem_filter.mpr ⟨hg, hcov⟩, hb⟩
  unfold isCovered
  rw [huncond, hblock]
  refine (Graph.setDominates_eq_true_iff hf.nodup_ids hne).trans ?_
  unfold Graph.AllPathsMeet Facts.Exposes
  simp only [hgroup]
  push Not
  rfl

/-- What the finding for an invocation says. -/
theorem arbitraryCpi_finding {f : Facts} {guards : List Guard} {v : Invocation} {s : Sink}
    {d : Diagnostic}
    (hs : SinkPattern.operandSink f .arbitraryCpi v.block v.expr v.program = .ok s)
    (h : arbitraryCpi.finding f guards s = .ok d) : v.Reported f.function d := by
  obtain ⟨hblock, hlocation, _, _, hmessage, _⟩ := SinkPattern.operandSink_eq_ok hs
  obtain ⟨hcat, hid, _, _, hfun, hloc, _, ⟨fields, _, hm, _⟩, texts, _, hev⟩ := finding_eq_ok h
  rw [hmessage] at hm
  refine ⟨hcat, hid, ?_, hfun, hloc.trans hlocation, texts, guards.length, ?_⟩
  · exact (Except.ok.inj hm).symm
  · rw [hev, hblock]

end Rule

open Classical in
/-- Where no expression is evaluated by two blocks, the findings of the rule are the invocations
that are exposed, one for each. -/
theorem FunctionReport.arbitraryCpi_findings_iff_exposed {p : Program} {rules : List Rule}
    {f : Function} {report : FunctionReport} (h : ofBody p rules f = .ok report)
    (hrule : rules.filter (·.category == .arbitraryCpi) = [Rule.arbitraryCpi])
    (honce : ∀ a b i, f.Evaluates a i → f.Evaluates b i → a = b) :
    ∃ facts, Facts.build p f = .ok facts ∧ ∃ vs : List Invocation, vs.Nodup ∧
      (∀ v, v ∈ vs ↔ facts.Invokes v) ∧
      List.Forall₂ (Invocation.Reported f) (vs.filter fun v => facts.Exposes v)
        (report.diagnostics.filter (·.category == "arbitrary-cpi")) := by
  obtain ⟨facts, hfacts, dss, hdss, hdiag⟩ := ofBody_category h .arbitraryCpi
  refine ⟨facts, hfacts, ?_⟩
  rw [hrule] at hdss
  obtain ⟨ds, _, hds, hend, rfl⟩ := List.forall₂_cons_left_iff.mp hdss
  obtain rfl := List.forall₂_nil_left_iff.mp hend
  obtain ⟨hvalidate, _, _, _, _, _, hfun⟩ := Facts.build_eq_ok hfacts
  have hvalid : facts.function.Valid := by
    rw [hfun]
    exact .of_validate hvalidate
  obtain ⟨hnodup, hlocated⟩ := Facts.located_spec hfacts
  have hloc : ∀ b e, (b, e) ∈ facts.located ↔
      e ∈ facts.function.exprs ∧ facts.function.Evaluates b e.id := by
    intro b e
    rw [hlocated, hfun]
    unfold Function.FirstEvaluates
    refine ⟨fun h => ⟨h.1, h.2.1⟩, fun h => ⟨h.1, h.2, fun c hc => ?_⟩⟩
    exact Int.le_of_eq (honce b c e.id h.2 hc)
  obtain ⟨sinks, hsinks, hfind⟩ := bind_eq_ok.mp hds
  obtain ⟨vs, hvs, hmem, hall⟩ := Rule.arbitraryCpi_sinksIn hnodup hloc hsinks
  obtain ⟨guards, hguards, hfind⟩ := Rule.findings_eq_ok hfind
  refine ⟨vs, hvs, hmem, ?_⟩
  have hexposed : List.Forall₂ (fun v s => v ∈ vs ∧
      SinkPattern.operandSink facts .arbitraryCpi v.block v.expr v.program = .ok s)
      (vs.filter fun v => facts.Exposes v)
      (sinks.filter fun s => !Rule.arbitraryCpi.isCovered facts guards s) := by
    rcases hguards with rfl | hguards
    · cases hall
      exact .nil
    · refine List.rel_filter ?_ (forall₂_with_mem hall)
      intro v s hvs
      have hcov := Rule.arbitraryCpi_isCovered_iff hvalid hloc hguards ((hmem v).mp hvs.1) hvs.2
      beta_reduce
      rw [decide_eq_true_iff, Bool.not_eq_true', ← Bool.not_eq_true, hcov, not_not]
  have hsame : report.diagnostics.filter (·.category == "arbitrary-cpi") = ds := by
    rw [show "arbitrary-cpi" = Category.arbitraryCpi.id from rfl, hdiag]
    simp
  rw [hsame]
  refine (forall₂_comp hexposed hfind).imp ?_
  intro v d hvd
  obtain ⟨s, ⟨_, hs⟩, hd⟩ := hvd
  rw [← hfun]
  exact Rule.arbitraryCpi_finding hs hd

/-- A function that compares the program on one of two branches only, and invokes it on that branch
and where the branches meet. -/
def Function.branchingInvocation : Function :=
  { name := "relay"
    params := [{ name := .text "program", type := some (.index 1) }]
    exprs := [
      { id := 0, kind := .localVar, localName := "program", type := some (.index 1) },
      { id := 1, kind := .field, name := some (.text "key"), receiver := some 0 },
      { id := 2, kind := .localVar, localName := "expected" },
      { id := 3, kind := .compare, name := some (.text "=="), operands := [1, 2] },
      { id := 4, kind := .localVar, localName := "program", type := some (.index 1) },
      { id := 5, kind := .construct, type := some (.index 0), operands := [4],
        fieldNames := ["program_id"], location := { line := 5 } },
      { id := 6, kind := .localVar, localName := "program", type := some (.index 1) },
      { id := 7, kind := .construct, type := some (.index 0), operands := [6],
        fieldNames := ["program_id"], location := { line := 7 } }]
    blocks := [
      { id := 0, successors := [1, 2] },
      { id := 1, successors := [3],
        stmts := [{ kind := .eval, value := 3 }, { kind := .eval, value := 5 }] },
      { id := 2, successors := [3] },
      { id := 3, stmts := [{ kind := .eval, value := 7 }] }] }

def Program.branchingInvocation : Program :=
  { types := [
      { id := 0, path := .text "solana_program::instruction::Instruction", kind := .struct },
      { id := 1, path := .text "solana_program::account_info::AccountInfo", kind := .struct }]
    functions := [.branchingInvocation] }

def Facts.branchingInvocation : Facts :=
  { program := .branchingInvocation
    function := .branchingInvocation
    aliases := { function := .branchingInvocation }
    located := [1, 1, 1, 1, 1, 1, 3, 3].zip Function.branchingInvocation.exprs }

theorem FunctionReport.arbitraryCpi_findings_iff_exposed_branching :
    ∃ report, ofBody .branchingInvocation [Rule.arbitraryCpi] .branchingInvocation = .ok report ∧
      report.diagnostics.map (·.location.line) = [7] ∧
      ∃ facts, Facts.build .branchingInvocation .branchingInvocation = .ok facts ∧
        ∃ v, v.block = 3 ∧ ∀ w, facts.Invokes w ∧ facts.Exposes w ↔ w = v := by
  have haliases : Aliases.of .branchingInvocation = .ok { function := .branchingInvocation } := by
    have hparts : (Aliases.of .branchingInvocation).toOption.map
        (fun a => (a.function, a.sources, a.definitions)) = some (.branchingInvocation, [], []) := by
      decide +kernel
    obtain ⟨⟨g, sources, definitions⟩, ha, heq⟩ := Option.map_eq_some_iff.mp hparts
    cases heq
    exact ok_of_toOption ha
  have hfacts : Facts.build .branchingInvocation .branchingInvocation = .ok .branchingInvocation :=
    bind_eq_ok.mpr ⟨(), rfl, bind_eq_ok.mpr ⟨_, ok_of_toOption (Option.get_mem (by decide +kernel)),
      bind_eq_ok.mpr ⟨Facts.branchingInvocation.located, ok_of_toOption (by decide +kernel),
        bind_eq_ok.mpr ⟨_, haliases, rfl⟩⟩⟩⟩
  let sink (block line operand : Int) : Sink :=
    { category := .arbitraryCpi, block := block, paths := [.ofLocal "program"],
      location := { line := line }, expr := some operand, details := [("path", "program")] }
  let guard : Guard :=
    { category := .arbitraryCpi, kind := .comparison, block := 1,
      paths := [⟨.text "program", [.text "key"]⟩, .ofLocal "program", .ofLocal "expected"] }
  have hsinks : Rule.arbitraryCpi.sinksIn .branchingInvocation = .ok [sink 1 5 4, sink 3 7 6] :=
    ok_of_toOption (by decide +kernel)
  have hguards : Rule.arbitraryCpi.relevantGuards .branchingInvocation = .ok [guard] :=
    ok_of_toOption (by decide +kernel)
  have hcovered : Rule.arbitraryCpi.isCovered .branchingInvocation [guard] (sink 1 5 4) = true := by
    simp [Rule.isCovered, Rule.arbitraryCpi, Graph.setDominates, Guard.covers, AccessPath.same,
      sink, guard]
  have hexposed : Rule.arbitraryCpi.isCovered .branchingInvocation [guard] (sink 3 7 6) = false := by
    simp [Rule.isCovered, Rule.arbitraryCpi, Guard.covers, AccessPath.same, sink, guard,
      Facts.branchingInvocation, Function.branchingInvocation, Function.graph, Graph.setDominates,
      Graph.isReachable, Graph.reachable, Graph.reachableWithout, Graph.targets, Graph.successors,
      Graph.successors?, Flow.closure, List.lookup_cons]
  obtain ⟨d, hd⟩ : ∃ d, Rule.arbitraryCpi.finding .branchingInvocation [guard] (sink 3 7 6) = .ok d :=
    ⟨_, ok_of_toOption (Option.get_mem (by decide +kernel))⟩
  obtain ⟨hcat, _, _, _, _, hline, _, _, texts, _, hev⟩ := Rule.finding_eq_ok hd
  have hreport : ofBody .branchingInvocation [Rule.arbitraryCpi] .branchingInvocation =
      .ok { function := "relay", diagnostics := [d] } := by
    refine bind_eq_ok.mpr ⟨_, hfacts, ?_⟩
    rw [List.foldlM_cons]
    refine bind_eq_ok.mpr ⟨_, ?_, rfl⟩
    refine bind_eq_ok.mpr ⟨_, hsinks, bind_eq_ok.mpr ⟨[d], ?_, rfl⟩⟩
    refine bind_eq_ok.mpr ⟨[guard], hguards, ?_⟩
    simp only [collectM, hcovered, hexposed, hd]
    rfl
  have honce : ∀ a b i, Function.branchingInvocation.Evaluates a i →
      Function.branchingInvocation.Evaluates b i → a = b := by
    intro a b i ha hb
    refine Facts.evaluates_once_of_owner (.of_validate rfl) (fun i => if i ≤ 5 then 1 else 3) ?_ ha hb
    intro r hr
    simp only [Function.roots, Function.branchingInvocation, List.flatMap_cons, List.map_cons,
      List.map_nil, List.flatMap_nil, List.append_nil, List.nil_append, List.cons_append,
      List.mem_cons, List.not_mem_nil, or_false] at hr
    rcases hr with rfl | rfl | rfl
    · exact ⟨_, rfl, by decide⟩
    · exact ⟨_, rfl, by decide⟩
    · exact ⟨_, rfl, by decide⟩
  refine ⟨_, hreport, by simp [hline, sink], ?_⟩
  obtain ⟨facts, hb, vs, _, hmem, hall⟩ :=
    arbitraryCpi_findings_iff_exposed hreport rfl honce
  refine ⟨facts, hb, ?_⟩
  rw [List.filter_cons_of_pos (by rw [hcat]; rfl), List.filter_nil] at hall
  obtain ⟨v, _, hv, hend, hvs⟩ := List.forall₂_cons_right_iff.mp hall
  obtain rfl := List.forall₂_nil_right_iff.mp hend
  refine ⟨v, ?_, ?_⟩
  · obtain ⟨_, _, hblock⟩ := hv.block
    rw [hev] at hblock
    exact (Evidence.sink.inj hblock).1.symm
  · intro w
    rw [← hmem, ← List.mem_singleton, ← hvs, List.mem_filter]
    simp

/-- A function that compares two variables and invokes a program whose id it loads. -/
def Function.loadedInvocation : Function :=
  { name := "relay"
    exprs := [
      { id := 0, kind := .localVar, localName := "a" },
      { id := 1, kind := .localVar, localName := "b" },
      { id := 2, kind := .compare, name := some (.text "=="), operands := [0, 1] },
      { id := 3, kind := .call, name := some (.text "crate::load_program") },
      { id := 4, kind := .construct, type := some (.index 0), operands := [3],
        fieldNames := ["program_id"] }]
    blocks := [{ id := 0, stmts := [{ kind := .eval, value := 2 }, { kind := .eval, value := 4 }] }] }

def Program.loadedInvocation : Program :=
  { types := [{ id := 0, path := .text "solana_program::instruction::Instruction", kind := .struct }]
    functions := [.loadedInvocation] }

def Facts.loadedInvocation : Facts :=
  { program := .loadedInvocation
    function := .loadedInvocation
    aliases := { function := .loadedInvocation }
    located := Function.loadedInvocation.exprs.map fun e => (0, e) }

/-- An invocation whose program has no place. Nothing that is compared is the program or its key, and
yet there is no finding, because any comparison covers what has no place. -/
theorem FunctionReport.arbitraryCpi_overlooks_loaded :
    ∃ report facts v, ofBody .loadedInvocation [Rule.arbitraryCpi] .loadedInvocation = .ok report ∧
      Facts.build .loadedInvocation .loadedInvocation = .ok facts ∧ facts.Invokes v ∧
      facts.function.graph.Path v.block [v.block] ∧ facts.pathOf (some v.program) = .ok none ∧
      facts.ChecksProgram v v.block ∧ report.diagnostics = [] := by
  have hreport : (ofBody .loadedInvocation [Rule.arbitraryCpi] .loadedInvocation).toOption.map
      (·.diagnostics.length) = some 0 := by decide +kernel
  obtain ⟨report, hreport, hnone⟩ := Option.map_eq_some_iff.mp hreport
  have hfacts : Facts.build .loadedInvocation .loadedInvocation = .ok .loadedInvocation :=
    Facts.build_of_parts rfl (by decide +kernel) (by decide +kernel)
  have hunplaced : Facts.loadedInvocation.pathOf (some 3) = .ok none :=
    ok_of_toOption (by decide +kernel)
  have hroots : ∀ i ∈ [2, 4],
      (0, { kind := .eval, value := i }) ∈ Function.loadedInvocation.roots := by decide
  have hevaluates : ∀ i ∈ [2, 4], Function.loadedInvocation.Evaluates 0 i := fun i hi =>
    ⟨_, hroots i hi, i, List.mem_singleton.mpr rfl, .self i⟩
  obtain ⟨compared, hmem, hid, hcompares⟩ :
      ∃ e, e ∈ Function.loadedInvocation.exprs ∧ e.id = 2 ∧ e.Compares 0 :=
    ⟨_, List.mem_of_getElem? (i := 2) rfl, rfl, .operator rfl rfl (.inl rfl) List.mem_cons_self⟩
  refine ⟨report, _, ⟨0, Function.loadedInvocation.exprs.get ⟨4, by decide⟩, 3⟩,
    ok_of_toOption hreport, hfacts,
    ⟨List.get_mem _ _, hevaluates 4 (by decide), ?_, ok_of_toOption (by decide +kernel)⟩,
    .entry, hunplaced, ?_, List.length_eq_zero_iff.mp hnone⟩
  · exact .inl ⟨rfl, ⟨_, _, rfl, rfl, _, List.mem_singleton.mpr rfl, by decide +kernel⟩, 0, rfl, rfl⟩
  · refine .comparison hmem (hid ▸ hevaluates 2 (by decide)) ⟨0, hcompares⟩ ?_
    -- there is no place that would have to be compared
    intro q hq
    cases hunplaced.symm.trans hq

end AccountLint

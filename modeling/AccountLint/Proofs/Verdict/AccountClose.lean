import AccountLint.Proofs.Guard.DataClearing
import AccountLint.Proofs.Guard.KeyChecks
import AccountLint.Proofs.Sink.Operands
import AccountLint.Proofs.Verdict.Function

/-! Accounts that are closed: the findings of the rule are the statements that close an account
whose data is not cleared anywhere. What is cleared is always named by what comes before the first
`data` of a place, so that an account which itself lies below a `data` is never taken for cleared.
-/
namespace AccountLint

namespace AccessPath

private theorem eq_extend_iff {p account : AccessPath} {step : Value} :
    p = account.extend [step] ↔ p.last? = some step ∧ p.parent? = some account := by
  obtain ⟨root, steps⟩ := p
  obtain ⟨root', steps'⟩ := account
  simp only [extend, last?, parent?, mk.injEq]
  constructor
  · rintro ⟨rfl, rfl⟩
    simp
  · rintro ⟨hlast, hparent⟩
    have hne : steps ≠ [] := by
      rintro rfl
      cases hlast
    rw [if_neg (by simpa using hne)] at hparent
    obtain ⟨rfl, rfl⟩ := mk.inj (Option.some.inj hparent)
    refine ⟨rfl, ?_⟩
    exact (List.dropLast_append_getLast? step hlast).symm

/-- Paths that are the same have the same projections that are texts. -/
theorem text_mem_projections_iff {p q : AccessPath} (h : p.same q = true) (s : String) :
    .text s ∈ p.projections ↔ .text s ∈ q.projections := by
  have hsteps : p.projections.map Value.key = q.projections.map Value.key := by
    rw [← Value.keyList_eq_map, ← Value.keyList_eq_map]
    exact (mk.inj (same_iff.mp h)).2
  have hkey : ∀ steps : List Value, .text s ∈ steps ↔ .text s ∈ steps.map Value.key := by
    intro steps
    simp [Value.key_eq_text_iff]
  rw [hkey p.projections, hkey q.projections, hsteps]

end AccessPath

namespace Facts

/-- A statement closes an account: it sets the lamports to zero. -/
def Closes (f : Facts) (s : Stmt) (account : AccessPath) : Prop :=
  f.StoresZero s (account.extend [.text "lamports"])

/-- The data of an account is cleared somewhere. -/
def ClearsAccount (f : Facts) (account : AccessPath) : Prop :=
  ∃ q b location, q.same account = true ∧ GuardPattern.closing.Clears f q b location

/-- A loop sets places below the `data` of an account to zero. -/
def ClearsInLoop (f : Facts) (account : AccessPath) : Prop :=
  ∃ b s place rest, (b, s) ∈ f.function.roots ∧ b ∈ f.loopBlocks ∧ f.StoresZero s place ∧
    place.same (account.extend (.text "data" :: rest)) = true

/-- A statement closes an account, and nothing clears the data. -/
def LeavesData (f : Facts) (s : Stmt) : Prop :=
  ∃ account, f.Closes s account ∧ ¬f.ClearsAccount account

private theorem Closes.account_eq {f : Facts} {s : Stmt} {account account' : AccessPath}
    (h : f.Closes s account) (h' : f.Closes s account') : account = account' := by
  have hparent := congrArg AccessPath.parent? (StoresZero.place_eq h h')
  rw [(AccessPath.eq_extend_iff.mp rfl).2, (AccessPath.eq_extend_iff.mp rfl).2] at hparent
  exact Option.some.inj hparent

/-- What is cleared is never below a `data`. -/
theorem ClearsAccount.not_mem {f : Facts} {account : AccessPath} (h : f.ClearsAccount account) :
    .text "data" ∉ account.projections := by
  obtain ⟨q, b, location, hsame, hclears⟩ := h
  rw [← AccessPath.text_mem_projections_iff hsame]
  cases hclears with
  | store _ _ _ hin => exact (GuardPattern.inside_closing_iff.mp hin).2
  | call _ _ _ hin => exact (GuardPattern.inside_closing_iff.mp hin).2

/-- A loop that clears the data of an account is found, unless the account itself is below a `data`.
-/
theorem ClearsInLoop.clearsAccount {f : Facts} {account : AccessPath} (h : f.ClearsInLoop account)
    (hdata : .text "data" ∉ account.projections) : f.ClearsAccount account := by
  obtain ⟨b, s, ⟨root, steps⟩, rest, hroot, hloop, hzero, hsame⟩ := h
  obtain ⟨hkey, hsteps⟩ := AccessPath.mk.inj (AccessPath.same_iff.mp hsame)
  simp only [Value.keyList_eq_map, AccessPath.extend, List.map_append, List.map_cons] at hkey hsteps
  -- the steps are those of the account, `data` and those that follow, up to how numbers are spelled
  obtain ⟨before, after, rfl, hbefore, hafter⟩ := List.map_eq_append_iff.mp hsteps
  obtain ⟨step, rest', rfl, hstep, _⟩ := List.map_eq_cons_iff.mp hafter
  obtain rfl := Value.key_eq_text_iff.mp (hstep.trans rfl)
  have hq : (AccessPath.mk root before).same account = true := by
    rw [AccessPath.same_iff, AccessPath.key, AccessPath.key, Value.keyList_eq_map,
      Value.keyList_eq_map, hkey, hbefore]
  refine ⟨⟨root, before⟩, b, s.location, hq, .store hroot hloop hzero ?_⟩
  refine GuardPattern.inside_closing_iff.mpr ⟨⟨rest', rfl⟩, ?_⟩
  exact fun hmem => hdata ((AccessPath.text_mem_projections_iff hq "data").mp hmem)

end Facts

namespace SinkPattern

structure ClosingSink (f : Facts) (root : Int × Stmt) (s : Sink) : Prop where
  account : ∃ account text, f.Closes root.2 account ∧ s.paths = [account] ∧ account.display = .ok text
  block : s.block = root.1
  location : s.location = root.2.location
  conditional : s.unconditional = false
  message : s.message = ""
  expr : s.expr = none

private theorem zeroSink_eq_ok {p : SinkPattern} (hfield : p.field = "lamports") {f : Facts}
    {c : Category} {root : Int × Stmt} {z : Option Sink} (h : p.zeroSink f c root = .ok z) :
    (z = none → ∀ account, ¬f.Closes root.2 account) ∧
      ∀ s, z = some s → ClosingSink f root s := by
  obtain ⟨b, s⟩ := root
  unfold zeroSink at h
  dsimp only at h
  split at h
  · rename_i target hk ht
    obtain ⟨zero, hz, h⟩ := bind_eq_ok.mp h
    cases zero with
    | false =>
      obtain rfl := pure_eq_ok.mp h
      exact ⟨fun _ _ => Facts.not_storesZero hz _, fun s hs => (by cases hs)⟩
    | true =>
      obtain ⟨place, hplace, h⟩ := bind_eq_ok.mp h
      have hcloses : ∀ account, f.Closes s account ↔
          place = some (account.extend [.text "lamports"]) :=
        fun account => Facts.storesZero_iff hk ht hz hplace _
      simp only [hcloses]
      cases place with
      | none =>
        obtain rfl := pure_eq_ok.mp h
        exact ⟨fun _ _ h => (by cases h), fun s hs => (by cases hs)⟩
      | some path =>
        simp only [Option.some.injEq, AccessPath.eq_extend_iff] at hcloses ⊢
        dsimp only at h
        split at h
        · rename_i step account hstep haccount
          rw [hfield] at h
          split at h
          · rename_i hne
            obtain rfl := pure_eq_ok.mp h
            refine ⟨?_, fun s hs => (by cases hs)⟩
            rintro _ account' ⟨hlast, _⟩
            rw [hstep] at hlast
            exact absurd (Option.some.inj hlast) (by simpa using hne)
          · rename_i heq
            obtain ⟨paths, hpaths, h⟩ := bind_eq_ok.mp h
            obtain ⟨text, htext, h⟩ := bind_eq_ok.mp h
            obtain rfl := pure_eq_ok.mp h
            refine ⟨fun hs => (by cases hs), fun sink hs => ?_⟩
            obtain rfl := Option.some.inj hs
            have hlast : path.last? = some (.text "lamports") := by
              rw [hstep]
              simpa using heq
            exact ⟨⟨account, text, (hcloses account).mpr ⟨hlast, haccount⟩,
              AccessPath.setOf_singleton hpaths, htext⟩, rfl, rfl, rfl, rfl, rfl⟩
        · rename_i hnot
          obtain rfl := pure_eq_ok.mp h
          refine ⟨?_, fun s hs => (by cases hs)⟩
          rintro _ account ⟨hlast, hparent⟩
          exact hnot _ _ hlast hparent
  · rename_i hnot
    obtain rfl := pure_eq_ok.mp h
    refine ⟨fun _ account hcloses => ?_, fun s hs => (by cases hs)⟩
    obtain ⟨t, ht, _⟩ := hcloses.target
    exact hnot t hcloses.kind ht

end SinkPattern

structure Facts.ReportsClosing (f : Facts) (root : Int × Stmt) (d : Diagnostic) : Prop where
  category : d.category = "insecure-account-close"
  errorId : d.errorId = "insecureAccountClose"
  message : d.message = "attempt to close an account without also clearing its data"
  function : d.function = f.function.name
  location : d.location = root.2.location
  account : ∃ account text count, f.Closes root.2 account ∧ account.display = .ok text ∧
    d.evidence = .sink root.1 [text] count

namespace Rule

private theorem insecureAccountClose_exemptsFunction (f : Facts) :
    insecureAccountClose.exemptsFunction f = f.marksClosed := by
  unfold exemptsFunction insecureAccountClose
  simp only [anyM, beq_self_eq_true, if_true]
  cases f.marksClosed with
  | error e => rfl
  | ok b => cases b <;> rfl

open Classical in
/-- The sinks of the rule are the statements that close an account, unless the function marks what
it closes. -/
theorem insecureAccountClose_sinksIn {f : Facts} {sinks : List Sink}
    (h : insecureAccountClose.sinksIn f = .ok sinks) :
    List.Forall₂ (SinkPattern.ClosingSink f)
      (f.function.roots.filter fun r => f.marksClosed = .ok false ∧ ∃ account, f.Closes r.2 account)
      sinks := by
  obtain ⟨marked, hmarked, h⟩ := bind_eq_ok.mp h
  rw [insecureAccountClose_exemptsFunction] at hmarked
  rw [hmarked]
  cases marked with
  | true =>
    obtain rfl := pure_eq_ok.mp h
    simp
  | false =>
    obtain ⟨zss, hz, rfl⟩ := concatM_eq_ok.mp h
    obtain ⟨zs, _, hzs, hend, rfl⟩ := List.forall₂_cons_left_iff.mp hz
    obtain rfl := List.forall₂_nil_left_iff.mp hend
    rw [List.flatten_cons, List.flatten_nil, List.append_nil]
    replace hzs : collectM (fun root => insecureAccountClose.keep? f
        (SinkPattern.zeroSink { kind := .zeroAssign, field := "lamports" } f .insecureAccountClose root))
        f.function.roots = .ok zs := by
      rw [← collectM_map]
      exact hzs
    refine collectM_filter hzs ?_ ?_
    · rintro root _ hroot ⟨_, account, hcloses⟩
      rcases keep?_eq_ok hroot with ⟨hnone, _⟩ | ⟨s, hs, ⟨i, hi, _⟩ | ⟨_, hz⟩⟩
      · exact (SinkPattern.zeroSink_eq_ok rfl hnone).1 rfl account hcloses
      · rw [((SinkPattern.zeroSink_eq_ok rfl hs).2 s rfl).expr] at hi
        cases hi
      · cases hz
    · intro root _ sink hroot
      rcases keep?_eq_ok hroot with ⟨_, hz⟩ | ⟨s, hs, ⟨_, _, _, hz⟩ | ⟨_, hz⟩⟩
      · cases hz
      · cases hz
      · obtain rfl := Option.some.inj hz
        have hsink := (SinkPattern.zeroSink_eq_ok rfl hs).2 _ rfl
        obtain ⟨account, _, hcloses, _⟩ := hsink.account
        exact ⟨⟨rfl, account, hcloses⟩, hsink⟩

/-- A closed account is covered if its data is cleared. -/
theorem insecureAccountClose_isCovered_iff {f : Facts} {guards : List Guard}
    (hg : insecureAccountClose.relevantGuards f = .ok guards) {root : Int × Stmt} {s : Sink}
    (hs : SinkPattern.ClosingSink f root s) :
    insecureAccountClose.isCovered f guards s = true ↔ ¬f.LeavesData root.2 := by
  obtain ⟨account, text, hcloses, hpaths, _⟩ := hs.account
  have hleaves : f.LeavesData root.2 ↔ ¬f.ClearsAccount account := by
    constructor
    · rintro ⟨account', hcloses', hkept⟩
      rw [hcloses.account_eq hcloses']
      exact hkept
    · exact fun hkept => ⟨account, hcloses, hkept⟩
  have hguard := insecureAccountClose_guardsIn hg
  have hcovers : insecureAccountClose.isCovered f guards s = true ↔
      ∃ g ∈ guards, g.covers [account] = true := by
    unfold isCovered
    rw [hs.conditional, hpaths]
    simp [insecureAccountClose]
  rw [hleaves, not_not, hcovers]
  simp only [Guard.covers_eq_true_iff, List.forall_mem_singleton]
  constructor
  · rintro ⟨g, hmem, q, hq, hsame⟩
    obtain ⟨cleared, b, location, hclears, rfl⟩ := (hguard g).mp hmem
    obtain rfl := List.mem_singleton.mp hq
    exact ⟨q, b, location, hsame, hclears⟩
  · rintro ⟨q, b, location, hsame, hclears⟩
    exact ⟨_, (hguard _).mpr ⟨q, b, location, hclears, rfl⟩, q, List.mem_singleton_self q, hsame⟩

open Classical in
/-- The sinks that are not covered are the statements that leave the data of what they close. -/
theorem insecureAccountClose_uncovered {f : Facts} {sinks : List Sink} {guards : List Guard}
    (hsinks : insecureAccountClose.sinksIn f = .ok sinks)
    (hguards : sinks = [] ∨ insecureAccountClose.relevantGuards f = .ok guards) :
    List.Forall₂ (SinkPattern.ClosingSink f)
      (f.function.roots.filter fun r => f.marksClosed = .ok false ∧ f.LeavesData r.2)
      (sinks.filter fun s => !insecureAccountClose.isCovered f guards s) := by
  have hall := insecureAccountClose_sinksIn hsinks
  have hcloses : (f.function.roots.filter fun r => f.marksClosed = .ok false ∧ f.LeavesData r.2) =
      (f.function.roots.filter fun r =>
        f.marksClosed = .ok false ∧ ∃ account, f.Closes r.2 account).filter
          fun r => f.LeavesData r.2 := by
    rw [List.filter_filter]
    refine List.filter_congr fun r _ => ?_
    rw [Bool.eq_iff_iff, Bool.and_eq_true, decide_eq_true_iff, decide_eq_true_iff, decide_eq_true_iff]
    constructor
    · rintro ⟨hmarked, account, hcloses, hkept⟩
      exact ⟨⟨account, hcloses, hkept⟩, hmarked, account, hcloses⟩
    · rintro ⟨hleaves, hmarked, _⟩
      exact ⟨hmarked, hleaves⟩
  rw [hcloses]
  rcases hguards with rfl | hguards
  · rw [List.forall₂_nil_right_iff.mp hall]
    exact .nil
  · refine List.rel_filter ?_ hall
    intro r s hs
    have hcov := insecureAccountClose_isCovered_iff hguards hs
    beta_reduce
    rw [decide_eq_true_iff, Bool.not_eq_true', ← Bool.not_eq_true, hcov, not_not]

/-- What the finding for a closed account says. -/
theorem insecureAccountClose_finding {f : Facts} {guards : List Guard} {root : Int × Stmt}
    {s : Sink} {d : Diagnostic} (hs : SinkPattern.ClosingSink f root s)
    (h : insecureAccountClose.finding f guards s = .ok d) :
    f.ReportsClosing root d := by
  obtain ⟨account, text, hcloses, hpaths, htext⟩ := hs.account
  obtain ⟨hcat, hid, _, _, hfun, hloc, _, ⟨fields, _, hm, _⟩, texts, htexts, hev⟩ := finding_eq_ok h
  rw [hs.message] at hm
  have hone : texts = [text] := by
    unfold Sink.pathTexts at htexts
    rw [hpaths, List.mapM_cons, htext] at htexts
    exact (pure_eq_ok.mp htexts).symm
  refine ⟨hcat, hid, (Except.ok.inj hm).symm, hfun, hloc.trans hs.location, account, text,
    guards.length, hcloses, htext, ?_⟩
  rw [hev, hone, hs.block]

end Rule

open Classical in
/-- The findings of the rule on closed accounts, one for each statement that closes an account and
leaves its data, in a function that does not mark what it closes. A loop over the data of an account
clears it, if the account is not itself below a `data`. -/
theorem FunctionReport.closing_findings_iff_leavesData {p : Program} {rules : List Rule}
    {f : Function} {report : FunctionReport} (h : ofBody p rules f = .ok report)
    (hrule : rules.filter (·.category == .insecureAccountClose) = [Rule.insecureAccountClose]) :
    ∃ facts, Facts.build p f = .ok facts ∧
      List.Forall₂ facts.ReportsClosing
        (f.roots.filter fun r => facts.marksClosed = .ok false ∧ facts.LeavesData r.2)
        (report.diagnostics.filter (·.category == "insecure-account-close")) ∧
      ∀ account, facts.ClearsInLoop account →
        (facts.ClearsAccount account ↔ .text "data" ∉ account.projections) := by
  obtain ⟨facts, hfacts, dss, hdss, hdiag⟩ := ofBody_category h .insecureAccountClose
  refine ⟨facts, hfacts, ?_, fun account hloop => ⟨fun hc => hc.not_mem, hloop.clearsAccount⟩⟩
  rw [hrule] at hdss
  obtain ⟨ds, _, hds, hend, rfl⟩ := List.forall₂_cons_left_iff.mp hdss
  obtain rfl := List.forall₂_nil_left_iff.mp hend
  obtain ⟨_, _, _, _, _, _, hfun⟩ := Facts.build_eq_ok hfacts
  obtain ⟨sinks, hsinks, hfind⟩ := bind_eq_ok.mp hds
  obtain ⟨guards, hguards, hfind⟩ := Rule.findings_eq_ok hfind
  have hleft := Rule.insecureAccountClose_uncovered hsinks hguards
  have hsame : report.diagnostics.filter (·.category == "insecure-account-close") = ds := by
    rw [show "insecure-account-close" = Category.insecureAccountClose.id from rfl, hdiag]
    simp
  rw [hsame, ← hfun]
  refine (forall₂_comp hleft hfind).imp ?_
  rintro r d ⟨s, hs, hd⟩
  exact Rule.insecureAccountClose_finding hs hd

/-- Two vaults are closed, and a loop sets the data of both to zero; one of them is itself below a
`data`. -/
def Function.nestedVault : Function :=
  { name := "close"
    params := [{ name := .text "ctx" }]
    exprs := [
      { id := 0, kind := .localVar, localName := "ctx" },
      { id := 1, kind := .field, name := some (.text "data"), receiver := some 0 },
      { id := 2, kind := .field, name := some (.text "vault"), receiver := some 1 },
      { id := 3, kind := .field, name := some (.text "lamports"), receiver := some 2 },
      { id := 4, kind := .field, name := some (.text "data"), receiver := some 2 },
      { id := 5, kind := .index, receiver := some 4 },
      { id := 6, kind := .literal, value := .int 0 },
      { id := 7, kind := .localVar, localName := "ctx" },
      { id := 8, kind := .field, name := some (.text "accounts"), receiver := some 7 },
      { id := 9, kind := .field, name := some (.text "vault"), receiver := some 8 },
      { id := 10, kind := .field, name := some (.text "lamports"), receiver := some 9 },
      { id := 11, kind := .field, name := some (.text "data"), receiver := some 9 },
      { id := 12, kind := .index, receiver := some 11 }]
    blocks := [
      { id := 0, successors := [1], stmts := [
          { kind := .assign, target := some (.expr 3), value := 6, location := { line := 1 } },
          { kind := .assign, target := some (.expr 10), value := 6, location := { line := 2 } }] },
      { id := 1, successors := [1], stmts := [
          { kind := .assign, target := some (.expr 5), value := 6, location := { line := 3 } },
          { kind := .assign, target := some (.expr 12), value := 6, location := { line := 4 } }] }] }

def Facts.nestedVault : Facts :=
  { program := { functions := [.nestedVault] }
    function := .nestedVault
    aliases := { function := .nestedVault }
    located := [0, 0, 0, 0, 1, 1, 0, 0, 0, 0, 0, 1, 1].zip Function.nestedVault.exprs }

private theorem Facts.build_nestedVault :
    Facts.build { functions := [.nestedVault] } .nestedVault = .ok .nestedVault :=
  build_of_parts rfl (by decide +kernel) (by decide +kernel)

private theorem Facts.loopBlocks_nestedVault :
    Facts.nestedVault.loopBlocks = [1] := Graph.loopBlocks_selfLoop

def AccessPath.vaultBelow (field : String) : AccessPath := ⟨.text "ctx", [.text field, .text "vault"]⟩

private theorem Facts.nestedVault_clearsInLoop (field : String) (h : field ∈ ["data", "accounts"]) :
    Facts.nestedVault.ClearsInLoop (.vaultBelow field) := by
  have hmem : (1 : Int) ∈ Facts.nestedVault.loopBlocks := by
    rw [loopBlocks_nestedVault]
    decide
  have hzero : Facts.nestedVault.IsZero 6 := ⟨_, rfl, rfl, Or.inl rfl⟩
  rcases List.mem_pair.mp h with rfl | rfl
  · refine ⟨1, { kind := .assign, target := some (.expr 5), value := 6, location := { line := 3 } },
      _, [AccessPath.elementStep], by decide, hmem, ⟨rfl, hzero, _, rfl, ?_⟩, AccessPath.same_refl _⟩
    exact ok_of_toOption (by decide +kernel)
  · refine ⟨1, { kind := .assign, target := some (.expr 12), value := 6, location := { line := 4 } },
      _, [AccessPath.elementStep], by decide, hmem, ⟨rfl, hzero, _, rfl, ?_⟩, AccessPath.same_refl _⟩
    exact ok_of_toOption (by decide +kernel)

private theorem FunctionReport.ofBody_nestedVault :
    ∃ report d, ofBody { functions := [.nestedVault] } [Rule.insecureAccountClose] .nestedVault =
        .ok report ∧ report.diagnostics = [d] ∧ d.category = "insecure-account-close" ∧
      d.location.line = 1 := by
  let guard (account : AccessPath) (line : Int) : Guard :=
    ⟨.insecureAccountClose, .dataClear, 1, [account], { line := line }⟩
  let guards := [guard (.ofLocal "ctx") 3, guard (.vaultBelow "accounts") 4]
  have hguards : Rule.insecureAccountClose.relevantGuards .nestedVault = .ok guards := by
    have hpattern : GuardPattern.closing.guards .nestedVault .insecureAccountClose = .ok guards := by
      unfold GuardPattern.guards
      rw [Facts.loopBlocks_nestedVault]
      exact ok_of_toOption (by decide +kernel)
    exact concatM_eq_ok.mpr ⟨[guards], .cons hpattern .nil, rfl⟩
  let sink (account : AccessPath) (line : Int) (text : String) : Sink :=
    { category := .insecureAccountClose, block := 0, paths := [account], location := { line := line },
      details := [("path", text)] }
  let sinks := [sink (.vaultBelow "data") 1 "ctx.data.vault",
    sink (.vaultBelow "accounts") 2 "ctx.accounts.vault"]
  have hsinks : Rule.insecureAccountClose.sinksIn .nestedVault = .ok sinks :=
    ok_of_toOption (by decide +kernel)
  have hfound : (collectM (fun s => do
      if Rule.insecureAccountClose.isCovered .nestedVault guards s then return none
      else return some (← Rule.insecureAccountClose.finding .nestedVault guards s)) sinks).toOption.map
        (·.map fun d => (d.category, d.location.line)) = some [("insecure-account-close", 1)] := by
    decide +kernel
  obtain ⟨ds, hds, hmap⟩ := Option.map_eq_some_iff.mp hfound
  obtain ⟨d, rfl, hd⟩ := List.map_eq_singleton_iff.mp hmap
  obtain ⟨hcategory, hline⟩ := Prod.mk.inj hd
  refine ⟨{ function := "close", diagnostics := [d] }, d, ?_, rfl, hcategory, hline⟩
  refine bind_eq_ok.mpr ⟨_, Facts.build_nestedVault, ?_⟩
  rw [List.foldlM_cons]
  refine bind_eq_ok.mpr ⟨_, bind_eq_ok.mpr ⟨_, hsinks, bind_eq_ok.mpr ⟨[d], ?_, rfl⟩⟩, rfl⟩
  exact bind_eq_ok.mpr ⟨guards, hguards, ok_of_toOption hds⟩

theorem FunctionReport.closing_findings_nestedVault :
    ∃ report, ofBody { functions := [.nestedVault] } [Rule.insecureAccountClose] .nestedVault =
        .ok report ∧
      ∃ facts, Facts.build { functions := [.nestedVault] } .nestedVault = .ok facts ∧
        facts.ClearsInLoop (.vaultBelow "accounts") ∧ facts.ClearsAccount (.vaultBelow "accounts") ∧
        facts.ClearsInLoop (.vaultBelow "data") ∧ ¬facts.ClearsAccount (.vaultBelow "data") ∧
        ∃ r d, facts.LeavesData r.2 ∧ facts.ReportsClosing r d ∧ report.diagnostics = [d] := by
  classical
  obtain ⟨report, d, hreport, hd, hcategory, _⟩ := ofBody_nestedVault
  obtain ⟨facts, hfacts, hall, hclears⟩ := closing_findings_iff_leavesData hreport rfl
  obtain rfl := Except.ok.inj (Facts.build_nestedVault.symm.trans hfacts)
  have haccounts := Facts.nestedVault_clearsInLoop "accounts" (by decide)
  have hdata := Facts.nestedVault_clearsInLoop "data" (by decide)
  refine ⟨report, hreport, _, hfacts, haccounts, (hclears _ haccounts).mpr (by decide), hdata,
    fun h => (hclears _ hdata).mp h (by decide), ?_⟩
  rw [hd, List.filter_cons_of_pos (by simp [hcategory])] at hall
  obtain ⟨r, rest, hr, hrest, hrs⟩ := List.forall₂_cons_right_iff.mp hall
  have hmem := List.mem_cons_self (a := r) (l := [])
  rw [List.forall₂_nil_right_iff.mp hrest] at hrs
  rw [← hrs, List.mem_filter, decide_eq_true_iff] at hmem
  exact ⟨r, d, hmem.2.2, hr, hd⟩

/-- An account is reported although a loop sets its data to zero, because it is itself below a
`data`. -/
theorem FunctionReport.reports_cleared_account :
    ∃ facts report, Facts.build { functions := [.nestedVault] } .nestedVault = .ok facts ∧
      ofBody { functions := [.nestedVault] } [Rule.insecureAccountClose] .nestedVault = .ok report ∧
      ∃ s, (0, s) ∈ Function.nestedVault.roots ∧ facts.Closes s (.vaultBelow "data") ∧
        facts.ClearsInLoop (.vaultBelow "data") ∧
        ∃ d ∈ report.diagnostics, d.category = "insecure-account-close" ∧
          d.location.line = s.location.line := by
  obtain ⟨report, d, hreport, hd, hcategory, hline⟩ := ofBody_nestedVault
  refine ⟨_, report, Facts.build_nestedVault, hreport,
    { kind := .assign, target := some (.expr 3), value := 6, location := { line := 1 } }, by decide,
    ⟨rfl, ⟨_, rfl, rfl, Or.inl rfl⟩, _, rfl, ok_of_toOption (by decide +kernel)⟩,
    Facts.nestedVault_clearsInLoop "data" (by decide), d, by simp [hd], hcategory, hline⟩

end AccountLint

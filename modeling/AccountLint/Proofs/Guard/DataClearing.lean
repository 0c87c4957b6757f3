import AccountLint.Guard
import AccountLint.Proofs.Facts.Location
import AccountLint.Proofs.Rule.Paths
import AccountLint.Rule.Defaults

/-! What counts as clearing the data of an account: a store of zero in a loop, or a call that fills.
What a call fills the data with does not matter. -/
namespace AccountLint

namespace Facts

/-- An expression is the literal zero, as a number or spelled out. -/
def IsZero (f : Facts) (i : Int) : Prop :=
  ∃ e, f.function.expr i = .ok e ∧ e.kind = .literal ∧ (e.value = .int 0 ∨ e.value = .text "0")

structure StoresZero (f : Facts) (s : Stmt) (place : AccessPath) : Prop where
  kind : s.kind = .assign
  value : f.IsZero s.value
  target : ∃ t, s.target = some t ∧ f.targetPath t = .ok (some place)

private theorem isZero_eq_ok {f : Facts} {i : Int} {b : Bool} (h : f.isZero i = .ok b) :
    b = true ↔ f.IsZero i := by
  obtain ⟨e, he, h⟩ := bind_eq_ok.mp h
  obtain rfl := pure_eq_ok.mp h
  unfold IsZero
  simp [he]

theorem storesZero_iff {f : Facts} {s : Stmt} {target : Target} {place : Option AccessPath}
    (hkind : s.kind = .assign) (htarget : s.target = some target) (hzero : f.isZero s.value = .ok true)
    (hplace : f.targetPath target = .ok place) (path : AccessPath) :
    f.StoresZero s path ↔ place = some path := by
  constructor
  · intro hstore
    obtain ⟨t, ht, hpath⟩ := hstore.target
    rw [htarget] at ht
    obtain rfl := Option.some.inj ht
    exact Except.ok.inj (hplace.symm.trans hpath)
  · intro hpath
    exact ⟨hkind, (isZero_eq_ok hzero).mp rfl, target, htarget, hpath ▸ hplace⟩

theorem not_storesZero {f : Facts} {s : Stmt} (hzero : f.isZero s.value = .ok false)
    (path : AccessPath) :
    ¬f.StoresZero s path :=
  fun hstore => Bool.noConfusion ((isZero_eq_ok hzero).mpr hstore.value)

theorem StoresZero.place_eq {f : Facts} {s : Stmt} {place place' : AccessPath}
    (h : f.StoresZero s place) (h' : f.StoresZero s place') : place = place' := by
  obtain ⟨t, ht, hp⟩ := h.target
  obtain ⟨t', ht', hp'⟩ := h'.target
  rw [ht] at ht'
  obtain rfl := Option.some.inj ht'
  rw [hp] at hp'
  exact Option.some.inj (Except.ok.inj hp')

end Facts

namespace GuardPattern

variable {p : GuardPattern} {f : Facts} {c : Category} {b : Int}

/-- A place is inside of an account: below the first projection that a pattern names, counted from
the root, with the account before it. -/
def Inside (p : GuardPattern) (place account : AccessPath) : Prop :=
  (∃ name ∈ p.names, ∃ rest, place = account.extend (.text name :: rest)) ∧
    ∀ name ∈ p.names, .text name ∉ account.projections

/-- A call that a pattern is about, and what it fills: the receiver of a method, or else the first
operand. -/
structure Fills (p : GuardPattern) (e : Expr) (target : Int) : Prop where
  kind : e.kind = .call
  name : ∃ s, e.name = some (.text s) ∧ ∃ call ∈ p.calls, Text.nameMatches call s = true
  target : e.receiver = some target ∨ e.receiver = none ∧ e.operands.head? = some target

/-- The inside of an account is cleared in a block: by a store of zero in a loop, or by a call that
fills it. -/
inductive Clears (p : GuardPattern) (f : Facts) (account : AccessPath) : Int → Location → Prop where
  | store {b : Int} {s : Stmt} {place : AccessPath} (hroot : (b, s) ∈ f.function.roots)
      (hloop : b ∈ f.loopBlocks) (hzero : f.StoresZero s place) (hin : p.Inside place account) :
      Clears p f account b s.location
  | call {b : Int} {e : Expr} {target : Int} {place : AccessPath} (hlocated : (b, e) ∈ f.located)
      (hfills : p.Fills e target) (hplace : f.pathOf (some target) = .ok (some place))
      (hin : p.Inside place account) : Clears p f account b e.location

/-- What is found before a named projection is what stands before the first one. -/
theorem beforeStep_eq_ok {names : List String} {steps : List Value} {z : Option (List Value)}
    (h : beforeStep names steps = .ok z) (before : List Value) :
    z = some before ↔ (∃ name ∈ names, ∃ rest, steps = before ++ .text name :: rest) ∧
      ∀ name ∈ names, .text name ∉ before := by
  induction steps generalizing z before with
  | nil =>
    obtain rfl := Except.ok.inj h
    simp
  | cons step steps ih =>
    rw [beforeStep] at h
    obtain ⟨named, hn, h⟩ := bind_eq_ok.mp h
    have hnamed := Value.isOneOf_eq_ok hn
    cases named with
    | true =>
      obtain rfl := pure_eq_ok.mp h
      obtain ⟨name, hname, rfl⟩ := hnamed.mp rfl
      constructor
      · intro hb
        obtain rfl := Option.some.inj hb
        exact ⟨⟨name, hname, steps, rfl⟩, fun _ _ => List.not_mem_nil⟩
      · rintro ⟨⟨_, _, rest, heq⟩, hfree⟩
        cases before with
        | nil => rfl
        | cons first before =>
          -- the projection is named, so that nothing can stand before it
          rw [List.cons_append] at heq
          obtain ⟨rfl, _⟩ := List.cons.inj heq
          exact absurd List.mem_cons_self (hfree name hname)
    | false =>
      have hstep : ∀ name ∈ names, step ≠ .text name := by
        intro name hname heq
        exact Bool.noConfusion (hnamed.mpr ⟨name, hname, heq⟩)
      obtain ⟨rest, hrest, h⟩ := bind_eq_ok.mp h
      obtain rfl := pure_eq_ok.mp h
      rw [Option.map_eq_some_iff]
      constructor
      · rintro ⟨tail, htail, rfl⟩
        obtain ⟨⟨name, hname, after, rfl⟩, hfree⟩ := (ih hrest tail).mp htail
        refine ⟨⟨name, hname, after, rfl⟩, ?_⟩
        intro other hother hmem
        rcases List.mem_cons.mp hmem with heq | hmem
        · exact hstep other hother heq.symm
        · exact hfree other hother hmem
      · rintro ⟨⟨name, hname, after, heq⟩, hfree⟩
        cases before with
        | nil => exact absurd (List.cons.inj heq).1 (hstep name hname)
        | cons first tail =>
          obtain ⟨rfl, rfl⟩ := List.cons.inj heq
          refine ⟨tail, (ih hrest tail).mpr ⟨⟨name, hname, after, rfl⟩, ?_⟩, rfl⟩
          exact fun other hother hmem => hfree other hother (List.mem_cons_of_mem _ hmem)

private theorem accountOf_eq_ok {place z : Option AccessPath} (h : p.accountOf place = .ok z)
    (account : AccessPath) :
    z = some account ↔ ∃ path, place = some path ∧ p.Inside path account := by
  cases place with
  | none =>
    obtain rfl := Except.ok.inj h
    simp
  | some path =>
    obtain ⟨steps, hsteps, h⟩ := bind_eq_ok.mp h
    obtain rfl := pure_eq_ok.mp h
    obtain ⟨root, projections⟩ := path
    obtain ⟨root', before⟩ := account
    have hbefore := beforeStep_eq_ok hsteps before
    rw [Option.map_eq_some_iff]
    constructor
    · rintro ⟨before', hb, heq⟩
      obtain ⟨rfl, rfl⟩ := AccessPath.mk.inj heq
      obtain ⟨⟨name, hname, rest, hrest⟩, hfree⟩ := hbefore.mp hb
      exact ⟨_, rfl, ⟨name, hname, rest, AccessPath.mk.injEq .. ▸ ⟨rfl, hrest⟩⟩, hfree⟩
    · rintro ⟨_, heq, ⟨name, hname, rest, hrest⟩, hfree⟩
      obtain rfl := Option.some.inj heq
      obtain ⟨rfl, hsteps'⟩ := AccessPath.mk.inj hrest
      exact ⟨before, hbefore.mpr ⟨⟨name, hname, rest, hsteps'⟩, hfree⟩, rfl⟩

/-- The guard of an account, if there is one. -/
theorem account_guard_eq_ok {account : Option AccessPath} {location : Location} {z : Option Guard}
    (h : (match account with
      | none => pure none
      | some account => return some (← p.guard c b [account] location) : Except Fault (Option Guard)) =
        .ok z) (g : Guard) :
    z = some g ↔ ∃ q, account = some q ∧ g = ⟨c, p.kind, b, [q], location⟩ := by
  cases account with
  | none =>
    obtain rfl := pure_eq_ok.mp h
    simp
  | some account =>
    obtain ⟨found, hfound, h⟩ := bind_eq_ok.mp h
    obtain rfl := pure_eq_ok.mp h
    obtain ⟨paths, hpaths, hfound⟩ := bind_eq_ok.mp hfound
    obtain rfl := pure_eq_ok.mp hfound
    rw [AccessPath.setOf_singleton hpaths]
    simp [eq_comm]

private theorem clearingStore_eq_ok {loops : List Int} {s : Stmt} {z : Option Guard}
    (h : p.clearingStore f loops c (b, s) = .ok z) (g : Guard) :
    z = some g ↔ ∃ place account, b ∈ loops ∧ f.StoresZero s place ∧ p.Inside place account ∧
      g = ⟨c, p.kind, b, [account], s.location⟩ := by
  unfold clearingStore at h
  dsimp only at h
  split at h
  · rename_i target hk ht
    split at h
    · rename_i hloop
      obtain rfl := pure_eq_ok.mp h
      simp_all
    · rename_i hloop
      have hb : b ∈ loops := by simpa using hloop
      obtain ⟨zero, hz, h⟩ := bind_eq_ok.mp h
      cases zero with
      | false =>
        obtain rfl := pure_eq_ok.mp h
        refine ⟨fun h => (by cases h), ?_⟩
        rintro ⟨place, _, _, hstore, _⟩
        exact absurd hstore (Facts.not_storesZero hz place)
      | true =>
        obtain ⟨place, hplace, h⟩ := bind_eq_ok.mp h
        obtain ⟨account, haccount, h⟩ := bind_eq_ok.mp h
        rw [account_guard_eq_ok h]
        have hstores := Facts.storesZero_iff hk ht hz hplace
        constructor
        · rintro ⟨q, hq, rfl⟩
          obtain ⟨path, hpath, hin⟩ := (accountOf_eq_ok haccount q).mp hq
          exact ⟨path, q, hb, (hstores path).mpr hpath, hin, rfl⟩
        · rintro ⟨path, q, _, hstore, hin, rfl⟩
          exact ⟨q, (accountOf_eq_ok haccount q).mpr ⟨path, (hstores path).mp hstore, hin⟩, rfl⟩
  · rename_i hnot
    obtain rfl := pure_eq_ok.mp h
    refine ⟨fun h => (by cases h), ?_⟩
    rintro ⟨_, _, _, hstore, _⟩
    obtain ⟨t, ht, _⟩ := hstore.target
    exact absurd ht (hnot t hstore.kind)

private theorem clearingCall_eq_ok {e : Expr} {z : Option Guard}
    (h : p.clearingCall f c (b, e) = .ok z) (g : Guard) :
    z = some g ↔ ∃ target place account, p.Fills e target ∧
      f.pathOf (some target) = .ok (some place) ∧ p.Inside place account ∧
      g = ⟨c, p.kind, b, [account], e.location⟩ := by
  unfold clearingCall at h
  dsimp only at h
  split at h
  · rename_i hk
    obtain rfl := pure_eq_ok.mp h
    refine ⟨fun h => (by cases h), ?_⟩
    rintro ⟨_, _, _, hfills, _⟩
    simp [hfills.kind] at hk
  · rename_i hk
    have hkind : e.kind = .call := by simpa using hk
    obtain ⟨named, hn, h⟩ := bind_eq_ok.mp h
    have hnamed := matchesAny_eq_ok hn
    cases named with
    | false =>
      obtain rfl := pure_eq_ok.mp h
      refine ⟨fun h => (by cases h), ?_⟩
      rintro ⟨_, _, _, hfills, _⟩
      exact Bool.noConfusion (hnamed.mpr hfills.name)
    | true =>
      obtain ⟨place, hplace, h⟩ := bind_eq_ok.mp h
      obtain ⟨account, haccount, h⟩ := bind_eq_ok.mp h
      rw [account_guard_eq_ok h]
      have htarget : ∀ target, p.Fills e target ↔
          (if e.isMethodCall then e.receiver else e.operands.head?) = some target := by
        intro target
        have hiff : p.Fills e target ↔
            e.receiver = some target ∨ e.receiver = none ∧ e.operands.head? = some target :=
          ⟨fun hfills => hfills.target, fun ht => ⟨hkind, hnamed.mp rfl, ht⟩⟩
        rw [hiff]
        cases hr : e.receiver with
        | none => simp [Expr.isMethodCall, hr]
        | some r => simp [Expr.isMethodCall, hkind, hr]
      constructor
      · rintro ⟨q, hq, rfl⟩
        obtain ⟨path, rfl, hin⟩ := (accountOf_eq_ok haccount q).mp hq
        cases ht : (if e.isMethodCall then e.receiver else e.operands.head?) with
        | none =>
          rw [ht] at hplace
          cases hplace
        | some target =>
          rw [ht] at hplace
          exact ⟨target, path, q, (htarget target).mpr ht, hplace, hin, rfl⟩
      · rintro ⟨target, path, q, hfills, hpath, hin, rfl⟩
        rw [(htarget target).mp hfills, hpath] at hplace
        exact ⟨q, (accountOf_eq_ok haccount q).mpr ⟨path, (Except.ok.inj hplace).symm, hin⟩, rfl⟩

/-- The guards of a pattern of clearing are the accounts that are cleared, where they are. -/
theorem mem_dataClear_iff (hkind : p.kind = .dataClear) {gs : List Guard}
    (h : p.guards f c = .ok gs) (g : Guard) :
    g ∈ gs ↔ ∃ account b location, p.Clears f account b location ∧
      g = ⟨c, .dataClear, b, [account], location⟩ := by
  unfold guards at h
  rw [hkind] at h
  obtain ⟨stores, hstores, h⟩ := bind_eq_ok.mp h
  obtain ⟨calls, hcalls, h⟩ := bind_eq_ok.mp h
  obtain rfl := pure_eq_ok.mp h
  rw [List.mem_append, mem_collectM hstores, mem_collectM hcalls]
  constructor
  · rintro (⟨⟨b, s⟩, hroot, hstep⟩ | ⟨⟨b, e⟩, hlocated, hstep⟩)
    · obtain ⟨place, account, hloop, hzero, hin, rfl⟩ := (clearingStore_eq_ok hstep g).mp rfl
      exact ⟨account, b, s.location, .store hroot hloop hzero hin, by rw [hkind]⟩
    · obtain ⟨target, place, account, hfills, hplace, hin, rfl⟩ := (clearingCall_eq_ok hstep g).mp rfl
      exact ⟨account, b, e.location, .call hlocated hfills hplace hin, by rw [hkind]⟩
  · rintro ⟨account, b, location, hclears, rfl⟩
    cases hclears with
    | @store s place hroot hloop hzero hin =>
      obtain ⟨z, hz⟩ := collectM_ok_of_mem hstores hroot
      refine Or.inl ⟨(b, s), hroot, ?_⟩
      rw [hz, (clearingStore_eq_ok hz _).mpr ⟨place, account, hloop, hzero, hin, by rw [hkind]⟩]
    | @call e target place hlocated hfills hplace hin =>
      obtain ⟨z, hz⟩ := collectM_ok_of_mem hcalls hlocated
      refine Or.inr ⟨(b, e), hlocated, ?_⟩
      rw [hz, (clearingCall_eq_ok hz _).mpr ⟨target, place, account, hfills, hplace, hin, by rw [hkind]⟩]

/-- The clearing of accounts that are closed: stores into `data`, and calls that fill it. -/
def closing : GuardPattern :=
  { kind := .dataClear, names := ["data"],
    calls := ["fill", "solana_program::program_memory::sol_memset"] }

end GuardPattern

/-- A place is in the data of an account: below the first projection `data`, with the account before
it. -/
def AccessPath.InData (place account : AccessPath) : Prop :=
  (∃ rest, place = account.extend (.text "data" :: rest)) ∧ .text "data" ∉ account.projections

theorem GuardPattern.inside_closing_iff {place account : AccessPath} :
    closing.Inside place account ↔ place.InData account := by
  simp [Inside, closing, AccessPath.InData]

/-- What a call fills with: the operand of a method, or else the second operand. -/
def Expr.fillValue? (e : Expr) : Option Int :=
  if e.receiver.isSome then e.operands.head? else e.operands[1]?

namespace Rule

theorem insecureAccountClose_guardsIn {f : Facts} {guards : List Guard}
    (h : insecureAccountClose.guardsIn f = .ok guards) (g : Guard) :
    g ∈ guards ↔ ∃ account b location, GuardPattern.closing.Clears f account b location ∧
      g = ⟨.insecureAccountClose, .dataClear, b, [account], location⟩ := by
  obtain ⟨gss, hgss, rfl⟩ := concatM_eq_ok.mp h
  obtain ⟨gs, _, hgs, hend, rfl⟩ := List.forall₂_cons_left_iff.mp hgss
  obtain rfl := List.forall₂_nil_left_iff.mp hend
  rw [List.flatten_cons, List.flatten_nil, List.append_nil]
  exact GuardPattern.mem_dataClear_iff (p := .closing) rfl hgs g

/-- The guards of the rule on closed accounts: the stores of zero into the data of an account that
are in a loop, and the calls that fill the data of an account, whatever they fill it with. -/
theorem mem_closing_guards_iff {f : Facts} {guards : List Guard}
    (h : insecureAccountClose.guardsIn f = .ok guards) (g : Guard) :
    g ∈ guards ↔ ∃ account place, place.InData account ∧
      g = ⟨.insecureAccountClose, .dataClear, g.block, [account], g.location⟩ ∧
      ((∃ s, (g.block, s) ∈ f.function.roots ∧ g.block ∈ f.loopBlocks ∧ f.StoresZero s place ∧
          g.location = s.location) ∨
        ∃ e target, (g.block, e) ∈ f.located ∧ GuardPattern.closing.Fills e target ∧
          f.pathOf (some target) = .ok (some place) ∧ g.location = e.location) := by
  rw [insecureAccountClose_guardsIn h]
  constructor
  · rintro ⟨account, b, location, hclears, rfl⟩
    cases hclears with
    | @store s place hroot hloop hzero hin =>
      exact ⟨account, place, GuardPattern.inside_closing_iff.mp hin, rfl,
        Or.inl ⟨s, hroot, hloop, hzero, rfl⟩⟩
    | @call e target place hlocated hfills hplace hin =>
      exact ⟨account, place, GuardPattern.inside_closing_iff.mp hin, rfl,
        Or.inr ⟨e, target, hlocated, hfills, hplace, rfl⟩⟩
  · rintro ⟨account, place, hin, hg, hroute⟩
    have hinside := GuardPattern.inside_closing_iff.mpr hin
    refine ⟨account, g.block, g.location, ?_, hg⟩
    rcases hroute with ⟨s, hroot, hloop, hzero, hloc⟩ | ⟨e, target, hlocated, hfills, hplace, hloc⟩
    · rw [hloc]
      exact .store hroot hloop hzero hinside
    · rw [hloc]
      exact .call hlocated hfills hplace hinside

end Rule

/-- A guard is about a write of zeros into the data of an account: a store in a loop, or a call that
fills the data with the literal zero. -/
def Facts.WritesZeros (f : Facts) (g : Guard) : Prop :=
  ∃ account place, place.InData account ∧ g.paths = [account] ∧
    ((∃ s, (g.block, s) ∈ f.function.roots ∧ g.block ∈ f.loopBlocks ∧ f.StoresZero s place) ∨
      ∃ e target value, (g.block, e) ∈ f.located ∧ GuardPattern.closing.Fills e target ∧
        f.pathOf (some target) = .ok (some place) ∧ e.fillValue? = some value ∧ f.IsZero value)

/-- The data of one account is set to zero in a loop, by another name, and the data of another
account is filled with sevens. -/
def Function.sweeping : Function :=
  { name := "sweep"
    params := [{ name := .text "acct" }, { name := .text "other" }]
    exprs := [
      { id := 0, kind := .localVar, localName := "buffer" },
      { id := 1, kind := .localVar, localName := "acct" },
      { id := 2, kind := .field, name := some (.text "data"), receiver := some 1 },
      { id := 3, kind := .localVar, localName := "other" },
      { id := 4, kind := .field, name := some (.text "data"), receiver := some 3 },
      { id := 5, kind := .literal, value := .int 7 },
      { id := 6, kind := .call, name := some (.text "fill"), receiver := some 4, operands := [5] },
      { id := 7, kind := .localVar, localName := "buffer" },
      { id := 8, kind := .index, receiver := some 7 },
      { id := 9, kind := .literal, value := .int 0 }]
    blocks := [
      { id := 0, successors := [1], stmts := [
          { kind := .assign, target := some (.expr 0), value := 2 }, { kind := .eval, value := 6 }] },
      { id := 1, successors := [1], stmts := [
          { kind := .assign, target := some (.expr 8), value := 9 }] }] }

def Facts.sweeping : Facts :=
  { program := { functions := [.sweeping] }
    function := .sweeping
    aliases := { function := .sweeping, sources := [("buffer", ⟨.text "acct", [.text "data"]⟩)]
                 definitions := [("buffer", 2)] }
    located := Function.sweeping.exprs.map fun e => (if e.id < 7 then 0 else 1, e) }

private theorem Facts.build_sweeping :
    Facts.build { functions := [.sweeping] } .sweeping = .ok .sweeping :=
  build_of_parts rfl (by decide +kernel) (by decide +kernel)

/-- A block that leads to itself is a loop. -/
theorem Graph.loopBlocks_selfLoop :
    ({ entry := 0, edges := [(0, [1]), (1, [1])] } : Graph).loopBlocks = [1] := by
  simp [loopBlocks, naturalLoops, naturalLoop, backEdges, dominates, cutsOff, isReachable, reachable,
    reachableWithout, targets, successors, successors?, ids, Flow.closure, List.lookup_cons, sortInts,
    sortBy, insertBy, distinct, addNew]

private theorem Facts.loopBlocks_sweeping :
    Facts.sweeping.loopBlocks = [1] := Graph.loopBlocks_selfLoop

def Guard.sweeping : List Guard :=
  [⟨.insecureAccountClose, .dataClear, 1, [.ofLocal "acct"], {}⟩,
    ⟨.insecureAccountClose, .dataClear, 0, [.ofLocal "other"], {}⟩]

private theorem Rule.guardsIn_sweeping :
    insecureAccountClose.guardsIn .sweeping = .ok Guard.sweeping := by
  have hguards : GuardPattern.closing.guards .sweeping .insecureAccountClose = .ok Guard.sweeping := by
    unfold GuardPattern.guards
    rw [Facts.loopBlocks_sweeping]
    exact ok_of_toOption (by decide +kernel)
  exact concatM_eq_ok.mpr ⟨[Guard.sweeping], .cons hguards .nil, rfl⟩

theorem Rule.mem_closing_guards_sweeping :
    Facts.build { functions := [.sweeping] } .sweeping = .ok .sweeping ∧
      ∃ guards, insecureAccountClose.guardsIn .sweeping = .ok guards ∧
        (∃ s place, (1, s) ∈ Function.sweeping.roots ∧ Facts.sweeping.StoresZero s place ∧
          place.InData (.ofLocal "acct")) ∧
        ∃ e target place, (0, e) ∈ Facts.sweeping.located ∧ GuardPattern.closing.Fills e target ∧
          Facts.sweeping.pathOf (some target) = .ok (some place) ∧ place.InData (.ofLocal "other") := by
  refine ⟨Facts.build_sweeping, _, Rule.guardsIn_sweeping, ?_, ?_⟩
  · obtain ⟨account, place, hin, hg, hroute⟩ :=
      (mem_closing_guards_iff Rule.guardsIn_sweeping _).mp List.mem_cons_self
    cases hg
    rcases hroute with ⟨s, hroot, _, hzero, _⟩ | ⟨e, target, hlocated, hfills, _⟩
    · exact ⟨s, place, hroot, hzero, hin⟩
    · have hcalls : ∀ l ∈ Facts.sweeping.located, l.2.kind = .call → l.1 = 0 := by decide
      have hblock : (1 : Int) = 0 := hcalls _ hlocated hfills.kind
      omega
  · obtain ⟨account, place, hin, hg, hroute⟩ :=
      (mem_closing_guards_iff Rule.guardsIn_sweeping _).mp
        (List.mem_cons_of_mem _ List.mem_cons_self)
    cases hg
    rcases hroute with ⟨s, _, hloop, _⟩ | ⟨e, target, hlocated, hfills, hplace, _⟩
    · rw [Facts.loopBlocks_sweeping] at hloop
      exact absurd hloop (by decide)
    · exact ⟨e, target, place, hlocated, hfills, hplace, hin⟩

/-- A guard of the rule on closed accounts that is about no write of zeros: a call fills the data
with sevens. -/
theorem Rule.closing_guard_without_zeros :
    ∃ facts guards, Facts.build { functions := [.sweeping] } .sweeping = .ok facts ∧
      insecureAccountClose.guardsIn facts = .ok guards ∧
      ∃ g ∈ guards, g.kind = .dataClear ∧ ¬facts.WritesZeros g := by
  refine ⟨_, _, Facts.build_sweeping, Rule.guardsIn_sweeping, _,
    List.mem_cons_of_mem _ List.mem_cons_self, rfl, ?_⟩
  rintro ⟨account, place, _, _, ⟨s, _, hloop, _⟩ | ⟨e, target, value, hlocated, hfills, _, hvalue, hzero⟩⟩
  · rw [Facts.loopBlocks_sweeping] at hloop
    exact absurd hloop (by decide)
  · have hseven : ∀ l ∈ Facts.sweeping.located, l.2.kind = .call → l.2.fillValue? = some 5 := by decide
    rw [hseven _ hlocated hfills.kind] at hvalue
    obtain rfl := Option.some.inj hvalue
    obtain ⟨literal, hliteral, _, hvalue⟩ := hzero
    obtain rfl := Except.ok.inj hliteral
    exact absurd hvalue (by decide)

end AccountLint

import AccountLint.Proofs.Flow.Order
import AccountLint.Proofs.Total.Aliases

/-! Which assignment to a variable counts. One pass over the blocks records the first one that it
meets, and the pass meets a block after all blocks that strictly dominate it. So what is recorded
for a variable is never taken from a later assignment. -/
namespace AccountLint

namespace Function

variable {f : Function} {s : Stmt} {x : String}

/-- The variable that a statement assigns to: its target is a variable with a name. -/
def assignee? (f : Function) (s : Stmt) : Option String :=
  match s.kind, s.target with
  | .assign, some t =>
    match f.targetExpr t with
    | .ok target => if target.kind = .localVar then target.localName.filter (· != "") else none
    | .error _ => none
  | _, _ => none

private theorem assignee?_of_targetExpr {t : Target} {e : Expr} (hk : s.kind = .assign)
    (ht : s.target = some t) (he : f.targetExpr t = .ok e) :
    f.assignee? s = if e.kind = .localVar then e.localName.filter (· != "") else none := by
  simp [assignee?, hk, ht, he]

private theorem assignee?_eq_none (h : ∀ t, s.kind = .assign → s.target ≠ some t) :
    f.assignee? s = none := by
  unfold assignee?
  split
  · rename_i t hk ht
    exact absurd ht (h t hk)
  · rfl

/-- The expression that a statement assigns to a variable. -/
def assigned? (f : Function) (x : String) (s : Stmt) : Option Int :=
  if f.assignee? s = some x then some s.value else none

/-- The place that a statement assigns to a variable, if it is not below the variable itself. -/
def aliased? (f : Function) (x : String) (s : Stmt) : Option AccessPath :=
  if f.assignee? s = some x then
    (f.rawPath s.value).toOption.join.filter (·.root != .text x)
  else none

/-- A simple assignment to a variable: the value denotes a place that is not below the variable
itself. -/
def AssignsPlace (f : Function) (x : String) (s : Stmt) : Prop :=
  f.assignee? s = some x ∧ ∃ src, f.rawPath s.value = .ok (some src) ∧ src.root ≠ .text x

/-- A statement of a block, by its position. -/
def StmtAt (f : Function) (b : Int) (i : Nat) (s : Stmt) : Prop :=
  ∃ block ∈ f.blocks, block.id = b ∧ block.stmts[i]? = some s

/-- What it takes to find out what a statement assigns: an assignment is to an expression, and if
that is a variable then it can be told whether the value denotes a place. -/
structure Traceable (f : Function) (s : Stmt) : Prop where
  target : s.kind = .assign → ∀ v, s.target ≠ some (.other v)
  value : ∀ x, f.assignee? s = some x → ∃ z, f.rawPath s.value = .ok z

/-- A statement of a kind that no other of the kind comes before: neither in its block nor, if its
block can be reached, in a block that strictly dominates it. It is in a block that can be reached if
any of the kind is. -/
structure Foremost (f : Function) (kind : Stmt → Prop) (b : Int) (i : Nat) (s : Stmt) : Prop where
  stmtAt : f.StmtAt b i s
  ofKind : kind s
  first : ∀ j < i, ∀ t, f.StmtAt b j t → ¬kind t
  undominated : f.graph.Reaches f.entry b → ∀ c, f.graph.strictlyDominates c b = true →
    ∀ j t, f.StmtAt c j t → ¬kind t
  reached : (∃ c j t, f.graph.Reaches f.entry c ∧ f.StmtAt c j t ∧ kind t) → f.graph.Reaches f.entry b

private theorem assigned?_eq_some {v : Int} :
    f.assigned? x s = some v ↔ f.assignee? s = some x ∧ s.value = v := by
  unfold assigned?
  split <;> simp_all

private theorem aliased?_eq_some {src : AccessPath} :
    f.aliased? x s = some src ↔
      f.assignee? s = some x ∧ f.rawPath s.value = .ok (some src) ∧ src.root ≠ .text x := by
  unfold aliased?
  split
  · rename_i hx
    rw [Option.filter_eq_some_iff, bne_iff_ne]
    cases f.rawPath s.value with
    | error fault => simp [Except.toOption]
    | ok z => simp [Except.toOption, hx]
  · simp_all

private theorem isSome_assigned? : (f.assigned? x s).isSome = true ↔ f.assignee? s = some x := by
  simp only [Option.isSome_iff_exists, assigned?_eq_some, exists_and_left, exists_eq', and_true]

private theorem isSome_aliased? : (f.aliased? x s).isSome = true ↔ f.AssignsPlace x s := by
  simp only [Option.isSome_iff_exists, aliased?_eq_some, exists_and_left, AssignsPlace]

def stmtsOf (f : Function) (b : Int) : List Stmt := ((f.block b).toOption.map (·.stmts)).getD []

private theorem Valid.stmtAt_iff (hf : f.Valid) {b : Int} {i : Nat} :
    f.StmtAt b i s ↔ b ∈ f.graph.ids ∧ (f.stmtsOf b)[i]? = some s := by
  constructor
  · rintro ⟨block, hblock, rfl, hs⟩
    obtain ⟨hin, heq⟩ := hf.block_id hblock
    refine ⟨hf.mem_ids_iff.mpr hin, ?_⟩
    simpa [stmtsOf, heq, Except.toOption] using hs
  · rintro ⟨hb, hs⟩
    obtain ⟨block, hblock, heq, hid⟩ := hf.block_ok (hf.mem_ids_iff.mp hb)
    refine ⟨block, hblock, hid, ?_⟩
    simpa [stmtsOf, heq, Except.toOption] using hs

/-- A pass over all blocks meets every statement. -/
theorem Valid.mem_stmts (hf : f.Valid) {order : List Int}
    (hall : ∀ b, b ∈ order ↔ b ∈ f.graph.ids) :
    s ∈ order.flatMap f.stmtsOf ↔ ∃ b i, f.StmtAt b i s := by
  rw [List.mem_flatMap]
  constructor
  · rintro ⟨b, hb, hs⟩
    obtain ⟨i, hi⟩ := List.mem_iff_getElem?.mp hs
    exact ⟨b, i, hf.stmtAt_iff.mpr ⟨(hall b).mp hb, hi⟩⟩
  · rintro ⟨b, i, h⟩
    obtain ⟨hb, hi⟩ := hf.stmtAt_iff.mp h
    exact ⟨b, (hall b).mpr hb, List.mem_of_getElem? hi⟩

/-- The first statement of a kind that the pass meets is foremost. -/
theorem Valid.exists_foremost (hf : f.Valid) {order : List Int}
    (horder : f.graph.visitOrder = .ok order) {β : Type} {g : Stmt → Option β} {v : β}
    (h : (order.flatMap f.stmtsOf).findSome? g = some v) :
    ∃ b i s, g s = some v ∧ f.Foremost (fun t => (g t).isSome = true) b i s := by
  rw [findSome?_flatMap] at h
  obtain ⟨before, b, after, hsplit, hb, hbefore⟩ := List.findSome?_eq_some_iff.mp h
  obtain ⟨earlier, s, later, hstmts, hs, hearlier⟩ := List.findSome?_eq_some_iff.mp hb
  have hblocks : f.blocks ≠ [] := by
    intro hnil
    have hempty : f.graph.visitOrder = .ok [] := by simp [Graph.visitOrder, graph, hnil]
    have heq : order = [] := Except.ok.inj (horder.symm.trans hempty)
    simp [heq] at hsplit
  have hne : f.graph.edges ≠ [] := by simpa [graph] using hblocks
  obtain ⟨reached, hpaths, hvisits⟩ := hf.visitOrder_eq_ok hblocks
  have heq : order = f.graph.withOthers reached := Except.ok.inj (horder.symm.trans hvisits)
  have hin : b ∈ f.graph.ids := by
    rw [← hpaths.mem_withOthers fun c => hf.mem_ids_of_reaches hblocks, ← heq, hsplit]
    simp
  -- what precedes the block in the order has been passed without a find
  have hpassed : ∀ c, Precedes order c b → ∀ j t, f.StmtAt c j t → ¬(g t).isSome = true := by
    intro c hc j t ht
    have hnodup : (before ++ b :: after).Nodup := by
      rw [← hsplit, heq]
      exact hpaths.nodup_withOthers hf.nodup_ids
    rw [hsplit] at hc
    have hnone := List.findSome?_eq_none_iff.mp (hbefore c (hc.mem_before hnodup))
    have hmem : t ∈ f.stmtsOf c := List.mem_of_getElem? (hf.stmtAt_iff.mp ht).2
    simp [hnone t hmem]
  refine ⟨b, earlier.length, s, hs, ?_, by simp [hs], ?_, ?_, ?_⟩
  · apply hf.stmtAt_iff.mpr
    simp [hin, hstmts]
  · intro j hj t ht
    have hget := (hf.stmtAt_iff.mp ht).2
    rw [hstmts, List.getElem?_append_left hj] at hget
    simp [hearlier t (List.mem_of_getElem? hget)]
  · intro hreached c hc
    apply hpassed
    rw [heq]
    obtain ⟨hcb, hdominates⟩ := (Graph.strictlyDominates_eq_true_iff hf.nodup_ids hne).mp hc
    exact hpaths.precedes_dominated hreached hdominates hcb
  · rintro ⟨c, j, t, hreached, ht, hkind⟩
    by_contra hother
    apply hpassed c _ j t ht hkind
    rw [heq]
    exact hpaths.precedes_other hreached hin hother

/-- The first find of a pass is there if a statement of the kind is, and comes from a foremost one.
-/
theorem Valid.findSome?_spec (hf : f.Valid) {order : List Int}
    (horder : f.graph.visitOrder = .ok order) (hall : ∀ b, b ∈ order ↔ b ∈ f.graph.ids) {β : Type}
    {g : Stmt → Option β} {kind : Stmt → Prop} (hkind : ∀ t, (g t).isSome = true ↔ kind t)
    {found : Option β} (hfound : found = (order.flatMap f.stmtsOf).findSome? g) :
    (found.isSome = true ↔ ∃ b i t, f.StmtAt b i t ∧ kind t) ∧
      ∀ v, found = some v → ∃ b i s, f.Foremost kind b i s ∧ g s = some v := by
  constructor
  · rw [hfound, List.findSome?_isSome_iff]
    constructor
    · rintro ⟨t, ht, hsome⟩
      obtain ⟨b, i, hat⟩ := (hf.mem_stmts hall).mp ht
      exact ⟨b, i, t, hat, (hkind t).mp hsome⟩
    · rintro ⟨b, i, t, hat, hk⟩
      exact ⟨t, (hf.mem_stmts hall).mpr ⟨b, i, hat⟩, (hkind t).mpr hk⟩
  · intro v hv
    obtain ⟨b, i, s, hs, hforemost⟩ := hf.exists_foremost horder (hfound.symm.trans hv)
    obtain rfl : (fun t => (g t).isSome = true) = kind := funext fun t => propext (hkind t)
    exact ⟨b, i, s, hforemost, hs⟩

/-- Where names are texts and targets are expressions, all statements are traceable. -/
theorem Valid.traceable (hf : f.Valid)
    (hnames : ∀ e ∈ f.exprs, ∀ n, e.name = some n → ∃ text, n = .text text)
    (htargets : ∀ b i s v, f.StmtAt b i s → s.target ≠ some (.other v)) {b : Int} {i : Nat}
    (hs : f.StmtAt b i s) : f.Traceable s := by
  refine ⟨fun _ v => htargets b i s v hs, fun x _ => ?_⟩
  obtain ⟨block, hblock, _, hget⟩ := hs
  have hvalue := hf.value block hblock s (List.mem_of_getElem? hget)
  have hpath : Yields (fun _ => False) (FitPlace fun _ => False) (f.rawPath s.value) :=
    hf.rawPathFrom_yields (fun e he n hn => Or.inl (hnames e he n hn)) _ hvalue
  obtain ⟨z, hz, _⟩ := Yields.ok_iff.mp hpath
  exact ⟨z, hz⟩

end Function

namespace Aliases

variable {f : Function} {a a' : Aliases} {s : Stmt} {done : List Stmt}

/-- Adds an entry to a table unless its key is there. -/
def addEntry {β : Type} (table : List (String × β)) (x : String) (v : β) : List (String × β) :=
  if (table.lookup x).isSome then table else table ++ [(x, v)]

private theorem lookup_addEntry {β : Type} (table : List (String × β)) (x y : String) (v : β) :
    (addEntry table x v).lookup y = (table.lookup y).or (if x = y then some v else none) := by
  unfold addEntry
  by_cases hxy : x = y
  · subst hxy
    cases hx : table.lookup x with
    | some w => simp [hx]
    | none => simp [hx, List.lookup_append]
  · have hyx : (y == x) = false := beq_eq_false_iff_ne.mpr (Ne.symm hxy)
    split <;> simp [List.lookup_append, List.lookup_cons, hyx]

private theorem lookup_elim_addEntry {β : Type} (table : List (String × β)) (x y : String)
    (z : Option β) :
    (z.elim table (addEntry table x)).lookup y = (table.lookup y).or (if x = y then z else none) := by
  cases z with
  | none => simp
  | some v => exact lookup_addEntry table x y v

/-- An assignment to a variable fails only where it cannot be told what place the value denotes.
Otherwise it adds to both tables, to that of the places only one that is not below the variable. -/
theorem assign_eq (a : Aliases) (x : String) (value : Int) :
    a.assign x value = (a.function.rawPath value).map fun z =>
      { a with
        definitions := addEntry a.definitions x value
        sources := (z.filter (·.root != .text x)).elim a.sources (addEntry a.sources x) } := by
  unfold assign
  extract_lets b
  have hb : b = { a with definitions := addEntry a.definitions x value } := by
    unfold b addEntry
    split <;> rfl
  rw [hb]
  cases a.function.rawPath value with
  | error fault => rfl
  | ok z =>
    cases z with
    | none => rfl
    | some src =>
      simp only [bind, Except.bind, Except.map, Option.filter_some, bne]
      cases src.root == .text x with
      | true => simp [pure, Except.pure]
      | false =>
        simp only [Bool.or_false, Bool.not_false, if_true, Option.elim_some]
        unfold addEntry
        split <;> rfl

/-- An assignment to a variable is recorded behind those that were recorded before. -/
theorem assign_eq_ok {x : String} {value : Int} (h : a.assign x value = .ok a') :
    ∃ z, a.function.rawPath value = .ok z ∧ a'.function = a.function ∧
      (∀ y, a'.definitions.lookup y =
        (a.definitions.lookup y).or (if x = y then some value else none)) ∧
      ∀ y, a'.sources.lookup y =
        (a.sources.lookup y).or (if x = y then z.filter (·.root != .text x) else none) := by
  rw [assign_eq] at h
  cases hz : a.function.rawPath value with
  | error fault => simp [hz, Except.map] at h
  | ok z =>
    rw [hz] at h
    obtain rfl := Except.ok.inj h
    exact ⟨z, rfl, rfl, fun y => lookup_addEntry .., fun y => lookup_elim_addEntry ..⟩

/-- What a statement does to the aliases depends on the variable that it assigns to. -/
theorem stmt_eq
    (h : s.kind = .assign → ∀ t, s.target = some t → ∃ e, a.function.targetExpr t = .ok e) :
    a.stmt s = (a.function.assignee? s).elim (.ok a) fun x => a.assign x s.value := by
  unfold Aliases.stmt
  split
  · rename_i t hk ht
    obtain ⟨e, he⟩ := h hk t ht
    rw [Function.assignee?_of_targetExpr hk ht he]
    simp only [he, bind, Except.bind]
    split
    · rename_i x hkind hname
      by_cases hx : x = ""
      · simp [hkind, hname, hx, Option.filter, pure, Except.pure]
      · simp [hkind, hname, hx, Option.filter]
    · rename_i hother
      by_cases hkind : e.kind = .localVar
      · have hname : e.localName = none := by
          rw [Option.eq_none_iff_forall_ne_some]
          exact fun x => hother x hkind
        simp [hname, pure, Except.pure]
      · simp [hkind, pure, Except.pure]
  · rename_i hother
    rw [Function.assignee?_eq_none hother]
    rfl

private theorem stmt_eq_ok (h : a.stmt s = .ok a') :
    (s.kind = .assign → ∀ v, s.target ≠ some (.other v)) ∧
      (a.function.assignee? s = none ∧ a' = a ∨
        ∃ x, a.function.assignee? s = some x ∧ a.assign x s.value = .ok a') := by
  have htargets : s.kind = .assign → ∀ t, s.target = some t →
      ∃ e, a.function.targetExpr t = .ok e := by
    intro hk t ht
    unfold Aliases.stmt at h
    rw [hk, ht] at h
    obtain ⟨e, he, _⟩ := bind_eq_ok.mp h
    exact ⟨e, he⟩
  constructor
  · intro hk v hv
    obtain ⟨e, he⟩ := htargets hk _ hv
    cases he
  · rw [stmt_eq htargets] at h
    cases hx : a.function.assignee? s with
    | none =>
      rw [hx] at h
      exact Or.inl ⟨rfl, (Except.ok.inj h).symm⟩
    | some x =>
      rw [hx] at h
      exact Or.inr ⟨x, rfl, h⟩

/-- What has been recorded after some statements: for every variable the first of them that counts.
-/
structure Recorded (f : Function) (done : List Stmt) (a : Aliases) : Prop where
  function : a.function = f
  definitions : ∀ x, a.definitions.lookup x = done.findSome? (f.assigned? x)
  sources : ∀ x, a.sources.lookup x = done.findSome? (f.aliased? x)
  traceable : ∀ s ∈ done, f.Traceable s

private theorem Recorded.stmt (h : a.Recorded f done) (hs : a.stmt s = .ok a') :
    a'.Recorded f (done ++ [s]) := by
  obtain ⟨htarget, hcases⟩ := stmt_eq_ok hs
  have htraceable : (∀ x, f.assignee? s = some x → ∃ z, f.rawPath s.value = .ok z) →
      ∀ t ∈ done ++ [s], f.Traceable t := by
    intro hvalue t ht
    rcases List.mem_append.mp ht with ht | ht
    · exact h.traceable t ht
    · rw [List.mem_singleton.mp ht]
      exact ⟨htarget, hvalue⟩
  rw [h.function] at hcases
  rcases hcases with ⟨hnone, rfl⟩ | ⟨x, hx, hassign⟩
  · refine ⟨h.function, fun y => ?_, fun y => ?_, htraceable fun x hx => ?_⟩
    · rw [List.findSome?_append, h.definitions y]
      simp [Function.assigned?, hnone]
    · rw [List.findSome?_append, h.sources y]
      simp [Function.aliased?, hnone]
    · cases hnone.symm.trans hx
  · obtain ⟨z, hz, hfunction, hdefinitions, hsources⟩ := assign_eq_ok hassign
    rw [h.function] at hz hfunction
    refine ⟨hfunction, fun y => ?_, fun y => ?_, htraceable fun _ _ => ⟨z, hz⟩⟩
    · rw [hdefinitions, h.definitions y, List.findSome?_append]
      simp [Function.assigned?, hx]
    · rw [hsources, h.sources y, List.findSome?_append]
      by_cases hxy : x = y
      · subst hxy
        simp [Function.aliased?, hx, hz, Except.toOption]
      · simp [Function.aliased?, hx, hxy]

private theorem Recorded.block {b : Int} (h : a.Recorded f done) (hb : a.block b = .ok a') :
    a'.Recorded f (done ++ f.stmtsOf b) := by
  obtain ⟨block, hblock, hb⟩ := bind_eq_ok.mp hb
  rw [h.function] at hblock
  have hstmts : f.stmtsOf b = block.stmts := by simp [Function.stmtsOf, hblock, Except.toOption]
  rw [hstmts]
  refine foldlM_invariant (fun past a => a.Recorded f (done ++ past)) (by simpa using h) ?_ hb
  intro past s rest c c' _ hc hs
  rw [← List.append_assoc]
  exact hc.stmt hs

/-- The aliases of a function are what one pass over its blocks records. -/
theorem Recorded.of_eq_ok {order : List Int} (horder : f.graph.visitOrder = .ok order)
    (h : Aliases.of f = .ok a) : a.Recorded f (order.flatMap f.stmtsOf) := by
  obtain ⟨order', horder', h⟩ := bind_eq_ok.mp h
  obtain rfl : order = order' := Except.ok.inj (horder.symm.trans horder')
  have hstart : Recorded f [] ⟨f, [], []⟩ := by
    refine ⟨rfl, fun x => rfl, fun x => rfl, fun s hs => ?_⟩
    cases hs
  refine foldlM_invariant (fun past a => a.Recorded f (past.flatMap f.stmtsOf)) hstart ?_ h
  intro past b rest c c' _ hc hb
  rw [List.flatMap_append]
  simpa using hc.block hb

private theorem function_stmt (h : a.stmt s = .ok a') : a'.function = a.function := by
  rcases (stmt_eq_ok h).2 with ⟨_, rfl⟩ | ⟨x, _, hassign⟩
  · rfl
  · obtain ⟨_, _, hfunction, _⟩ := assign_eq_ok hassign
    exact hfunction

/-- A statement that is traceable can be taken into account. -/
theorem stmt_ok (hf : a.function.Valid) {b : Int} {i : Nat} (hs : a.function.StmtAt b i s)
    (htraceable : a.function.Traceable s) : ∃ a', a.stmt s = .ok a' := by
  obtain ⟨block, hblock, _, hget⟩ := hs
  rw [stmt_eq]
  · cases hx : a.function.assignee? s with
    | none => exact ⟨a, rfl⟩
    | some x =>
      obtain ⟨z, hz⟩ := htraceable.value x hx
      rw [Option.elim_some, assign_eq, hz]
      exact ⟨_, rfl⟩
  · intro hk t ht
    cases t with
    | other v => exact absurd ht (htraceable.target hk v)
    | expr k =>
      obtain ⟨e, he, _⟩ := hf.expr_ok (hf.target block hblock s (List.mem_of_getElem? hget) k ht)
      exact ⟨e, he⟩

/-- If all statements are traceable, the aliases can be found. -/
theorem of_ok (hf : f.Valid) (htraceable : ∀ b i s, f.StmtAt b i s → f.Traceable s) :
    ∃ a, Aliases.of f = .ok a := by
  obtain ⟨order, horder, hall⟩ := hf.exists_visitOrder
  have hrun : Yields (fun _ => False) (fun a => a.function = f) (Aliases.of f) := by
    unfold Aliases.of
    rw [horder]
    refine Yields.foldlM rfl fun a ha b hb => ?_
    obtain ⟨block, hmem, hblock, hid⟩ := hf.block_ok (hf.mem_ids_iff.mp ((hall b).mp hb))
    unfold Aliases.block
    rw [ha, hblock]
    refine Yields.foldlM ha fun c hc s hs => ?_
    obtain ⟨i, hi⟩ := List.mem_iff_getElem?.mp hs
    have hat : f.StmtAt b i s := ⟨block, hmem, hid, hi⟩
    obtain ⟨c', hc'⟩ := stmt_ok (hc ▸ hf) (hc ▸ hat) (hc ▸ htraceable b i s hat)
    rw [hc']
    exact (function_stmt hc').trans hc
  obtain ⟨a, ha, _⟩ := Yields.ok_iff.mp hrun
  exact ⟨a, ha⟩

/-- What is recorded for a variable is never taken from a later assignment: the place that it stands
for comes from a foremost simple assignment to it, and its definition from a foremost assignment.
Something is recorded just if there is such an assignment. -/
theorem of_records_foremost {f : Function} (hf : f.validate = .ok ()) :
    ((∃ a, Aliases.of f = .ok a) ↔ ∀ b i s, f.StmtAt b i s → f.Traceable s) ∧
    ((∀ e ∈ f.exprs, ∀ n, e.name = some n → ∃ text, n = .text text) →
      (∀ b i s v, f.StmtAt b i s → s.target ≠ some (.other v)) → ∃ a, Aliases.of f = .ok a) ∧
    ∀ a, Aliases.of f = .ok a → ∀ x,
      ((a.source? (.text x)).isSome = true ↔ ∃ b i s, f.StmtAt b i s ∧ f.AssignsPlace x s) ∧
      (∀ src, a.source? (.text x) = some src →
        ∃ b i s, f.Foremost (f.AssignsPlace x) b i s ∧ f.rawPath s.value = .ok (some src)) ∧
      ((a.definition? x).isSome = true ↔ ∃ b i s, f.StmtAt b i s ∧ f.assignee? s = some x) ∧
      ∀ v, a.definition? x = some v →
        ∃ b i s, f.Foremost (fun t => f.assignee? t = some x) b i s ∧ s.value = v := by
  have hvalid := Function.Valid.of_validate hf
  obtain ⟨order, horder, hall⟩ := hvalid.exists_visitOrder
  refine ⟨⟨?_, of_ok hvalid⟩, ?_, ?_⟩
  · rintro ⟨a, ha⟩ b i s hs
    exact (Recorded.of_eq_ok horder ha).traceable s ((hvalid.mem_stmts hall).mpr ⟨b, i, hs⟩)
  · intro hnames htargets
    exact of_ok hvalid fun b i s hs => hvalid.traceable hnames htargets hs
  · intro a ha x
    have hrecorded := Recorded.of_eq_ok horder ha
    obtain ⟨hsome, hforemost⟩ := hvalid.findSome?_spec horder hall
      (fun t => Function.isSome_aliased?) (hrecorded.sources x)
    obtain ⟨hsome', hforemost'⟩ := hvalid.findSome?_spec horder hall
      (fun t => Function.isSome_assigned?) (hrecorded.definitions x)
    refine ⟨hsome, fun src hsrc => ?_, hsome', fun v hv => ?_⟩
    · obtain ⟨b, i, s, h, hs⟩ := hforemost src hsrc
      exact ⟨b, i, s, h, (Function.aliased?_eq_some.mp hs).2.1⟩
    · obtain ⟨b, i, s, h, hs⟩ := hforemost' v hv
      exact ⟨b, i, s, h, (Function.assigned?_eq_some.mp hs).2⟩

end Aliases

/-- A function that assigns `x = x`, then `x = a` or `x = b.owner` on two branches, then `x = c`,
and `x = d` where it is never reached. -/
def Function.reassigning : Function :=
  { name := "reassign"
    exprs := [
      { id := 0, kind := .localVar, localName := "x" },
      { id := 1, kind := .localVar, localName := "x" },
      { id := 2, kind := .localVar, localName := "a" },
      { id := 3, kind := .localVar, localName := "b" },
      { id := 4, kind := .field, name := some (.text "owner"), receiver := some 3 },
      { id := 5, kind := .localVar, localName := "c" },
      { id := 6, kind := .localVar, localName := "d" }]
    blocks := [
      { id := 0, stmts := [{ kind := .assign, target := some (.expr 0), value := 1 }]
        successors := [1, 2] },
      { id := 1, stmts := [{ kind := .assign, target := some (.expr 0), value := 2 }]
        successors := [3] },
      { id := 2, stmts := [{ kind := .assign, target := some (.expr 0), value := 4 }]
        successors := [3] },
      { id := 3, stmts := [{ kind := .assign, target := some (.expr 0), value := 5 }] },
      { id := 4, stmts := [{ kind := .assign, target := some (.expr 0), value := 6 }]
        successors := [3] }] }

theorem Aliases.of_records_foremost_reassigning :
    Function.reassigning.validate = .ok () ∧ ∃ a, Aliases.of .reassigning = .ok a ∧
      (∃ src, a.source? (.text "x") = some src ∧ src = ⟨.text "b", [.text "owner"]⟩ ∧
        ∃ b i s, Function.reassigning.Foremost (Function.reassigning.AssignsPlace "x") b i s ∧
          Function.reassigning.rawPath s.value = .ok (some src)) ∧
      ∃ v, a.definition? "x" = some v ∧ v = 1 ∧ ∃ b i s, s.value = v ∧
        Function.reassigning.Foremost (fun t => Function.reassigning.assignee? t = some "x") b i s := by
  have hf : Function.reassigning.validate = .ok () := rfl
  have hnames : ∀ e ∈ Function.reassigning.exprs, ∀ n, e.name = some n → ∃ text, n = .text text := by
    simp [Function.reassigning]
  have htargets : ∀ b i s v, Function.reassigning.StmtAt b i s → s.target ≠ some (.other v) := by
    rintro b i s v ⟨block, hblock, _, hs⟩
    have hall : ∀ block ∈ Function.reassigning.blocks, ∀ s ∈ block.stmts,
        s.target = some (.expr 0) := by decide
    rw [hall block hblock s (List.mem_of_getElem? hs)]
    simp
  have hvalue : (Aliases.of .reassigning).toOption.map (fun a =>
      (a.source? (.text "x"), a.definition? "x")) =
        some (some ⟨.text "b", [.text "owner"]⟩, some 1) := by decide +kernel
  obtain ⟨_, hok, hrecords⟩ := of_records_foremost hf
  obtain ⟨a, ha⟩ := hok hnames htargets
  obtain ⟨_, hsource, _, hdefinition⟩ := hrecords a ha "x"
  rw [ha] at hvalue
  obtain ⟨hsrc, hdef⟩ := Prod.mk.inj (Option.some.inj hvalue)
  obtain ⟨b, i, s, hforemost, hs⟩ := hsource _ hsrc
  obtain ⟨c, j, t, hforemost', ht⟩ := hdefinition _ hdef
  exact ⟨hf, a, ha, ⟨_, hsrc, rfl, b, i, s, hforemost, hs⟩, _, hdef, rfl, c, j, t, ht, hforemost'⟩

end AccountLint

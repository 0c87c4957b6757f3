import AccountLint.Build.FunctionDraft
import AccountLint.Proofs.Build.TypeTable
import AccountLint.Proofs.Sorting

/-! What stays true of a draft while it grows. Its types are in the table, no block has a successor
twice, and ids are positions of what came before, so that the function passes validation at any
time. -/
namespace AccountLint

namespace FunctionDraft

variable {d d' : FunctionDraft} {p q : Program} {may : Fault → Prop}

def HasExpr (d : FunctionDraft) (i : Int) : Prop := 0 ≤ i ∧ i < d.exprs.length

def HasBlock (d : FunctionDraft) (i : Int) : Prop := 0 ≤ i ∧ i < d.stmts.length

instance (d : FunctionDraft) (i : Int) : Decidable (d.HasBlock i) := inferInstanceAs (Decidable (_ ∧ _))

theorem length_push (d : FunctionDraft) (e : Expr) :
    (d.push e).2.exprs.length = d.exprs.length + 1 := by
  simp [push]

private theorem HasExpr.push {i : Int} (h : d.HasExpr i) (e : Expr) : (d.push e).2.HasExpr i := by
  have hlt := h.2
  refine ⟨h.1, ?_⟩
  rw [length_push]
  omega

theorem hasExpr_push (d : FunctionDraft) (e : Expr) : (d.push e).2.HasExpr (d.push e).1 := by
  refine ⟨Int.natCast_nonneg _, ?_⟩
  rw [length_push]
  show (d.exprs.length : Int) < _
  omega

theorem exprs_declare (d : FunctionDraft) (name : Name) (type : Option TypeRef) :
    (d.declare name type).exprs = d.exprs := by
  unfold declare
  split
  · rfl
  · rfl

theorem length_le_assign (d : FunctionDraft) (target : Value) (value : Int) :
    d.exprs.length ≤ (d.assign target value).exprs.length := by
  unfold assign
  split
  · exact Nat.le_trans (Nat.le_succ _) (Nat.le_of_eq (length_push d _).symm)
  · exact Nat.le_refl _
  · exact Nat.le_refl _

/-- The types that a draft mentions are in the table, and its constructors have an operand for each
of their fields. -/
structure Grounded (d : FunctionDraft) (p : Program) : Prop where
  exprType : ∀ e ∈ d.exprs, p.InTable e.type
  construct : ∀ e ∈ d.exprs, e.kind = .construct → e.fieldNames.length = e.operands.length
  paramType : ∀ q ∈ d.params, p.InTable q.type
  localType : ∀ v ∈ d.locals, p.InTable v.type

namespace Grounded

theorem of_same (h : d.Grounded p) (hexprs : d'.exprs = d.exprs) (hparams : d'.params = d.params)
    (hlocals : d'.locals = d.locals) : d'.Grounded p where
  exprType := hexprs ▸ h.exprType
  construct := hexprs ▸ h.construct
  paramType := hparams ▸ h.paramType
  localType := hlocals ▸ h.localType

theorem push (h : d.Grounded p) {e : Expr} (htype : p.InTable e.type)
    (hconstruct : e.kind = .construct → e.fieldNames.length = e.operands.length) :
    (d.push e).2.Grounded p where
  exprType := by
    intro e' he'
    rcases List.mem_append.mp he' with he' | he'
    · exact h.exprType e' he'
    · obtain rfl := List.mem_singleton.mp he'
      exact htype
  construct := by
    intro e' he'
    rcases List.mem_append.mp he' with he' | he'
    · exact h.construct e' he'
    · obtain rfl := List.mem_singleton.mp he'
      exact hconstruct
  paramType := h.paramType
  localType := h.localType

theorem param (h : d.Grounded p) (name : Name) {type : Option TypeRef} (htype : p.InTable type) :
    (d.param name type).Grounded p := by
  refine ⟨h.exprType, h.construct, fun v hv => ?_, h.localType⟩
  rcases List.mem_append.mp hv with hv | hv
  · exact h.paramType v hv
  · obtain rfl := List.mem_singleton.mp hv
    exact htype

theorem declare (h : d.Grounded p) (name : Name) {type : Option TypeRef} (htype : p.InTable type) :
    (d.declare name type).Grounded p := by
  unfold FunctionDraft.declare
  split
  · exact h
  · refine ⟨h.exprType, h.construct, h.paramType, fun v hv => ?_⟩
    rcases List.mem_append.mp hv with hv | hv
    · exact h.localType v hv
    · obtain rfl := List.mem_singleton.mp hv
      exact htype

theorem declared (h : d.Grounded p) (name : Name) : p.InTable (d.declared? name).join := by
  unfold declared?
  split
  · exact h.paramType _ (List.mem_of_find?_eq_some ‹_›)
  · cases hv : d.locals.find? fun v => v.name.same name with
    | none => exact Program.inTable_none
    | some v => exact h.localType v (List.mem_of_find?_eq_some hv)

private theorem var (h : d.Grounded p) (name : String) : (d.var name).2.Grounded p :=
  h.push (h.declared _) fun hkind => (by cases hkind)

theorem assign (h : d.Grounded p) (target : Value) (value : Int) :
    (d.assign target value).Grounded p := by
  unfold FunctionDraft.assign
  split
  · exact (h.var _).of_same rfl rfl rfl
  · exact h.of_same rfl rfl rfl
  · exact h.of_same rfl rfl rfl

/-- The type of an expression is in the table. -/
theorem typeOf (h : d.Grounded p) {i : Int} (hi : d.HasExpr i) :
    Yields may p.InTable (d.typeOf i) := by
  obtain ⟨e, he, _⟩ := fromEnd?_of_inRange hi.1 hi.2
  unfold FunctionDraft.typeOf
  rw [he]
  exact h.exprType e (mem_of_fromEnd? he)

theorem letVar (h : d.Grounded p) (name : Name) {i : Int} (hi : d.HasExpr i) {type : Option TypeRef}
    (htype : p.InTable type) : Yields may (·.Grounded p) (d.letVar name i type) := by
  unfold FunctionDraft.letVar
  cases type with
  | some r => exact (h.declare name htype).assign name i
  | none => exact (h.typeOf hi).bind fun own hown => (h.declare name hown).assign name i

/-- A longer table has all types of a shorter one. -/
theorem grow (h : d.Grounded p) (hle : p.types.length ≤ q.types.length) : d.Grounded q := by
  have hin : ∀ r, p.InTable r → q.InTable r := by
    intro r hr t ht
    obtain ⟨i, rfl, h0, hlt⟩ := hr t ht
    exact ⟨i, rfl, h0, by omega⟩
  exact ⟨fun e he => hin _ (h.exprType e he), h.construct, fun v hv => hin _ (h.paramType v hv),
    fun v hv => hin _ (h.localType v hv)⟩

end Grounded

section Calls

variable {table : TypeTable} {type : Option TypeRef}

/-- The id and the draft after adding an expression that is made of expressions of the draft. -/
def Pushed (p : Program) (d : FunctionDraft) (r : Int × FunctionDraft) : Prop :=
  ∃ e : Expr, r = d.push e ∧ p.InTable e.type ∧
    (e.kind = .construct → e.fieldNames.length = e.operands.length) ∧ ∀ i ∈ e.children, d.HasExpr i

theorem pushed_of_kind_ne {e : Expr} (htype : p.InTable e.type)
    (hkind : (e.kind == .construct) = false) (hchildren : ∀ i ∈ e.children, d.HasExpr i) :
    Pushed p d (d.push e) :=
  ⟨e, rfl, htype, fun h => absurd h (beq_eq_false_iff_ne.mp hkind), hchildren⟩

/-- An expression without parts. -/
theorem pushed_leaf {e : Expr} (htype : p.InTable e.type) (hkind : (e.kind == .construct) = false)
    (hchildren : e.children = []) : Pushed p d (d.push e) := by
  refine pushed_of_kind_ne htype hkind fun i hi => ?_
  rw [hchildren] at hi
  cases hi

theorem Grounded.field (ht : table.Grounded p) (h : d.Grounded p) {base : Int}
    (hbase : d.HasExpr base) (name : Name) (htype : p.InTable type) :
    Yields may (Pushed p d) (d.field table base name type) := by
  have hpushed : ∀ r, p.InTable r → Pushed p d (d.push
      { id := 0, kind := .field, receiver := some base, name := some name, type := r }) :=
    fun r hr => pushed_of_kind_ne hr rfl fun i hi => List.mem_singleton.mp hi ▸ hbase
  unfold FunctionDraft.field
  cases type with
  | some r => exact hpushed _ htype
  | none =>
    refine (h.typeOf hbase).bind fun own hown => ?_
    exact (ht.fieldType hown name).bind hpushed

theorem Grounded.deref (h : d.Grounded p) {base : Int} (hbase : d.HasExpr base) :
    Yields may (Pushed p d) (d.deref base) :=
  (h.typeOf hbase).bind fun _ hown =>
    pushed_of_kind_ne hown rfl fun _ hi => List.mem_singleton.mp hi ▸ hbase

theorem Grounded.ref (h : d.Grounded p) {base : Int} (hbase : d.HasExpr base) (mutable : Bool) :
    Yields may (Pushed p d) (d.ref base mutable) :=
  (h.typeOf hbase).bind fun _ hown =>
    pushed_of_kind_ne hown rfl fun _ hi => List.mem_singleton.mp hi ▸ hbase

theorem Grounded.index (ht : table.Grounded p) (h : d.Grounded p) {base : Int}
    {position : Option Int} (hparts : ∀ i ∈ base :: position.toList, d.HasExpr i) :
    Yields may (Pushed p d) (d.index table base position) := by
  refine (h.typeOf (hparts base List.mem_cons_self)).bind fun own hown => ?_
  exact (ht.elementType hown).bind fun r hr => pushed_of_kind_ne hr rfl hparts

/-- A method without a type cannot be called where the table cannot tell a type. -/
def CannotCall (d : FunctionDraft) (table : TypeTable) (receiver : Int) (name : Name)
    (type : Option TypeRef) (e : Fault) : Prop :=
  type = none ∧ ∃ own, d.typeOf receiver = .ok own ∧ table.CannotTell own name e

theorem Grounded.method (ht : table.Grounded p) (h : d.Grounded p) {receiver : Int} (name : Name)
    {args : List Int} (hparts : ∀ i ∈ receiver :: args, d.HasExpr i) (htype : p.InTable type) :
    Yields (d.CannotCall table receiver name type) (Pushed p d)
      (d.method table receiver name args type) := by
  have hpushed : ∀ r, p.InTable r → Pushed p d (d.push
      { id := 0, kind := .call, name := some name, receiver := some receiver, operands := args
        type := r }) := fun r hr => pushed_of_kind_ne hr rfl hparts
  unfold FunctionDraft.method
  cases type with
  | some r => exact hpushed _ htype
  | none =>
    obtain ⟨own, hown, hin⟩ := Yields.ok_iff.mp (h.typeOf (hparts receiver List.mem_cons_self))
    dsimp only
    rw [hown]
    exact ((ht.methodType_yields hin name).weaken fun _ he => ⟨rfl, own, hown, he⟩).bind hpushed

theorem Grounded.method_fails (ht : table.Grounded p) (h : d.Grounded p) {receiver : Int}
    {name : Name} {args : List Int} (hreceiver : d.HasExpr receiver) {e : Fault}
    (he : d.CannotCall table receiver name type e) :
    d.method table receiver name args type = .error e := by
  obtain ⟨rfl, own, hown, htell⟩ := he
  obtain ⟨own', hown', hin⟩ := Yields.ok_iff.mp (h.typeOf hreceiver)
  obtain rfl := Except.ok.inj (hown.symm.trans hown')
  unfold FunctionDraft.method
  dsimp only
  rw [hown, show ∀ k, (Except.ok _ >>= k) = k _ from fun _ => rfl,
    (ht.methodType_eq_error_iff hin).mpr htell]
  rfl

end Calls

/-- There is a block, every block has its list of successors, and none is in a list twice. -/
structure Branching (d : FunctionDraft) : Prop where
  hasBlock : d.stmts ≠ []
  length : d.successors.length = d.stmts.length
  nodup : ∀ out ∈ d.successors, out.Nodup

namespace Branching

private theorem new (name : String) (location : Location) : (new name location).Branching := by
  refine ⟨List.cons_ne_nil _ _, rfl, fun out hout => ?_⟩
  obtain rfl := List.mem_singleton.mp hout
  exact List.nodup_nil

theorem of_same (h : d.Branching) (hstmts : d'.stmts.length = d.stmts.length)
    (hsuccessors : d'.successors = d.successors) : d'.Branching where
  hasBlock := by
    intro hnil
    rw [hnil] at hstmts
    exact h.hasBlock (List.length_eq_zero_iff.mp hstmts.symm)
  length := by rw [hsuccessors, hstmts, h.length]
  nodup := hsuccessors ▸ h.nodup

private theorem block (h : d.Branching) : d.block.2.Branching := by
  refine ⟨List.append_ne_nil_of_right_ne_nil _ (List.cons_ne_nil _ _), ?_, fun out hout => ?_⟩
  · show (d.successors ++ [[]]).length = (d.stmts ++ [[]]).length
    rw [List.length_append, List.length_append, h.length]
    rfl
  · rcases List.mem_append.mp hout with hout | hout
    · exact h.nodup out hout
    · obtain rfl := List.mem_singleton.mp hout
      exact List.nodup_nil

theorem addSuccessors (h : d.Branching) (n : Nat) (targets : List Int) :
    Branching { d with successors := d.successors.modify n fun out => targets.foldl addNew out } where
  hasBlock := h.hasBlock
  length := (List.length_modify _ _ _).trans h.length
  nodup := by
    intro out hout
    rcases mem_modify hout with hout | ⟨old, hold, rfl⟩
    · exact h.nodup out hout
    · exact nodup_foldl_addNew (h.nodup old hold) targets

end Branching

/-- The block at a position has the statements and successors of that position. -/
theorem getElem?_blocks {i : Nat} {b : Block} (h : d.function.blocks[i]? = some b) :
    b.id = i ∧ d.stmts[i]? = some b.stmts ∧ d.successors[i]? = some b.successors := by
  unfold function at h
  rw [List.getElem?_map, List.getElem?_zipIdx] at h
  obtain ⟨x, hx, rfl⟩ := Option.map_eq_some_iff.mp h
  obtain ⟨filled, hfilled, rfl⟩ := Option.map_eq_some_iff.mp hx
  obtain ⟨hstmts, hout⟩ := List.getElem?_zip_eq_some.mp hfilled
  exact ⟨congrArg Int.ofNat (Nat.zero_add i), hstmts, hout⟩

theorem mem_blocks {b : Block} (h : b ∈ d.function.blocks) :
    b.stmts ∈ d.stmts ∧ b.successors ∈ d.successors := by
  obtain ⟨i, hi⟩ := List.mem_iff_getElem?.mp h
  obtain ⟨_, hstmts, hout⟩ := getElem?_blocks hi
  exact ⟨List.mem_of_getElem? hstmts, List.mem_of_getElem? hout⟩

theorem Branching.length_blocks (h : d.Branching) : d.function.blocks.length = d.stmts.length := by
  unfold function
  rw [List.length_map, List.length_zipIdx, List.length_zip, h.length, Nat.min_self]

/-- A statement refers to expressions of the draft. -/
def HasStmt (d : FunctionDraft) (s : Stmt) : Prop :=
  d.HasExpr s.value ∧ ∀ t, s.target = some t → ∃ i, t = .expr i ∧ d.HasExpr i

/-- Ids are positions, and all references are to what is there: from an expression to expressions
before it, from a statement to expressions, and from a block to blocks. -/
structure Sound (d : FunctionDraft) (p : Program) : Prop where
  grounded : d.Grounded p
  branching : d.Branching
  current : d.HasBlock d.current
  successor : ∀ out ∈ d.successors, ∀ b ∈ out, d.HasBlock b
  stmt : ∀ own ∈ d.stmts, ∀ s ∈ own, d.HasStmt s
  exprId : ∀ {i : Nat} {e : Expr}, d.exprs[i]? = some e → e.id = i
  child : ∀ e ∈ d.exprs, ∀ c ∈ e.children, 0 ≤ c ∧ c < e.id

namespace Sound

theorem new (name : String) (location : Location) (p : Program) : (new name location).Sound p where
  grounded := ⟨fun e he => (by cases he), fun e he => (by cases he), fun v hv => (by cases hv),
    fun v hv => (by cases hv)⟩
  branching := .new name location
  current := ⟨Int.le_refl 0, Int.zero_lt_one⟩
  successor := by
    intro out hout b hb
    obtain rfl := List.mem_singleton.mp hout
    cases hb
  stmt := by
    intro own hown s hs
    obtain rfl := List.mem_singleton.mp hown
    cases hs
  exprId := fun h => (by cases h)
  child := fun e he => (by cases he)

/-- What is not about types depends on expressions and blocks only. -/
theorem of_same (h : d.Sound p) (hd' : d'.Grounded p) (hexprs : d'.exprs = d.exprs)
    (hstmts : d'.stmts = d.stmts) (hsuccessors : d'.successors = d.successors)
    (hcurrent : d'.current = d.current) : d'.Sound p := by
  have hexpr : ∀ i, d.HasExpr i → d'.HasExpr i := fun i hi => ⟨hi.1, hexprs ▸ hi.2⟩
  have hblock : ∀ b, d.HasBlock b → d'.HasBlock b := fun b hb => ⟨hb.1, hstmts ▸ hb.2⟩
  constructor
  case grounded => exact hd'
  case branching => exact h.branching.of_same (congrArg List.length hstmts) hsuccessors
  case current => exact hcurrent ▸ hblock _ h.current
  case successor => exact fun out hout b hb => hblock b (h.successor out (hsuccessors ▸ hout) b hb)
  case stmt =>
    intro own hown s hs
    obtain ⟨hvalue, htarget⟩ := h.stmt own (hstmts ▸ hown) s hs
    refine ⟨hexpr _ hvalue, fun t ht => ?_⟩
    obtain ⟨i, rfl, hi⟩ := htarget t ht
    exact ⟨i, rfl, hexpr i hi⟩
  case exprId => exact hexprs ▸ h.exprId
  case child => exact hexprs ▸ h.child

theorem grow (h : d.Sound p) (hle : p.types.length ≤ q.types.length) : d.Sound q :=
  ⟨h.grounded.grow hle, h.branching, h.current, h.successor, h.stmt, h.exprId, h.child⟩

/-- An expression may be made of expressions that are there. -/
theorem push (h : d.Sound p) {e : Expr} (htype : p.InTable e.type)
    (hconstruct : e.kind = .construct → e.fieldNames.length = e.operands.length)
    (hchildren : ∀ c ∈ e.children, d.HasExpr c) : (d.push e).2.Sound p where
  grounded := h.grounded.push htype hconstruct
  branching := h.branching.of_same rfl rfl
  current := h.current
  successor := h.successor
  stmt := by
    intro own hown s hs
    obtain ⟨hvalue, htarget⟩ := h.stmt own hown s hs
    refine ⟨hvalue.push e, fun t ht => ?_⟩
    obtain ⟨i, rfl, hi⟩ := htarget t ht
    exact ⟨i, rfl, hi.push e⟩
  exprId := by
    intro i e' he'
    rcases getElem?_snoc he' with hold | ⟨rfl, rfl⟩
    · exact h.exprId hold
    · rfl
  child := by
    intro e' he'
    rcases List.mem_append.mp he' with he' | he'
    · exact h.child e' he'
    · obtain rfl := List.mem_singleton.mp he'
      exact hchildren

/-- A statement may be about expressions that are there. -/
theorem append (h : d.Sound p) {s : Stmt} (hs : d.HasStmt s) : (d.append s).Sound p where
  grounded := h.grounded.of_same rfl rfl rfl
  branching := h.branching.of_same (List.length_modify _ _ _) rfl
  current := ⟨h.current.1, (List.length_modify _ _ _).symm ▸ h.current.2⟩
  successor := by
    intro out hout b hb
    exact ⟨(h.successor out hout b hb).1, (List.length_modify _ _ _).symm ▸ (h.successor out hout b hb).2⟩
  stmt := by
    intro own hown s' hs'
    rcases mem_modify hown with hown | ⟨old, hold, rfl⟩
    · exact h.stmt own hown s' hs'
    · rcases List.mem_append.mp hs' with hs' | hs'
      · exact h.stmt old hold s' hs'
      · obtain rfl := List.mem_singleton.mp hs'
        exact hs
  exprId := h.exprId
  child := h.child

private theorem var (h : d.Sound p) (name : String) : (d.var name).2.Sound p :=
  h.push (h.grounded.declared _) (fun hkind => (by cases hkind)) fun c hc => (by cases hc)

theorem assign (h : d.Sound p) {target : Value} {value : Int} (hvalue : d.HasExpr value)
    (htarget : (∃ s, target = .text s) ∨ ∃ i, target = .int i ∧ d.HasExpr i) :
    (d.assign target value).Sound p := by
  rcases htarget with ⟨s, rfl⟩ | ⟨i, rfl, hi⟩
  · refine (h.var s).append ⟨hvalue.push _, fun t ht => ?_⟩
    exact ⟨_, (Option.some.inj ht).symm, hasExpr_push d _⟩
  · refine h.append ⟨hvalue, fun t ht => ?_⟩
    exact ⟨i, (Option.some.inj ht).symm, hi⟩

theorem eval (h : d.Sound p) {value : Int} (hvalue : d.HasExpr value) : (d.eval value).Sound p :=
  h.append ⟨hvalue, fun t ht => (by cases ht)⟩

theorem declare (h : d.Sound p) (name : Name) {type : Option TypeRef} (htype : p.InTable type) :
    (d.declare name type).Sound p := by
  have hgrounded := h.grounded.declare name htype
  unfold FunctionDraft.declare at hgrounded ⊢
  split
  · exact h
  · rename_i hnew
    rw [if_neg hnew] at hgrounded
    exact h.of_same hgrounded rfl rfl rfl rfl

theorem block (h : d.Sound p) : d.block.2.Sound p where
  grounded := h.grounded.of_same rfl rfl rfl
  branching := h.branching.block
  current := by
    refine ⟨Int.natCast_nonneg _, ?_⟩
    show (d.stmts.length : Int) < (d.stmts ++ [[]]).length
    rw [List.length_append, List.length_singleton]
    omega
  successor := by
    intro out hout b hb
    rcases List.mem_append.mp hout with hout | hout
    · have hlt := (h.successor out hout b hb).2
      refine ⟨(h.successor out hout b hb).1, ?_⟩
      show b < (d.stmts ++ [[]]).length
      rw [List.length_append, List.length_singleton]
      omega
    · obtain rfl := List.mem_singleton.mp hout
      cases hb
  stmt := by
    intro own hown s hs
    rcases List.mem_append.mp hown with hown | hown
    · exact h.stmt own hown s hs
    · obtain rfl := List.mem_singleton.mp hown
      cases hs
  exprId := h.exprId
  child := h.child

theorem goto (h : d.Sound p) {b : Int} (hb : d.HasBlock b) :
    ∃ d', d.goto b = .ok d' ∧ d'.Sound p ∧ d'.exprs = d.exprs :=
  ⟨{ d with current := b }, if_pos hb,
    ⟨h.grounded.of_same rfl rfl rfl, h.branching.of_same rfl rfl, hb, h.successor, h.stmt, h.exprId,
      h.child⟩, rfl⟩

theorem edge (h : d.Sound p) {a b : Int} (ha : d.HasBlock a) (hb : d.HasBlock b) :
    ∃ d', d.edge a b = .ok d' ∧ d'.Sound p ∧ d'.exprs = d.exprs ∧ d'.stmts = d.stmts := by
  have hlt : a.toNat < d.successors.length := by
    have hlt := ha.2
    have h0 := ha.1
    rw [h.branching.length]
    omega
  refine ⟨{ d with successors := d.successors.modify a.toNat fun out => addNew out b }, ?_, ?_, rfl, rfl⟩
  · unfold FunctionDraft.edge resolve?
    rw [if_pos ha.1, if_pos hlt]
  · refine ⟨h.grounded.of_same rfl rfl rfl, h.branching.addSuccessors a.toNat [b], h.current, ?_, h.stmt,
      h.exprId, h.child⟩
    intro out hout c hc
    rcases mem_modify hout with hout | ⟨old, hold, rfl⟩
    · exact h.successor out hout c hc
    · unfold addNew at hc
      split at hc
      · exact h.successor old hold c hc
      · rcases List.mem_append.mp hc with hc | hc
        · exact h.successor old hold c hc
        · rw [List.mem_singleton.mp hc]
          exact hb

theorem edges {pairs : List (Int × Int)} (h : d.Sound p)
    (hpairs : ∀ x ∈ pairs, d.HasBlock x.1 ∧ d.HasBlock x.2) :
    (d.edges pairs).2 = .ok () ∧ (d.edges pairs).1.Sound p ∧ (d.edges pairs).1.exprs = d.exprs := by
  induction pairs generalizing d with
  | nil => exact ⟨rfl, h, rfl⟩
  | cons x pairs ih =>
    obtain ⟨hsource, htarget⟩ := hpairs x List.mem_cons_self
    obtain ⟨d', hd', hsound, hexprs, hstmts⟩ := h.edge hsource htarget
    have hrest : ∀ y ∈ pairs, d'.HasBlock y.1 ∧ d'.HasBlock y.2 := by
      intro y hy
      unfold HasBlock
      rw [hstmts]
      exact hpairs y (List.mem_cons_of_mem _ hy)
    unfold FunctionDraft.edges
    rw [hd']
    obtain ⟨hok, hsound', hexprs'⟩ := ih hsound hrest
    exact ⟨hok, hsound', hexprs'.trans hexprs⟩

/-- The function that has been drafted is well formed at any time. -/
theorem valid (h : d.Sound p) : d.function.Valid where
  entry := fun hne => ⟨Int.le_refl 0, Int.natCast_pos.mpr (List.length_pos_iff.mpr hne)⟩
  blockId := fun hi => (getElem?_blocks hi).1
  successor := by
    intro b hb s hs
    have hin := h.successor _ (mem_blocks hb).2 s hs
    exact ⟨hin.1, by rw [h.branching.length_blocks]; exact hin.2⟩
  value := fun b hb s hs => (h.stmt _ (mem_blocks hb).1 s hs).1
  target := by
    intro b hb s hs i hi
    obtain ⟨j, hj, hin⟩ := (h.stmt _ (mem_blocks hb).1 s hs).2 _ hi
    obtain rfl := Target.expr.inj hj
    exact hin
  exprId := h.exprId
  child := h.child

theorem build (h : d.Sound p) : d.build = .ok d.function := by
  have hvalid : d.function.validate = .ok () := by
    refine h.valid.validate fun b hb s hs t ht => ?_
    obtain ⟨i, hi, _⟩ := (h.stmt _ (mem_blocks hb).1 s hs).2 t ht
    exact ⟨i, hi⟩
  exact bind_eq_ok.mpr ⟨(), hvalid, rfl⟩

end Sound
end FunctionDraft
end AccountLint

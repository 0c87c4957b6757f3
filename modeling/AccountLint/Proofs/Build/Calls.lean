import AccountLint.Build.Session
import AccountLint.Proofs.Build.Draft

/-! Drafting a function call by call. If every call passes ids that earlier calls answered, the
function is well formed at any time, and only calls of methods can fail. -/
namespace AccountLint
namespace DraftCall

def exprIds : DraftCall → List Int
  | .field base _ _ | .deref base | .ref base _ => [base]
  | .index base position => base :: position.toList
  | .call _ args _ => args
  | .method receiver _ args _ => receiver :: args
  | .compare _ left right => [left, right]
  | .construct _ fields => fields.map (·.2)
  | .arrayLiteral elements _ => elements
  | .assign target value => target.int?.toList ++ [value]
  | .letVar _ value _ | .eval value => [value]
  | _ => []

def blockIds : DraftCall → List Int
  | .goto id => [id]
  | .edge source target => [source, target]
  | .edges pairs => pairs.flatMap fun x => [x.1, x.2]
  | _ => []

def types : DraftCall → List (Option TypeRef)
  | .param _ type | .declare _ type | .field _ _ type | .call _ _ type | .method _ _ _ type
  | .literal _ type | .construct type _ | .arrayLiteral _ type | .letVar _ _ type => [type]
  | _ => []

/-- What is assigned to is a text or an id, what is declared with a value is a text, and no field of
a constructor has a reserved name. -/
def NamesFit : DraftCall → Prop
  | .construct _ fields => ∀ f ∈ fields, f.1 ≠ "self" ∧ f.1 ≠ "type_id"
  | .assign target _ => (∃ s, target = .text s) ∨ ∃ i, target = .int i
  | .letVar name _ _ => ∃ s, name = .text s
  | _ => True

def answered : DraftCall → Except Fault (Option Int) → List Int
  | .block, _ | .current, _ => []
  | _, .ok (some i) => [i]
  | _, _ => []

/-- A call that passes only what is there: of expressions those that earlier calls answered. -/
structure Proper (c : DraftCall) (table : TypeTable) (d : FunctionDraft) (known : List Int) : Prop where
  exprs : ∀ i ∈ c.exprIds, i ∈ known
  blocks : ∀ b ∈ c.blockIds, d.HasBlock b
  types : ∀ r ∈ c.types, table.Has r
  names : c.NamesFit

inductive Unanswerable (table : TypeTable) (d : FunctionDraft) : DraftCall → Fault → Prop where
  | method {receiver : Int} {name : Name} {args : List Int} {type : Option TypeRef} {e : Fault}
      (h : d.CannotCall table receiver name type e) :
      Unanswerable table d (.method receiver name args type) e

/-- Calls of methods are the only ones that may fail. -/
def mayFail : DraftCall → Bool
  | .method .. => true
  | _ => false

private theorem Unanswerable.mayFail {table : TypeTable} {d : FunctionDraft} {c : DraftCall}
    {e : Fault} (h : Unanswerable table d c e) : c.mayFail = true := by
  cases h
  rfl

private theorem eq_of_mem_answered {c : DraftCall} {r : Except Fault (Option Int)} {i : Int}
    (h : i ∈ c.answered r) : r = .ok (some i) := by
  unfold answered at h
  split at h
  · cases h
  · cases h
  · rw [List.mem_singleton.mp h]
  · cases h

end DraftCall

namespace FunctionDraft

variable {d : FunctionDraft} {table : TypeTable} {p : Program} {c : DraftCall} {type : Option TypeRef}

/-- What a call comes to: the draft stays sound and keeps its expressions, and the call fails just
if it cannot be answered, in which case it changes nothing. -/
structure Performed (p : Program) (table : TypeTable) (d : FunctionDraft) (c : DraftCall)
    (r : FunctionDraft × Except Fault (Option Int)) : Prop where
  sound : r.1.Sound p
  keeps : d.exprs.length ≤ r.1.exprs.length
  answer : ∀ i ∈ c.answered r.2, r.1.HasExpr i
  fails : ∀ e, r.2 = .error e → c.Unanswerable table d e
  unanswerable : ∀ e, c.Unanswerable table d e → r = (d, .error e)

private theorem performed_settle {x : Except Fault (Int × FunctionDraft)} (hd : d.Sound p)
    (hx : Yields (c.Unanswerable table d) (Pushed p d) x)
    (hfails : ∀ e, c.Unanswerable table d e → x = .error e) : Performed p table d c (d.settle x) := by
  cases x with
  | error e =>
    refine ⟨hd, Nat.le_refl _, fun i hi => ?_, fun e' he => ?_, fun e' he => ?_⟩
    · cases DraftCall.eq_of_mem_answered hi
    · cases he
      exact hx
    · rw [hfails e' he]
      rfl
  | ok r =>
    obtain ⟨e, rfl, htype, hconstruct, hchildren⟩ := hx
    refine ⟨hd.push htype hconstruct hchildren, ?_, fun i hi => ?_, fun e' he => ?_, fun e' he => ?_⟩
    · show d.exprs.length ≤ (d.push e).2.exprs.length
      rw [length_push]
      omega
    · obtain rfl := Option.some.inj (Except.ok.inj (DraftCall.eq_of_mem_answered hi))
      exact hasExpr_push d e
    · cases he
    · cases hfails e' he

/-- A call that answers an expression and cannot fail. -/
theorem performed_answer {x : Except Fault (Int × FunctionDraft)} (hd : d.Sound p)
    (hx : Yields (fun _ => False) (Pushed p d) x) (hc : c.mayFail = false) :
    Performed p table d c (d.settle x) := by
  refine performed_settle hd (hx.weaken fun _ h => h.elim) fun e he => ?_
  cases hc.symm.trans he.mayFail

/-- A call that adds an expression, whatever the table tells. -/
theorem performed_push {e : Expr} (hd : d.Sound p) (hpushed : Pushed p d (d.push e))
    (hc : c.mayFail = false) : Performed p table d c (d.settle (.ok (d.push e))) :=
  performed_answer hd hpushed hc

/-- A call that cannot fail and answers no expression. -/
theorem performed_plain {d' : FunctionDraft} {r : Option Int} (hd' : d'.Sound p)
    (hkeeps : d.exprs.length ≤ d'.exprs.length) (hanswer : c.answered (.ok r) = [])
    (hc : c.mayFail = false) : Performed p table d c (d', .ok r) where
  sound := hd'
  keeps := hkeeps
  answer := by
    intro i hi
    rw [hanswer] at hi
    cases hi
  fails := fun e he => (by cases he)
  unanswerable := fun e he => (by cases hc.symm.trans he.mayFail)

namespace Sound

private theorem letVar (h : d.Sound p) (name : String) {value : Int} (hvalue : d.HasExpr value)
    (htype : p.InTable type) :
    ∃ d', d.letVar (.text name) value type = .ok d' ∧ d'.Sound p ∧ d.exprs.length ≤ d'.exprs.length := by
  have hassigned : ∀ r, p.InTable r →
      ((d.declare (.text name) r).assign (.text name) value).Sound p ∧
        d.exprs.length ≤ ((d.declare (.text name) r).assign (.text name) value).exprs.length := by
    intro r hr
    have hexprs := exprs_declare d (.text name) r
    have hvalue' : (d.declare (.text name) r).HasExpr value := ⟨hvalue.1, hexprs ▸ hvalue.2⟩
    refine ⟨(h.declare (.text name) hr).assign hvalue' (Or.inl ⟨name, rfl⟩), ?_⟩
    rw [← hexprs]
    exact length_le_assign _ _ _
  unfold FunctionDraft.letVar
  cases type with
  | some r => exact ⟨_, rfl, hassigned _ htype⟩
  | none =>
    obtain ⟨own, hown, hin⟩ := Yields.ok_iff.mp (h.grounded.typeOf hvalue)
    exact ⟨_, bind_eq_ok.mpr ⟨own, hown, rfl⟩, hassigned own hin⟩

/-- A call on a sound draft that passes what is there keeps it sound. -/
theorem perform (ht : table.Grounded p) (h : d.Sound p) (hexprs : ∀ i ∈ c.exprIds, d.HasExpr i)
    (hblocks : ∀ b ∈ c.blockIds, d.HasBlock b) (htypes : ∀ r ∈ c.types, p.InTable r)
    (hnames : c.NamesFit) : Performed p table d c (d.perform table c) := by
  cases c with
  | param name type =>
    have hgrounded := h.grounded.param name (htypes type List.mem_cons_self)
    exact performed_plain (h.of_same hgrounded rfl rfl rfl rfl) (Nat.le_refl _) rfl rfl
  | declare name type =>
    have hsound := h.declare name (htypes type List.mem_cons_self)
    exact performed_plain hsound (Nat.le_of_eq (congrArg _ (exprs_declare d name type).symm)) rfl rfl
  | moveTo line column =>
    have hgrounded : (d.moveTo line column).Grounded p := h.grounded.of_same rfl rfl rfl
    exact performed_plain (h.of_same hgrounded rfl rfl rfl rfl) (Nat.le_refl _) rfl rfl
  | unmodeled =>
    have hgrounded : FunctionDraft.Grounded { d with modeled := false } p :=
      h.grounded.of_same rfl rfl rfl
    exact performed_plain (h.of_same hgrounded rfl rfl rfl rfl) (Nat.le_refl _) rfl rfl
  | var name => exact performed_push h (pushed_leaf (h.grounded.declared _) rfl rfl) rfl
  | field base name type =>
    have htype := htypes type List.mem_cons_self
    exact performed_answer h (h.grounded.field ht (hexprs base List.mem_cons_self) name htype) rfl
  | deref base => exact performed_answer h (h.grounded.deref (hexprs base List.mem_cons_self)) rfl
  | index base position => exact performed_answer h (h.grounded.index ht hexprs) rfl
  | ref base mutable =>
    exact performed_answer h (h.grounded.ref (hexprs base List.mem_cons_self) mutable) rfl
  | call path args type =>
    exact performed_push h (pushed_of_kind_ne (htypes type List.mem_cons_self) rfl hexprs) rfl
  | method receiver name args type =>
    have hyields := h.grounded.method ht name hexprs (htypes type List.mem_cons_self)
    refine performed_settle h (hyields.weaken fun _ he => .method he) fun e he => ?_
    cases he with
    | method he => exact h.grounded.method_fails ht (hexprs receiver List.mem_cons_self) he
  | compare operator left right =>
    exact performed_push h (pushed_of_kind_ne Program.inTable_none rfl hexprs) rfl
  | literal value type =>
    exact performed_push h (pushed_leaf (htypes type List.mem_cons_self) rfl rfl) rfl
  | construct type fields =>
    have hfree : ¬(fields.any fun f => f.1 == "self" || f.1 == "type_id") = true := by
      rw [List.any_eq_true]
      rintro ⟨f, hf, hreserved⟩
      obtain ⟨hself, htype⟩ := hnames f hf
      simp [hself, htype] at hreserved
    have hpushed : Pushed p d (d.construct type fields) := by
      refine ⟨_, rfl, htypes type List.mem_cons_self, fun _ => ?_, hexprs⟩
      rw [List.length_map, List.length_map]
    unfold FunctionDraft.perform
    dsimp only
    rw [if_neg hfree]
    exact performed_push h hpushed rfl
  | arrayLiteral elements type =>
    have hpushed : Pushed p d (d.arrayLiteral elements type) := by
      refine ⟨_, rfl, htypes type List.mem_cons_self, fun _ => ?_, hexprs⟩
      rw [List.length_map, List.length_range]
    exact performed_push h hpushed rfl
  | assign target value =>
    have hvalue := hexprs value (List.mem_append_right _ List.mem_cons_self)
    have htarget : (∃ s, target = .text s) ∨ ∃ i, target = .int i ∧ d.HasExpr i := by
      refine hnames.imp_right ?_
      rintro ⟨i, rfl⟩
      exact ⟨i, rfl, hexprs i (List.mem_append_left _ List.mem_cons_self)⟩
    exact performed_plain (h.assign hvalue htarget) (length_le_assign _ _ _) rfl rfl
  | letVar name value type =>
    obtain ⟨s, rfl⟩ := hnames
    obtain ⟨d', hd', hsound, hle⟩ :=
      h.letVar s (hexprs value List.mem_cons_self) (htypes type List.mem_cons_self)
    unfold FunctionDraft.perform
    dsimp only
    rw [hd']
    exact performed_plain hsound hle rfl rfl
  | eval value =>
    exact performed_plain (h.eval (hexprs value List.mem_cons_self)) (Nat.le_refl _) rfl rfl
  | block => exact performed_plain h.block (Nat.le_refl _) rfl rfl
  | current => exact performed_plain h (Nat.le_refl _) rfl rfl
  | goto id =>
    obtain ⟨d', hd', hsound, hsame⟩ := h.goto (hblocks id List.mem_cons_self)
    unfold FunctionDraft.perform
    dsimp only
    rw [hd']
    exact performed_plain hsound (Nat.le_of_eq (congrArg _ hsame.symm)) rfl rfl
  | edge source target =>
    have htarget := hblocks target (List.mem_cons_of_mem _ List.mem_cons_self)
    obtain ⟨d', hd', hsound, hsame, _⟩ := h.edge (hblocks source List.mem_cons_self) htarget
    unfold FunctionDraft.perform
    dsimp only
    rw [hd']
    exact performed_plain hsound (Nat.le_of_eq (congrArg _ hsame.symm)) rfl rfl
  | edges pairs =>
    have hpairs : ∀ x ∈ pairs, d.HasBlock x.1 ∧ d.HasBlock x.2 := by
      intro x hx
      have hin : ∀ b ∈ [x.1, x.2], d.HasBlock b :=
        fun b hb => hblocks b (List.mem_flatMap.mpr ⟨x, hx, hb⟩)
      exact ⟨hin x.1 List.mem_cons_self, hin x.2 (List.mem_cons_of_mem _ List.mem_cons_self)⟩
    obtain ⟨hok, hsound, hsame⟩ := h.edges hpairs
    unfold FunctionDraft.perform
    dsimp only
    rw [hok]
    exact performed_plain hsound (Nat.le_of_eq (congrArg _ hsame.symm)) rfl rfl

end Sound

/-- The drafts that calls lead to, with the ids of expressions that they answered. The table may
change on the way, but keeps its types. -/
inductive Drafted : TypeTable → FunctionDraft → List Int → Prop where
  | new {t : TypeTable} (ht : t.Closed) (name : String) (location : Location) :
      Drafted t (.new name location) []
  | table {t t' : TypeTable} {d : FunctionDraft} {known : List Int} (h : Drafted t d known)
      (ht' : t'.Closed) (hle : t.types.length ≤ t'.types.length) : Drafted t' d known
  | call {t : TypeTable} {d : FunctionDraft} {known : List Int} (h : Drafted t d known) (c : DraftCall)
      (hc : c.Proper t d known) :
      Drafted t (d.perform t c).1 (known ++ c.answered (d.perform t c).2)

/-- What calls lead to: the table is closed, the draft is sound, and it has the expressions
answered. -/
structure Kept (t : TypeTable) (d : FunctionDraft) (known : List Int) : Prop where
  closed : t.Closed
  sound : d.Sound { types := t.types }
  known : ∀ i ∈ known, d.HasExpr i

private theorem Kept.performed {known : List Int} (h : Kept table d known)
    (hc : c.Proper table d known) :
    Performed { types := table.types } table d c (d.perform table c) :=
  h.sound.perform h.closed.grounded (fun i hi => h.known i (hc.exprs i hi)) hc.blocks hc.types hc.names

private theorem Kept.call {known : List Int} (h : Kept table d known)
    (hc : c.Proper table d known) :
    Kept table (d.perform table c).1 (known ++ c.answered (d.perform table c).2) := by
  have hdone := h.performed hc
  refine ⟨h.closed, hdone.sound, fun i hi => ?_⟩
  rcases List.mem_append.mp hi with hi | hi
  · have hlt := (h.known i hi).2
    have hkeeps := hdone.keeps
    exact ⟨(h.known i hi).1, by omega⟩
  · exact hdone.answer i hi

private theorem Drafted.kept {known : List Int} (h : Drafted table d known) :
    Kept table d known := by
  induction h with
  | new ht name location => exact ⟨ht, .new name location _, fun i hi => (by cases hi)⟩
  | table _ ht' hle ih => exact ⟨ht', ih.sound.grow hle, ih.known⟩
  | call _ _ hc ih => exact ih.call hc

/-- A call that passes what is there fails just if it asks for the type of a method that the table
cannot tell, and then changes nothing. At any time the function can be built and is well formed. -/
theorem drafted_builds {known : List Int} (h : Drafted table d known) :
    (∀ c : DraftCall, c.Proper table d known →
      (∀ e, (d.perform table c).2 = .error e → c.Unanswerable table d e) ∧
      ∀ e, c.Unanswerable table d e → d.perform table c = (d, .error e)) ∧
    d.build = .ok d.function ∧ d.function.Valid ∧ ∀ b ∈ d.function.blocks, b.successors.Nodup := by
  have hkept := h.kept
  refine ⟨fun c hc => ?_, hkept.sound.build, hkept.sound.valid, fun b hb => ?_⟩
  · exact ⟨(hkept.performed hc).fails, (hkept.performed hc).unanswerable⟩
  · exact hkept.sound.branching.nodup _ (mem_blocks hb).2

/-- A wrapper, and what it wraps. -/
def wrapperTable : TypeTable :=
  ((({} : TypeTable).add
      { id := 0, path := .text "core::option::Option", kind := .enum, args := [some (.index 1)] }).1.add
    { id := 0, path := .text "Vault", kind := .struct
      fields := [{ name := .text "owner", type := some (.index 0) }] }).1

private theorem wrapperTable_closed : wrapperTable.Closed :=
  ⟨.add (.add .empty _) _, by decide, by decide⟩

/-- What is unwrapped has the wrapped type, a field and a new variable theirs, an edge that is added
twice stays one edge, and a method that is no text fails without harm. -/
theorem drafted_builds_unwrapping : ∃ d known, Drafted wrapperTable d known ∧ known = [0, 1, 2, 4] ∧
    d.exprs.map (·.type) = [some (.index 0), some (.index 1), some (.index 0), some (.index 0), none] ∧
    d.successors = [[1], []] ∧
    d.perform wrapperTable (.method 1 (.list []) [] none) = (d, .error .shape) ∧
    d.build = .ok d.function ∧ d.function.Valid ∧ ∀ b ∈ d.function.blocks, b.successors.Nodup := by
  have hparam := (Drafted.new wrapperTable_closed "f" {}).call (.param (.text "r") (some (.index 0)))
    ⟨by decide, by decide, by decide, trivial⟩
  have hvar := hparam.call (.var "r") ⟨by decide, by decide, by decide, trivial⟩
  have hmethod := hvar.call (.method 0 (.text "unwrap") [] none)
    ⟨by decide, by decide, by decide, trivial⟩
  have hfield := hmethod.call (.field 1 (.text "owner") none) ⟨by decide, by decide, by decide, trivial⟩
  have hlet := hfield.call (.letVar (.text "x") 2 none)
    ⟨by decide +kernel, by decide, by decide, "x", rfl⟩
  have hblock := hlet.call .block ⟨by decide, by decide, by decide, trivial⟩
  have hedges := hblock.call (.edges [(0, 1), (0, 1)])
    ⟨by decide, by decide +kernel, by decide, trivial⟩
  have hconstruct := hedges.call (.construct none [("a", 1), ("b", 2)])
    ⟨by decide +kernel, by decide, by decide, by simp [DraftCall.NamesFit]⟩
  obtain ⟨hcalls, hbuilt⟩ := drafted_builds hconstruct
  refine ⟨_, _, hconstruct, by decide +kernel, by decide +kernel, by decide +kernel, ?_, hbuilt⟩
  refine (hcalls (.method 1 (.list []) [] none) ⟨by decide +kernel, by decide, by decide, trivial⟩).2 _ ?_
  exact .method ⟨rfl, some (.index 1), ok_of_toOption (by decide +kernel), .name rfl⟩

/-- Calls that pass what is there and fail: of a method whose name is a list, and of a method that
takes a value out of a type whose path is a number. -/
theorem drafted_call_fails :
    (∃ d, Drafted {} d [0] ∧ (DraftCall.method 0 (.list [.text "clone"]) [] none).Proper {} d [0] ∧
      d.perform {} (.method 0 (.list [.text "clone"]) [] none) = (d, .error .shape)) ∧
    ∃ t d, Drafted t d [0] ∧ (DraftCall.method 0 (.text "unwrap") [] none).Proper t d [0] ∧
      d.perform t (.method 0 (.text "unwrap") [] none) = (d, .error .notText) := by
  constructor
  · have hvar := (Drafted.new ⟨.empty, by decide, by decide⟩ "f" {}).call (.var "x")
      ⟨by decide, by decide, by decide, trivial⟩
    exact ⟨_, hvar, ⟨by decide, by decide, by decide, trivial⟩, rfl⟩
  · have hclosed : (({} : TypeTable).add { id := 0, path := .int 5, kind := .struct }).1.Closed :=
      ⟨.add .empty _, by decide, by decide⟩
    have hparam := (Drafted.new hclosed "f" {}).call (.param (.text "x") (some (.index 0)))
      ⟨by decide, by decide, by decide, trivial⟩
    have hvar := hparam.call (.var "x") ⟨by decide, by decide, by decide, trivial⟩
    exact ⟨_, _, hvar, ⟨by decide, by decide, by decide, trivial⟩, rfl⟩

end FunctionDraft
end AccountLint

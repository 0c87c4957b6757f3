import AccountLint.Proofs.Document.Trees

/-! What reading a statement does to a draft: it adds the expressions of the statement, and then the
statement to the current block. -/
namespace AccountLint.Document

inductive AddsStmt (env : Env) : FunctionDraft → Value → FunctionDraft → Prop where
  | letVar {d d₁ : FunctionDraft} {name value : Value} {type : List Value} {i : Int}
      {given result : Option TypeRef} (hvalue : Adds env d [value] [i] d₁) (hlength : type.length ≤ 1)
      (hgiven : env.annotated type.head? = .ok given) (htype : Filled env.table d₁ given result) :
      AddsStmt env d (.list (.text "let" :: name :: value :: type))
        ((d₁.declare name result).assign name i)
  | assign {d d₁ : FunctionDraft} {target value : Value} {t v : Int}
      (hparts : Adds env d [target, value] [t, v] d₁) :
      AddsStmt env d (.list [.text "assign", target, value]) (d₁.assign (.int t) v)
  | eval {d d₁ : FunctionDraft} {value : Value} {v : Int} (hvalue : Adds env d [value] [v] d₁) :
      AddsStmt env d (.list [.text "eval", value]) (d₁.eval v)
  | place {d d' : FunctionDraft} {args : List Value} {form : Value} {line column : Int}
      (hlast : args.getLast? = some form) (hform : AddsStmt env (d.moveTo line column) form d') :
      AddsStmt env d (.list (.text "at" :: args)) d'

variable {env : Env} {d d' : FunctionDraft}

private theorem letVar_eq_ok (table : TypeTable) {name : Name} {i : Int} {given : Option TypeRef}
    (h : d.letVar name i given = .ok d') :
    ∃ type, Filled table d given type ∧ (d.declare name type).assign name i = d' := by
  unfold FunctionDraft.letVar at h
  cases given with
  | some r => exact ⟨some r, .given r, pure_eq_ok.mp h⟩
  | none =>
    obtain ⟨type, htype, h⟩ := bind_eq_ok.mp h
    exact ⟨type, .inferred (.expr htype), pure_eq_ok.mp h⟩

private theorem let_adds {args : List Value}
    (h : stmt env d (.list (.text "let" :: args)) = .ok d') :
    AddsStmt env d (.list (.text "let" :: args)) d' := by
  unfold stmt at h
  dsimp only at h
  rw [if_neg (by decide), if_pos (by decide)] at h
  rcases args with _ | ⟨name, _ | ⟨value, type⟩⟩
  · cases h
  · cases h
  · dsimp only at h
    split at h
    · cases h
    · rename_i hlength
      obtain ⟨⟨i, d₁⟩, hi, h⟩ := bind_eq_ok.mp h
      obtain ⟨given, hgiven, h⟩ := bind_eq_ok.mp h
      obtain ⟨result, hresult, rfl⟩ := letVar_eq_ok env.table h
      refine .letVar (expr_reads env value d i d₁ hi) (Nat.le_of_not_lt hlength) ?_ hresult
      cases type with
      | nil => exact hgiven
      | cons t type => exact hgiven

private theorem assign_adds {args : List Value}
    (h : stmt env d (.list (.text "assign" :: args)) = .ok d') :
    AddsStmt env d (.list (.text "assign" :: args)) d' := by
  unfold stmt at h
  rcases args with _ | ⟨target, _ | ⟨value, _ | ⟨_, _⟩⟩⟩
  · cases h
  · cases h
  · obtain ⟨⟨t, d₁⟩, ht, h⟩ := bind_eq_ok.mp h
    obtain ⟨⟨v, d₂⟩, hv, h⟩ := bind_eq_ok.mp h
    obtain rfl := pure_eq_ok.mp h
    exact .assign (.cons (expr_reads env target d t d₁ ht) (expr_reads env value d₁ v d₂ hv))
  · cases h

private theorem eval_adds {args : List Value}
    (h : stmt env d (.list (.text "eval" :: args)) = .ok d') :
    AddsStmt env d (.list (.text "eval" :: args)) d' := by
  unfold stmt at h
  rcases args with _ | ⟨value, _ | ⟨_, _⟩⟩
  · cases h
  · obtain ⟨⟨v, d₁⟩, hv, h⟩ := bind_eq_ok.mp h
    obtain rfl := pure_eq_ok.mp h
    exact .eval (expr_reads env value d v d₁ hv)
  · cases h

theorem lastStmt_eq {args : List Value} {form : Value} (hlast : args.getLast? = some form) :
    lastStmt env d args = stmt env d form := by
  induction args with
  | nil => cases hlast
  | cons x args ih =>
    cases args with
    | nil =>
      obtain rfl := Option.some.inj hlast
      rfl
    | cons y args => exact ih hlast

private theorem lastStmt_eq_ok {args : List Value} (h : lastStmt env d args = .ok d') :
    ∃ form, args.getLast? = some form ∧ stmt env d form = .ok d' := by
  cases hlast : args.getLast? with
  | none =>
    obtain rfl := List.getLast?_eq_none_iff.mp hlast
    cases h
  | some form =>
    rw [lastStmt_eq hlast] at h
    exact ⟨form, rfl, h⟩

/-- Reading a statement adds it. -/
theorem stmt_adds (env : Env) (form : Value) (d d' : FunctionDraft) (h : stmt env d form = .ok d') :
    AddsStmt env d form d' := by
  match form with
  | .list (.text head :: args) =>
    by_cases hplace : head = "at"
    · rw [hplace] at h ⊢
      unfold stmt at h
      obtain ⟨l, _, h⟩ := bind_eq_ok.mp h
      obtain ⟨inner, hlast, hinner⟩ := lastStmt_eq_ok h
      have hlt := sizeOf_lt_of_mem (.text head) (List.mem_of_getLast? hlast)
      exact .place hlast (stmt_adds env inner _ _ hinner)
    by_cases hlet : head = "let"
    · subst hlet
      exact let_adds h
    by_cases hassign : head = "assign"
    · subst hassign
      exact assign_adds h
    by_cases heval : head = "eval"
    · subst heval
      exact eval_adds h
    unfold stmt at h
    simp only [beq_iff_eq, hplace, hlet, hassign, heval, if_false, reduceCtorEq] at h
  | .null | .bool _ | .int _ | .float _ | .text _ | .bytes _ | .record _ _ | .list []
  | .list (.null :: _) | .list (.bool _ :: _) | .list (.int _ :: _) | .list (.float _ :: _)
  | .list (.bytes _ :: _) | .list (.list _ :: _) | .list (.record _ _ :: _) => cases h
termination_by sizeOf form
decreasing_by exact hlt

private theorem declare_frame (d : FunctionDraft) (name : Name) (type : Option TypeRef) :
    ∃ locals, d.declare name type = { d with locals := locals } := by
  unfold FunctionDraft.declare
  split
  · exact ⟨d.locals, rfl⟩
  · exact ⟨_, rfl⟩

private theorem assign_frame (d : FunctionDraft) (target : Value) (value : Int) :
    ∃ added stmts, d.assign target value = { d with exprs := d.exprs ++ added, stmts := stmts } := by
  unfold FunctionDraft.assign
  split
  · exact ⟨_, _, rfl⟩
  · exact ⟨[], _, by rw [List.append_nil]; rfl⟩
  · exact ⟨[], _, by rw [List.append_nil]; rfl⟩

/-- Reading a statement changes only the expressions, variables, statements and the place of a
draft. -/
theorem AddsStmt.frame {form : Value} (h : AddsStmt env d form d') :
    ∃ added locals stmts here, d' = { d with exprs := d.exprs ++ added, locals := locals
                                             stmts := stmts, here := here } := by
  induction h with
  | @letVar d d₁ name value type i given result hvalue =>
    obtain ⟨added, rfl⟩ := hvalue.frame
    obtain ⟨locals, hlocals⟩ := declare_frame { d with exprs := d.exprs ++ added } name result
    obtain ⟨more, stmts, hassign⟩ :=
      assign_frame (FunctionDraft.declare { d with exprs := d.exprs ++ added } name result) name i
    rw [hassign, hlocals]
    exact ⟨added ++ more, locals, stmts, d.here, by rw [List.append_assoc]⟩
  | @assign d d₁ target value t v hparts =>
    obtain ⟨added, rfl⟩ := hparts.frame
    obtain ⟨more, stmts, hassign⟩ := assign_frame { d with exprs := d.exprs ++ added } (.int t) v
    rw [hassign]
    exact ⟨added ++ more, d.locals, stmts, d.here, by rw [List.append_assoc]⟩
  | eval hvalue =>
    obtain ⟨added, rfl⟩ := hvalue.frame
    exact ⟨added, _, _, _, rfl⟩
  | place _ _ ih =>
    obtain ⟨added, locals, stmts, here, rfl⟩ := ih
    exact ⟨added, locals, stmts, here, rfl⟩

private theorem stmtEvaluates_assign {f : Function} {t v : Int} {kind : StmtKind}
    {location : Location} (j : Int) :
    f.StmtEvaluates { kind := kind, value := v, target := some (.expr t), location := location } j ↔
      f.InTree t j ∨ f.InTree v j := by
  simp [Function.StmtEvaluates, Stmt.treeRoots]

private theorem setsOnce_text {s : String} :
    ∀ form ∈ [Value.text s], ∀ w, Within w form → SetsOnce w := by
  intro form hform w hw
  obtain rfl := List.mem_singleton.mp hform
  cases hw with
  | self => exact fun type fields h => (by cases h)
  | part hpart _ => cases hpart

/-- The current block gets a statement that is what is kept of a form. If the form is regular, the
trees of the statement hold the expressions that were added with it. -/
def StmtAdded (declarations : List Value) (d : FunctionDraft) (form : Value) (d' : FunctionDraft) : Prop :=
  ∃ s, d'.stmts = d.stmts.modify d.current.toNat (· ++ [s]) ∧
    ∀ f : Function, d'.exprs <+: f.exprs → StmtRetains declarations f.exprs form s ∧
      (StmtRegular form → ∀ j, f.StmtEvaluates s j ↔ d.exprs.length ≤ j ∧ j < d'.exprs.length)

/-- A declaration assigns to a variable that is read after the value, so that its expression is the
last one. -/
theorem letText_added {declarations : List Value} {d₁ : FunctionDraft} {name : String}
    {value : Value} {type : List Value} {i : Int} {result : Option TypeRef}
    (hnames : env.names.Of declarations) (hvalue : Adds env d [value] [i] d₁)
    (hlength : type.length ≤ 1) (h : (d₁.declare (.text name) result).assign (.text name) i = d') :
    StmtAdded declarations d (.list (.text "let" :: .text name :: value :: type)) d' := by
  obtain ⟨locals, hlocals⟩ := declare_frame d₁ (.text name) result
  have hexprs₁ := FunctionDraft.exprs_declare d₁ (.text name) result
  have hvar : Adds env (d₁.declare (.text name) result) [.text name] [d₁.exprs.length]
      ((d₁.declare (.text name) result).var name).2 := by
    rw [← hexprs₁]
    exact reads_text name _ _ _ rfl
  have hexprs' : d'.exprs = ((d₁.declare (.text name) result).var name).2.exprs := by rw [← h]; rfl
  have hlast : d'.exprs.length = d₁.exprs.length + 1 := by
    rw [hexprs', ← hexprs₁]
    exact FunctionDraft.length_push _ _
  refine ⟨{ kind := .assign, value := i, target := some (.expr d₁.exprs.length), location := d₁.here },
    ?_, fun f hexprs => ?_⟩
  · obtain ⟨added, rfl⟩ := hvalue.frame
    rw [← h, hlocals]
    rfl
  · rw [hexprs'] at hexprs
    have hprefix : d₁.exprs <+: f.exprs := hexprs₁ ▸ hvar.exprs_prefix.trans hexprs
    obtain ⟨hname, -⟩ := List.forall₂_cons.mp (hvar.retains hnames hexprs)
    obtain ⟨hretains, -⟩ := List.forall₂_cons.mp (hvalue.retains hnames hprefix)
    have hspelled := hname.depicts_iff.mpr (setsOnce_text _ List.mem_cons_self)
    refine ⟨.letVar hlength rfl rfl (.text hspelled) hretains, fun hregular j => ?_⟩
    have honce := hregular.setsOnce _ (.here _)
    have htarget := exists_mem_singleton.symm.trans (hvar.inTree_iff setsOnce_text hexprs j)
    have hvalues := exists_mem_singleton.symm.trans (hvalue.inTree_iff honce hprefix j)
    have hle := hvalue.exprs_prefix.length_le
    rw [stmtEvaluates_assign, htarget, hvalues, hexprs₁, ← hexprs', hlast]
    omega

/-- A declaration of anything else adds no expression for it, and is not regular. -/
theorem letOther_added {declarations : List Value} {d₁ : FunctionDraft} {name value : Value}
    {type : List Value} {i : Int} {result : Option TypeRef} {t : Target}
    (hnames : env.names.Of declarations) (hvalue : Adds env d [value] [i] d₁) (hlength : type.length ≤ 1)
    (hother : ∀ s, name ≠ .text s) (htarget : ∀ exprs, LetTarget declarations exprs name t)
    (h : (d₁.declare name result).append { kind := .assign, value := i, target := some t } = d') :
    StmtAdded declarations d (.list (.text "let" :: name :: value :: type)) d' := by
  obtain ⟨locals, hlocals⟩ := declare_frame d₁ name result
  obtain ⟨added, rfl⟩ := hvalue.frame
  rw [hlocals] at h
  refine ⟨_, by rw [← h]; rfl, fun f hexprs => ?_⟩
  rw [← h] at hexprs
  obtain ⟨hretains, -⟩ := List.forall₂_cons.mp (hvalue.retains hnames hexprs)
  refine ⟨.letVar hlength rfl rfl (htarget _) hretains, fun hregular => ?_⟩
  obtain ⟨s, hs⟩ := hregular.letName name _ (.here _)
  exact absurd hs (hother s)

/-- Reading a statement adds what is kept of it. -/
theorem AddsStmt.added {declarations : List Value} {form : Value} (h : AddsStmt env d form d')
    (hnames : env.names.Of declarations) : StmtAdded declarations d form d' := by
  induction h with
  | @letVar d d₁ name value type i given result hvalue hlength =>
    cases name with
    | text name => exact letText_added hnames hvalue hlength rfl
    | int k => exact letOther_added hnames hvalue hlength nofun (fun _ => .int k) rfl
    | null | bool | float | bytes | list | record =>
      exact letOther_added hnames hvalue hlength nofun (fun _ => .other nofun nofun) rfl
  | @assign d d₁ target value t v hparts =>
    obtain ⟨added, rfl⟩ := hparts.frame
    refine ⟨_, rfl, fun f hexprs => ?_⟩
    cases hparts.retains hnames hexprs with
    | cons htarget hrest =>
      cases hrest with
      | cons hvalue _ =>
        refine ⟨.assign rfl rfl htarget hvalue, fun hregular => ?_⟩
        exact hparts.inTree_iff (hregular.setsOnce _ (.here _)) hexprs
  | @eval d d₁ value v hvalue =>
    obtain ⟨added, rfl⟩ := hvalue.frame
    refine ⟨_, rfl, fun f hexprs => ?_⟩
    cases hvalue.retains hnames hexprs with
    | cons hretains _ =>
      refine ⟨.eval rfl rfl hretains, fun hregular => ?_⟩
      exact hvalue.inTree_iff (hregular.setsOnce _ (.here _)) hexprs
  | place hlast _ ih =>
    obtain ⟨s, hstmts, hs⟩ := ih
    refine ⟨s, hstmts, fun f hexprs => ⟨.place hlast (hs f hexprs).1, fun hregular => ?_⟩⟩
    exact (hs f hexprs).2 (hregular.of_place hlast)

/-- Variables that are new after a statement are declared by it. -/
theorem AddsStmt.locals {declarations : List Value} {form : Value} (h : AddsStmt env d form d')
    (hnames : env.names.Of declarations) {v : LocalVar} (hv : v ∈ d'.locals) :
    v ∈ d.locals ∨ LetDeclares declarations form v := by
  induction h with
  | @letVar d d₁ name value type i given result hvalue hlength hgiven htype =>
    obtain ⟨added, rfl⟩ := hvalue.frame
    obtain ⟨_, _, hassign⟩ :=
      assign_frame (FunctionDraft.declare { d with exprs := d.exprs ++ added } name result) name i
    rw [hassign] at hv
    unfold FunctionDraft.declare at hv
    split at hv
    · exact Or.inl hv
    · rcases List.mem_append.mp hv with hv | hv
      · exact Or.inl hv
      · obtain rfl := List.mem_singleton.mp hv
        refine Or.inr ⟨value, type, .here _, fun t ht => ?_⟩
        obtain ⟨u, rfl⟩ := List.length_eq_one_iff.mp
          (Nat.le_antisymm hlength (List.length_pos_of_mem ht))
        obtain rfl := List.mem_singleton.mp ht
        exact ⟨given, hnames t given hgiven, htype.none_or_eq⟩
  | @assign d d₁ target value t w hparts =>
    obtain ⟨added, rfl⟩ := hparts.frame
    exact Or.inl hv
  | eval hvalue =>
    obtain ⟨added, rfl⟩ := hvalue.frame
    exact Or.inl hv
  | place hlast _ ih =>
    refine (ih hv).imp_right fun hlet => ?_
    obtain ⟨value, type, hplaced, htype⟩ := hlet
    exact ⟨value, type, .place hlast hplaced, htype⟩

end AccountLint.Document

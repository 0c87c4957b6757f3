import AccountLint.Proofs.Document.Flaws

/-! Reading an expression. Types that the table tells are in the table, so that reading fails only
for what is wrong with the form. -/
namespace AccountLint.Document

/-- The names and the table of a document are about the types of a program. -/
structure Env.Grounded (env : Env) (declarations : List Value) (p : Program) : Prop where
  table : env.table.Grounded p
  resolve : ∀ name type, env.names.resolve name = .ok type → p.InTable type
  oddPath : ∀ t ∈ p.types, (∀ s, t.path ≠ .text s) → OddPath declarations

structure Extended (p : Program) (d : FunctionDraft) (ids : List Int) (d' : FunctionDraft) : Prop where
  grounded : d'.Grounded p
  length_le : d.exprs.length ≤ d'.exprs.length
  hasExpr : ∀ i ∈ ids, d'.HasExpr i

variable {env : Env} {declarations : List Value} {p : Program} {d d₁ d₂ : FunctionDraft}

namespace Extended

variable {ids ids' : List Int}

private theorem refl (hd : d.Grounded p) :
    Extended p d [] d := ⟨hd, Nat.le_refl _, fun i hi => (by cases hi)⟩

private theorem append (h : Extended p d ids d₁) (h' : Extended p d₁ ids' d₂) :
    Extended p d (ids ++ ids') d₂ := by
  refine ⟨h'.grounded, Nat.le_trans h.length_le h'.length_le, fun i hi => ?_⟩
  rcases List.mem_append.mp hi with hi | hi
  · have hlt := (h.hasExpr i hi).2
    have hle := h'.length_le
    exact ⟨(h.hasExpr i hi).1, by omega⟩
  · exact h'.hasExpr i hi

private theorem of_subset (h : Extended p d ids d₁) (hsub : ids' ⊆ ids) : Extended p d ids' d₁ :=
  ⟨h.grounded, h.length_le, fun i hi => h.hasExpr i (hsub hi)⟩

private theorem pushed (h : Extended p d ids d₁) {r : Int × FunctionDraft}
    (hr : FunctionDraft.Pushed p d₁ r) :
    Extended p d [r.1] r.2 := by
  obtain ⟨e, rfl, htype, hconstruct, _⟩ := hr
  refine ⟨h.grounded.push htype hconstruct, ?_, fun i hi => ?_⟩
  · rw [FunctionDraft.length_push]
    exact Nat.le_trans h.length_le (Nat.le_succ _)
  · rw [List.mem_singleton.mp hi]
    exact FunctionDraft.hasExpr_push d₁ e

end Extended

/-- Reading a form as an expression fails for its flaws only. -/
def Answers (env : Env) (declarations : List Value) (p : Program) (form : Value) : Prop :=
  ∀ d : FunctionDraft, d.Grounded p →
    Blames (Flawed declarations form) (fun r => Extended p d [r.1] r.2) (expr env d form)

theorem resolve_safe (names : TypeNames) (name : Value) : Safe Rejects (names.resolve name) := by
  unfold TypeNames.resolve
  split
  · trivial
  · split
    · trivial
    · rfl

theorem Env.Grounded.resolve_yields (henv : env.Grounded declarations p) (name : Value) :
    Yields Rejects p.InTable (env.names.resolve name) :=
  (resolve_safe env.names name).with_eq.mono fun type htype => henv.resolve name type htype.2

private theorem exprFlaw_head {head : String} {args : List Value} {e : Fault}
    (h : ExprFlaw declarations (.list (.text head :: args)) e) : head ∈ ["call", "method", "new"] := by
  generalize hform : Value.list (.text head :: args) = form at h
  cases h with
  | callResult | methodResult | methodName | unwrap | fieldName =>
    simp only [Value.list.injEq, List.cons.injEq, Value.text.injEq] at hform
    rw [hform.1]
    decide

section Parts

variable {α : Type} {form : Value} {post : α → Prop} {x : Except Fault α}

/-- A form that is right apart from its parts. -/
theorem blames_parts (hnone : ∀ e, ¬ExprFlaw declarations form e)
    (h : Blames (fun e => ∃ x ∈ parts form, Flawed declarations x e) post x) :
    Blames (Flawed declarations form) post x :=
  h.of_iff fun e => flawed_iff.trans (or_iff_right (hnone e))

/-- A form without parts. -/
theorem blames_leaf (hnone : ∀ e, ¬ExprFlaw declarations form e) (hparts : parts form = [])
    (h : Yields Rejects post x) : Blames (Flawed declarations form) post x := by
  refine blames_parts hnone ((Blames.of_yields h).of_iff fun e => ?_)
  rw [hparts]
  simp

end Parts

private theorem exprs_blames {forms : List Value}
    (hforms : ∀ x ∈ forms, Answers env declarations p x) (hd : d.Grounded p) :
    Blames (fun e => ∃ x ∈ forms, Flawed declarations x e) (fun r => Extended p d r.1 r.2)
      (exprs env d forms) := by
  induction forms generalizing d with
  | nil => exact ⟨.refl hd, fun e he => by simp at he⟩
  | cons x forms ih =>
    rw [exprs]
    refine ((hforms x List.mem_cons_self d hd).bind fun r hr => ?_).of_iff
      fun e => List.exists_mem_cons_iff ..
    refine (ih (fun y hy => hforms y (List.mem_cons_of_mem _ hy)) hr.grounded).andThen fun s hs => ?_
    exact hr.append hs

private theorem operands_blames {args : List Value}
    (hargs : ∀ x ∈ args, Answers env declarations p x) (hd : d.Grounded p) :
    Blames (fun e => ∃ x ∈ callArguments args, Flawed declarations x e)
      (fun r => Extended p d r.1 r.2) (operands env d args) := by
  induction args generalizing d with
  | nil => exact ⟨.refl hd, fun e he => by simp [callArguments] at he⟩
  | cons x args ih =>
    rw [operands]
    split
    · rename_i hlast
      obtain ⟨hempty, hhead⟩ := Bool.and_eq_true_iff.mp hlast
      obtain rfl := List.isEmpty_iff.mp hempty
      exact ⟨.refl hd, fun e he => by simp [callArguments, hhead] at he⟩
    · rename_i hlast
      rw [callArguments_cons hlast]
      refine ((hargs x List.mem_cons_self d hd).bind fun r hr => ?_).of_iff
        fun e => List.exists_mem_cons_iff ..
      refine (ih (fun y hy => hargs y (List.mem_cons_of_mem _ hy)) hr.grounded).andThen fun s hs => ?_
      exact hr.append hs

private theorem answers_text (s : String) : Answers env declarations p (.text s) := by
  intro d hd
  rw [expr_text]
  refine blames_leaf (fun e h => (by cases h)) rfl ?_
  exact (Extended.refl hd).pushed (FunctionDraft.pushed_leaf (hd.declared _) rfl rfl)

private theorem answers_int (n : Int) : Answers env declarations p (.int n) := by
  intro d hd
  rw [expr_int]
  refine blames_leaf (fun e h => (by cases h)) rfl ?_
  exact (Extended.refl hd).pushed (FunctionDraft.pushed_leaf Program.inTable_none rfl rfl)

private theorem answers_float (x : Binary64) : Answers env declarations p (.float x) := by
  intro d hd
  rw [expr_float]
  refine blames_leaf (fun e h => (by cases h)) rfl ?_
  exact (Extended.refl hd).pushed (FunctionDraft.pushed_leaf Program.inTable_none rfl rfl)

theorem optionalType_yields (henv : env.Grounded declarations p) (type : List Value) :
    Yields Rejects p.InTable (optionalType env type) := by
  cases type with
  | nil => exact Program.inTable_none
  | cons t type => exact henv.resolve_yields t

private theorem answers_literal (henv : env.Grounded declarations p) (value : Value)
    (type : List Value) :
    Answers env declarations p (.list (.text "lit" :: value :: type)) := by
  intro d hd
  unfold expr
  have hparts : parts (.list (.text "lit" :: value :: type)) = [] := by
    rcases type with _ | ⟨t, _ | ⟨u, type⟩⟩
    · rfl
    · rfl
    · rfl
  refine blames_leaf (fun e h => absurd (exprFlaw_head h) (by decide)) hparts ?_
  refine (optionalType_yields henv type).bind fun given hgiven => ?_
  exact (Extended.refl hd).pushed (FunctionDraft.pushed_leaf hgiven rfl rfl)

/-- An expression that is made of one part. -/
theorem blames_projection {form base : Value} (hbase : Answers env declarations p base)
    (hd : d.Grounded p) (hparts : parts form = [base]) (hnone : ∀ e, ¬ExprFlaw declarations form e)
    {step : Int × FunctionDraft → Except Fault (Int × FunctionDraft)}
    (hstep : ∀ r : Int × FunctionDraft, r.2.Grounded p → r.2.HasExpr r.1 →
      Yields Rejects (FunctionDraft.Pushed p r.2) (step r)) :
    Blames (Flawed declarations form) (fun r => Extended p d [r.1] r.2) (expr env d base >>= step) := by
  refine blames_parts hnone ?_
  rw [hparts]
  refine ((hbase d hd).andThen fun r hr => ?_).of_iff fun e => exists_mem_singleton
  exact (hstep r hr.grounded (hr.hasExpr _ List.mem_cons_self)).mono fun s hs => hr.pushed hs

private theorem answers_field (henv : env.Grounded declarations p) {base : Value}
    (hbase : Answers env declarations p base) (rest : List Value) :
    Answers env declarations p (.list (.text "field" :: base :: rest)) := by
  intro d hd
  have hnone : ∀ e, ¬ExprFlaw declarations (.list (.text "field" :: base :: rest)) e :=
    fun e h => absurd (exprFlaw_head h) (by decide)
  unfold expr
  rcases rest with _ | ⟨name, _ | ⟨type, _ | ⟨_, _⟩⟩⟩
  · exact Or.inl rfl
  · exact blames_projection hbase hd rfl hnone fun r hr hbase =>
      hr.field henv.table hbase name Program.inTable_none
  · exact blames_projection hbase hd rfl hnone fun r hr hbase =>
      (henv.resolve_yields type).bind fun given hgiven => hr.field henv.table hbase name hgiven
  · exact Or.inl rfl

private theorem answers_deref {base : Value} (hbase : Answers env declarations p base)
    (rest : List Value) :
    Answers env declarations p (.list (.text "deref" :: base :: rest)) := by
  intro d hd
  have hnone : ∀ e, ¬ExprFlaw declarations (.list (.text "deref" :: base :: rest)) e :=
    fun e h => absurd (exprFlaw_head h) (by decide)
  unfold expr
  cases rest with
  | nil => exact blames_projection hbase hd rfl hnone fun r hr hbase => hr.deref hbase
  | cons _ _ => exact Or.inl rfl

private theorem answers_ref {head : String} (hhead : head = "ref" ∨ head = "ref-mut") {base : Value}
    (hbase : Answers env declarations p base) (rest : List Value) :
    Answers env declarations p (.list (.text head :: base :: rest)) := by
  intro d hd
  have hnone : ∀ e, ¬ExprFlaw declarations (.list (.text head :: base :: rest)) e := by
    intro e h
    have hother := exprFlaw_head h
    rcases hhead with rfl | rfl <;> simp at hother
  rcases hhead with rfl | rfl
  all_goals
    unfold expr
    cases rest with
    | nil => exact blames_projection hbase hd rfl hnone fun r hr hbase => hr.ref hbase _
    | cons _ _ => exact Or.inl rfl

private theorem answers_index (henv : env.Grounded declarations p) {base : Value}
    (hbase : Answers env declarations p base) {rest : List Value}
    (hrest : ∀ x ∈ rest, Answers env declarations p x) :
    Answers env declarations p (.list (.text "index" :: base :: rest)) := by
  intro d hd
  have hnone : ∀ e, ¬ExprFlaw declarations (.list (.text "index" :: base :: rest)) e :=
    fun e h => absurd (exprFlaw_head h) (by decide)
  unfold expr
  rcases rest with _ | ⟨position, _ | ⟨_, _⟩⟩
  · exact blames_projection hbase hd rfl hnone fun r hr hbase =>
      hr.index henv.table fun i hi => List.mem_singleton.mp hi ▸ hbase
  · refine blames_parts hnone ?_
    refine ((hbase d hd).bind fun r hr => ?_).of_iff fun e => List.exists_mem_cons_iff ..
    refine ((hrest position List.mem_cons_self r.2 hr.grounded).andThen fun s hs => ?_).of_iff
      fun e => exists_mem_singleton
    have hids : ∀ i ∈ r.1 :: (some s.1).toList, s.2.HasExpr i := (hr.append hs).hasExpr
    exact (hs.grounded.index henv.table hids).mono fun t ht => (hr.append hs).pushed ht
  · exact Or.inl rfl

private theorem answers_compare {op : String} (hop : op ∈ comparisonOps) {left : Value}
    (hleft : Answers env declarations p left) {rest : List Value}
    (hrest : ∀ x ∈ rest, Answers env declarations p x) :
    Answers env declarations p (.list (.text op :: left :: rest)) := by
  intro d hd
  have hnone : ∀ e, ¬ExprFlaw declarations (.list (.text op :: left :: rest)) e := by
    intro e h
    have hhead := exprFlaw_head h
    simp only [comparisonOps, List.mem_cons, List.not_mem_nil, or_false] at hop hhead
    rcases hop with rfl | rfl | rfl | rfl | rfl | rfl <;> simp at hhead
  simp only [comparisonOps, List.mem_cons, List.not_mem_nil, or_false] at hop
  rcases hop with rfl | rfl | rfl | rfl | rfl | rfl
  all_goals
    unfold expr
    refine blames_parts hnone ?_
    rcases rest with _ | ⟨right, _ | ⟨_, _⟩⟩
    · exact Or.inl rfl
    · refine ((hleft d hd).bind fun r hr => ?_).of_iff fun e => List.exists_mem_cons_iff ..
      refine ((hrest right List.mem_cons_self r.2 hr.grounded).andThen fun s hs => ?_).of_iff
        fun e => exists_mem_singleton
      have hboth := hr.append hs
      exact hboth.pushed
        (FunctionDraft.pushed_of_kind_ne Program.inTable_none rfl hboth.hasExpr)
    · exact Or.inl rfl

private theorem answers_array {elements : List Value}
    (helements : ∀ x ∈ elements, Answers env declarations p x) :
    Answers env declarations p (.list (.text "array" :: elements)) := by
  have hpushed : ∀ {d : FunctionDraft} {ids : List Int}, (∀ i ∈ ids, d.HasExpr i) →
      FunctionDraft.Pushed p d (d.arrayLiteral ids none) := by
    intro d ids hids
    refine ⟨_, rfl, Program.inTable_none, fun _ => ?_, hids⟩
    rw [List.length_map, List.length_range]
  intro d hd
  unfold expr
  refine blames_parts (fun e h => absurd (exprFlaw_head h) (by decide)) ?_
  cases elements with
  | nil =>
    refine ⟨(Extended.refl hd).pushed (hpushed fun i hi => (by cases hi)), fun e he => ?_⟩
    simp [parts] at he
  | cons x xs =>
    refine ((helements x List.mem_cons_self d hd).bind fun r hr => ?_).of_iff
      fun e => List.exists_mem_cons_iff ..
    refine (exprs_blames (fun y hy => helements y (List.mem_cons_of_mem _ hy)) hr.grounded).andThen
      fun s hs => ?_
    have hall := hr.append hs
    exact hall.pushed (hpushed hall.hasExpr)

private theorem exprFlaw_call_iff {path : Value} {args : List Value} {e : Fault} :
    ExprFlaw declarations (.list (.text "call" :: path :: args)) e ↔ EndsBare args ∧ e = .bounds := by
  constructor
  · intro h
    generalize hform : Value.list (.text "call" :: path :: args) = form at h
    cases h with
    | callResult hend =>
      cases hform
      exact ⟨hend, rfl⟩
    | methodResult | methodName | unwrap | fieldName => simp at hform
  · rintro ⟨hend, rfl⟩
    exact .callResult hend

/-- What is wrong with the name of a method, where a type has to be found. -/
def MethodFlaw (declarations : List Value) (name : Name) (e : Fault) : Prop :=
  (name.isKey = false ∧ e = .shape) ∨
    ((∃ m ∈ TypeTable.unwrapMethods, name = .text m) ∧ OddPath declarations ∧ e = .notText)

private theorem exprFlaw_method_iff {name receiver : Value} {args : List Value} {e : Fault} :
    ExprFlaw declarations (.list (.text "method" :: name :: receiver :: args)) e ↔
      (EndsBare args ∧ e = .bounds) ∨ (Untyped args ∧ MethodFlaw declarations name e) := by
  constructor
  · intro h
    generalize hform : Value.list (.text "method" :: name :: receiver :: args) = form at h
    cases h with
    | methodResult hend =>
      cases hform
      exact Or.inl ⟨hend, rfl⟩
    | methodName hname htype =>
      cases hform
      exact Or.inr ⟨htype, Or.inl ⟨hname, rfl⟩⟩
    | unwrap hmethod htype hodd =>
      cases hform
      exact Or.inr ⟨htype, Or.inr ⟨⟨_, hmethod, rfl⟩, hodd, rfl⟩⟩
    | callResult | fieldName => simp at hform
  · rintro (⟨hend, rfl⟩ | ⟨htype, ⟨hname, rfl⟩ | ⟨⟨m, hm, rfl⟩, hodd, rfl⟩⟩)
    · exact .methodResult hend
    · exact .methodName hname htype
    · exact .unwrap hm htype hodd

def HasField (fields : List Value) (P : Value → Prop) : Prop :=
  ∃ name value, .list [name, value] ∈ fields ∧ P name

private theorem hasField_cons {fields : List Value} {name x : Value} {P : Value → Prop} :
    HasField (.list [name, x] :: fields) P ↔ P name ∨ HasField fields P := by
  constructor
  · rintro ⟨name', value, hmem, hp⟩
    rcases List.mem_cons.mp hmem with heq | hmem
    · cases heq
      exact Or.inl hp
    · exact Or.inr ⟨name', value, hmem, hp⟩
  · rintro (hp | ⟨name', value, hmem, hp⟩)
    · exact ⟨name, x, List.mem_cons_self, hp⟩
    · exact ⟨name', value, List.mem_cons_of_mem _ hmem, hp⟩

private theorem exprFlaw_new_iff {type : Value} {fields : List Value} {e : Fault} :
    ExprFlaw declarations (.list (.text "new" :: type :: fields)) e ↔
      HasField fields (fun name => ¬NamesField name) ∧ e = .shape := by
  constructor
  · intro h
    generalize hform : Value.list (.text "new" :: type :: fields) = form at h
    cases h with
    | fieldName hfield hname =>
      cases hform
      exact ⟨⟨_, _, hfield, hname⟩, rfl⟩
    | callResult | methodResult | methodName | unwrap => simp at hform
  · rintro ⟨⟨name, value, hfield, hname⟩, rfl⟩
    exact .fieldName hfield hname

private theorem annotated_yields (henv : env.Grounded declarations p) (form : Option Value) :
    Yields Rejects (fun given => p.InTable given ∧
      (given = none ↔ ∀ type, form = some type → type = .text "_")) (env.annotated form) := by
  cases form with
  | none => exact ⟨Program.inTable_none, by simp⟩
  | some type =>
    show Yields _ _ (env.names.resolve type)
    cases hresolve : env.names.resolve type with
    | error e =>
      have hyields := henv.resolve_yields type
      rw [hresolve] at hyields
      exact hyields
    | ok given =>
      refine ⟨henv.resolve type given hresolve, ?_⟩
      unfold TypeNames.resolve at hresolve
      split at hresolve
      · rename_i hunknown
        obtain rfl := Except.ok.inj hresolve
        simpa using hunknown
      · rename_i hknown
        split at hresolve
        · obtain rfl := Except.ok.inj hresolve
          simpa using hknown
        · cases hresolve

private theorem resultType_of_not_endsBare {args : List Value} (h : ¬EndsBare args) :
    resultType env args = env.annotated (resultAnnotation? args) := by
  unfold resultType
  split
  · rename_i rest hlast
    cases rest with
    | nil => exact absurd hlast h
    | cons type rest =>
      have hgiven : resultAnnotation? args = some type := by
        unfold resultAnnotation?
        rw [hlast]
        rfl
      rw [hgiven]
      rfl
  · rename_i hlast
    have hnone : resultAnnotation? args = none := by
      unfold resultAnnotation?
      split
      · exact absurd ‹_› (hlast _)
      · rfl
    rw [hnone]
    rfl

/-- The type at the end of a call, if there is one. -/
theorem resultType_blames (henv : env.Grounded declarations p) (args : List Value) :
    Blames (fun e => EndsBare args ∧ e = .bounds)
      (fun given => p.InTable given ∧ (given = none ↔ Untyped args)) (resultType env args) := by
  by_cases hend : EndsBare args
  · have hbare : resultType env args = .error .bounds := by
      unfold resultType
      rw [show args.getLast? = _ from hend]
      rfl
    rw [hbare]
    exact Or.inr ⟨hend, rfl⟩
  · rw [resultType_of_not_endsBare hend]
    exact (Blames.of_yields (annotated_yields henv _)).of_iff fun e => iff_false_intro fun h => hend h.1

private theorem answers_call (henv : env.Grounded declarations p) (path : Value) {args : List Value}
    (hargs : ∀ x ∈ args, Answers env declarations p x) :
    Answers env declarations p (.list (.text "call" :: path :: args)) := by
  intro d hd
  unfold expr
  refine ((resultType_blames henv args).bind fun given hgiven => ?_).of_iff
    fun e => flawed_iff.trans (or_congr_left exprFlaw_call_iff)
  refine (operands_blames hargs hd).andThen fun r hr => ?_
  exact hr.pushed (FunctionDraft.pushed_of_kind_ne hgiven.1 rfl hr.hasExpr)

private theorem method_blames (henv : env.Grounded declarations p) (hd : d.Grounded p)
    {receiver : Int} (name : Name) {args : List Int} (hparts : ∀ i ∈ receiver :: args, d.HasExpr i)
    {given : Option TypeRef} (hgiven : p.InTable given) :
    Blames (fun e => given = none ∧ MethodFlaw declarations name e) (FunctionDraft.Pushed p d)
      (d.method env.table receiver name args given) := by
  have hyields := hd.method henv.table name hparts hgiven
  have hreceiver := hparts receiver List.mem_cons_self
  obtain ⟨own, hown, hin⟩ := Yields.ok_iff.mp (hd.typeOf hreceiver)
  cases hcall : d.method env.table receiver name args given with
  | ok r =>
    rw [hcall] at hyields
    refine ⟨hyields, ?_⟩
    rintro e ⟨hnone, ⟨hname, -⟩ | ⟨-, -, rfl⟩⟩
    · cases hcall.symm.trans (hd.method_fails henv.table hreceiver ⟨hnone, own, hown, .name hname⟩)
    · rfl
  | error e =>
    rw [hcall] at hyields
    obtain ⟨hnone, own', hown', htell⟩ := hyields
    obtain rfl := Except.ok.inj (hown.symm.trans hown')
    refine Or.inr ⟨hnone, ?_⟩
    cases htell with
    | name hname => exact Or.inl ⟨hname, rfl⟩
    | @path method r t hmethod hr ht hpath =>
      obtain ⟨t', ht', hentry⟩ := henv.table.entry (hr ▸ hin)
      obtain rfl := Except.ok.inj (ht.symm.trans hentry)
      exact Or.inr ⟨⟨method, hmethod, rfl⟩, henv.oddPath t ht' hpath, rfl⟩

private theorem answers_method (henv : env.Grounded declarations p) (name : Value)
    {rest : List Value} (hrest : ∀ x ∈ rest, Answers env declarations p x) :
    Answers env declarations p (.list (.text "method" :: name :: rest)) := by
  intro d hd
  unfold expr
  cases rest with
  | nil => exact Or.inl rfl
  | cons receiver args =>
    have hreceiver := hrest receiver List.mem_cons_self
    have hargs := fun x hx => hrest x (List.mem_cons_of_mem receiver hx)
    have hsteps : Blames (fun e => (EndsBare args ∧ e = .bounds) ∨ (Flawed declarations receiver e ∨
        ((∃ x ∈ callArguments args, Flawed declarations x e) ∨
          (Untyped args ∧ MethodFlaw declarations name e)))) (fun r => Extended p d [r.1] r.2)
        (resultType env args >>= fun type => expr env d receiver >>= fun r =>
          operands env r.2 args >>= fun s => s.2.method env.table r.1 name s.1 type) := by
      refine (resultType_blames henv args).bind fun given hgiven => ?_
      refine (hreceiver d hd).bind fun r hr => ?_
      refine (operands_blames hargs hr.grounded).bind fun s hs => ?_
      have hall := hr.append hs
      refine ((method_blames henv hs.grounded name hall.hasExpr hgiven.1).mono
        fun t ht => hall.pushed ht).of_iff fun e => ?_
      rw [hgiven.2]
    have hmove : ∀ {a b c q : Prop}, (a ∨ q) ∨ b ∨ c ↔ a ∨ b ∨ c ∨ q := by tauto
    refine hsteps.of_iff fun e => flawed_iff.trans ?_
    rw [exprFlaw_method_iff, ← hmove]
    exact or_congr_right (List.exists_mem_cons_iff ..)

/-- The names that a constructor may not have are those of its fields. -/
theorem exists_putField_iff {fields : List (Value × Int)} {name : Value} {i : Int} :
    (∃ f ∈ putField fields name i, ¬NamesField f.1) ↔
      ¬NamesField name ∨ ∃ f ∈ fields, ¬NamesField f.1 := by
  unfold putField
  split
  · rename_i hany
    obtain ⟨g, hg, hsame⟩ := List.any_eq_true.mp hany
    have hnames : NamesField g.1 → NamesField name := by
      rintro ⟨s, hs, hfree⟩
      rw [hs] at hsame
      exact ⟨s, Value.text_same_iff.mp hsame, hfree⟩
    constructor
    · rintro ⟨f, hf, hodd⟩
      obtain ⟨f', hf', rfl⟩ := List.mem_map.mp hf
      refine Or.inr ⟨f', hf', ?_⟩
      split at hodd
      · exact hodd
      · exact hodd
    · have hkept : ∀ f ∈ fields, ¬NamesField f.1 →
          ∃ f ∈ fields.map (fun f => if f.1.same name then (f.1, i) else f), ¬NamesField f.1 := by
        intro f hf hodd
        refine ⟨_, List.mem_map_of_mem hf, ?_⟩
        split
        · exact hodd
        · exact hodd
      rintro (hodd | ⟨f, hf, hodd⟩)
      · exact hkept g hg fun h => hodd (hnames h)
      · exact hkept f hf hodd
  · rw [or_comm]
    simp only [List.mem_append, List.mem_singleton, or_and_right, exists_or, exists_eq_left]

/-- What is wrong with the fields of a constructor, apart from names that are no names of fields. -/
def FieldsFlaw (declarations : List Value) (fields : List Value) (e : Fault) : Prop :=
  HasField fields (fun name => (!name.isKey) = true ∧ e = .shape) ∨
    ∃ x ∈ fields.filterMap fieldValue?, Flawed declarations x e

private theorem constructorFields_blames {fields : List Value}
    (hfields : ∀ x ∈ fields.filterMap fieldValue?, Answers env declarations p x)
    {sofar : List (Value × Int)} (hd : Extended p d (sofar.map Prod.snd) d₁) :
    Blames (FieldsFlaw declarations fields) (fun r => Extended p d (r.1.map Prod.snd) r.2 ∧
      ((∃ f ∈ r.1, ¬NamesField f.1) ↔
        (∃ f ∈ sofar, ¬NamesField f.1) ∨ HasField fields fun name => ¬NamesField name))
      (constructorFields env d₁ sofar fields) := by
  induction fields generalizing d₁ sofar with
  | nil => exact ⟨⟨hd, by simp [HasField]⟩, fun e he => by simp [FieldsFlaw, HasField] at he⟩
  | cons field fields ih =>
    unfold constructorFields
    split
    · rename_i heq
      cases heq
    · rename_i name x rest heq
      obtain ⟨rfl, rfl⟩ := List.cons.inj heq
      have hsteps : Blames (fun e => Flawed declarations x e ∨
          (((!name.isKey) = true ∧ e = .shape) ∨ FieldsFlaw declarations fields e))
          (fun r => Extended p d (r.1.map Prod.snd) r.2 ∧ ((∃ f ∈ r.1, ¬NamesField f.1) ↔
            (∃ f ∈ sofar, ¬NamesField f.1) ∨
              HasField (.list [name, x] :: fields) fun name => ¬NamesField name))
          (expr env d₁ x >>= fun r => if (!name.isKey) = true then .error .shape
            else constructorFields env r.2 (putField sofar name r.1) fields) := by
        refine (hfields x List.mem_cons_self d₁ hd.grounded).bind fun r hr => .guarded fun _ => ?_
        have hput : Extended p d ((putField sofar name r.1).map Prod.snd) r.2 := by
          refine (hd.append hr).of_subset fun i hi => ?_
          obtain ⟨f, hf, rfl⟩ := List.mem_map.mp hi
          rcases mem_putField hf with hnew | hold
          · exact List.mem_append_right _ (List.mem_singleton.mpr hnew)
          · exact List.mem_append_left _ (List.mem_map_of_mem hold)
        refine (ih (fun y hy => hfields y (List.mem_cons_of_mem x hy)) hput).mono fun s hs => ?_
        refine ⟨hs.1, hs.2.trans ?_⟩
        rw [exists_putField_iff, hasField_cons, or_left_comm, or_assoc]
      refine hsteps.of_iff fun e => ?_
      unfold FieldsFlaw
      rw [hasField_cons, or_assoc, or_left_comm (a := Flawed _ _ _), or_left_comm (a := Flawed _ _ _)]
      exact or_congr_right (or_congr_right (List.exists_mem_cons_iff ..))
    · exact Or.inl rfl

/-- The names of the fields of a constructor are taken if they all may be. -/
theorem fieldNames_blames (fields : List (Value × Int)) :
    Blames (fun e => (∃ f ∈ fields, ¬NamesField f.1) ∧ e = .shape)
      (fun named => fieldNames fields = .ok named) (fieldNames fields) := by
  have hall : Blames (fun e => ∃ f ∈ fields, ¬NamesField f.1 ∧ e = .shape)
      (fun named => ∀ y ∈ named, True) (fieldNames fields) := by
    refine Blames.mapM fun f _ => ?_
    obtain ⟨name, i⟩ := f
    dsimp only
    split
    · rename_i s _
      split
      · rename_i hreserved
        refine Or.inr ⟨?_, rfl⟩
        rintro ⟨t, ht, hself, htype⟩
        obtain rfl := Value.text.inj ht
        simp [hself, htype] at hreserved
      · rename_i hfree
        refine ⟨trivial, fun e he => absurd ⟨s, rfl, ?_⟩ he.1⟩
        simpa using hfree
    · rename_i hother
      refine Or.inr ⟨?_, rfl⟩
      rintro ⟨t, ht, _⟩
      exact hother t ht
  refine (hall.with_eq.mono fun named h => h.2).of_iff fun e => ?_
  constructor
  · rintro ⟨⟨f, hf, hodd⟩, he⟩
    exact ⟨f, hf, hodd, he⟩
  · rintro ⟨f, hf, hodd, he⟩
    exact ⟨⟨f, hf, hodd⟩, he⟩

private theorem answers_new (henv : env.Grounded declarations p) (type : Value)
    {fields : List Value}
    (hfields : ∀ x ∈ fields.filterMap fieldValue?, Answers env declarations p x) :
    Answers env declarations p (.list (.text "new" :: type :: fields)) := by
  intro d hd
  unfold expr
  have hsteps : Blames (fun e => FieldsFlaw declarations fields e ∨
      (HasField fields (fun name => ¬NamesField name) ∧ e = .shape))
      (fun r => Extended p d [r.1] r.2)
      (constructorFields env d [] fields >>= fun r => env.names.resolve type >>= fun given =>
        fieldNames r.1 >>= fun named => pure (r.2.construct given named)) := by
    refine (constructorFields_blames hfields (.refl hd)).bind fun r hr => ?_
    refine .after (henv.resolve_yields type) fun given hgiven => ?_
    refine ((fieldNames_blames r.1).andThen fun named hnamed => ?_).of_iff fun e => ?_
    · have hvalues : r.1.map Prod.snd = named.map Prod.snd := by
        rw [fieldNames_eq_ok hnamed, List.map_map]
        rfl
      refine hr.1.pushed ⟨_, rfl, hgiven, fun _ => ?_, ?_⟩
      · rw [List.length_map, List.length_map]
      · exact hvalues ▸ hr.1.hasExpr
    · rw [hr.2]
      simp
  refine hsteps.of_iff fun e => flawed_iff.trans ?_
  rw [exprFlaw_new_iff, or_comm]
  unfold FieldsFlaw
  rw [or_assoc]
  -- A name that is a list is no name of a field either.
  refine (or_iff_right_of_imp ?_).symm
  rintro ⟨name, value, hmem, hkey, he⟩
  refine Or.inr ⟨⟨name, value, hmem, ?_⟩, he⟩
  rintro ⟨s, rfl, _⟩
  cases hkey

/-- A form that begins with a word is read as far as its items are, and the values of fields among
them. -/
theorem answers_list (henv : env.Grounded declarations p) (head : String) {args : List Value}
    (hargs : ∀ x ∈ args, Answers env declarations p x)
    (hfields : ∀ x ∈ args.filterMap fieldValue?, Answers env declarations p x) :
    Answers env declarations p (.list (.text head :: args)) := by
  by_cases harray : head = "array"
  · subst harray
    exact answers_array hargs
  cases args with
  | nil =>
    intro d hd
    unfold expr
    simp only [beq_iff_eq, harray, if_false]
    exact Or.inl rfl
  | cons a rest =>
    have ha := hargs a List.mem_cons_self
    have hrest := fun x hx => hargs x (List.mem_cons_of_mem a hx)
    by_cases hliteral : head = "lit"
    · subst hliteral
      exact answers_literal henv a rest
    by_cases hfield : head = "field"
    · subst hfield
      exact answers_field henv ha rest
    by_cases hderef : head = "deref"
    · subst hderef
      exact answers_deref ha rest
    by_cases href : head = "ref" ∨ head = "ref-mut"
    · exact answers_ref href ha rest
    by_cases hindex : head = "index"
    · subst hindex
      exact answers_index henv ha hrest
    by_cases hcall : head = "call"
    · subst hcall
      exact answers_call henv a hrest
    by_cases hmethod : head = "method"
    · subst hmethod
      exact answers_method henv a hrest
    by_cases hcompare : head ∈ comparisonOps
    · exact answers_compare hcompare ha hrest
    by_cases hnew : head = "new"
    · subst hnew
      refine answers_new henv a fun x hx => hfields x ?_
      rw [List.filterMap_cons]
      split
      · exact hx
      · exact List.mem_cons_of_mem _ hx
    intro d hd
    unfold expr
    simp only [beq_iff_eq, Bool.or_eq_true, List.contains_iff_mem, hliteral, hfield, hderef, href, hindex,
      hcall, hmethod, hcompare, hnew, harray, if_false]
    exact Or.inl rfl

/-- Reading an expression fails for its flaws only. -/
theorem expr_answers (henv : env.Grounded declarations p) (form : Value) :
    Answers env declarations p form := by
  match form with
  | .text s => exact answers_text s
  | .int i => exact answers_int i
  | .float x => exact answers_float x
  | .list (.text head :: args) =>
    refine answers_list henv head (fun x hx => ?_) (fun x hx => ?_)
    · have hlt := sizeOf_lt_of_mem (.text head) hx
      exact expr_answers henv x
    · have hlt := sizeOf_lt_of_mem_fields (.text head) hx
      exact expr_answers henv x
  | .null | .bool _ | .bytes _ | .record _ _ | .list [] | .list (.null :: _) | .list (.bool _ :: _)
  | .list (.int _ :: _) | .list (.float _ :: _) | .list (.bytes _ :: _) | .list (.list _ :: _)
  | .list (.record _ _ :: _) =>
    intro d hd
    exact Or.inl rfl
termination_by sizeOf form
decreasing_by all_goals exact hlt

end AccountLint.Document

import AccountLint.Proofs.Document.Constructors

/-! What reading an expression adds to a draft: the expressions of its parts, one part after the
other, and then the expression itself. -/
namespace AccountLint.Document

/-- A type that the draft suggests for an expression: that of a declared name or of an expression,
or what the table tells about the type of an expression. -/
inductive Inferred (table : TypeTable) (d : FunctionDraft) : Option TypeRef → Prop where
  | unknown : Inferred table d none
  | declared (name : Name) : Inferred table d (d.declared? name).join
  | expr {i : Int} {type : Option TypeRef} (h : d.typeOf i = .ok type) : Inferred table d type
  | field {i : Int} {type result : Option TypeRef} {name : Name} (h : d.typeOf i = .ok type)
      (hr : table.fieldType type name = .ok result) : Inferred table d result
  | element {i : Int} {type result : Option TypeRef} (h : d.typeOf i = .ok type)
      (hr : table.elementType type = .ok result) : Inferred table d result
  | method {i : Int} {type result : Option TypeRef} {name : Name} (h : d.typeOf i = .ok type)
      (hr : table.methodType type name = .ok result) : Inferred table d result

/-- A type that is given, or one that the draft suggests if none is given. -/
inductive Filled (table : TypeTable) (d : FunctionDraft) : Option TypeRef → Option TypeRef → Prop where
  | given (r : TypeRef) : Filled table d (some r) (some r)
  | inferred {type : Option TypeRef} (h : Inferred table d type) : Filled table d none type

def Env.annotated (env : Env) : Option Value → Except Fault (Option TypeRef)
  | none => .ok none
  | some type => env.names.resolve type

/-- Adds the expressions of some forms to a draft, with these ids. An expression is made of those of
its parts that are kept. -/
inductive Adds (env : Env) : FunctionDraft → List Value → List Int → FunctionDraft → Prop where
  | nil (d : FunctionDraft) : Adds env d [] [] d
  | cons {d d₁ d₂ : FunctionDraft} {form : Value} {forms : List Value} {i : Int} {ids : List Int}
      (hform : Adds env d [form] [i] d₁) (hforms : Adds env d₁ forms ids d₂) :
      Adds env d (form :: forms) (i :: ids) d₂
  | node {d d₁ : FunctionDraft} {form : Value} {ids : List Int} {e : Expr} {given : Option TypeRef}
      (hparts : Adds env d (parts form) ids d₁) (hchildren : e.children = kept form ids)
      (hkeeps : Keeps form e.bare) (hgiven : env.annotated (annotation? form) = .ok given)
      (htype : Filled env.table d₁ given e.type) :
      Adds env d [form] [(d₁.push e).1] (d₁.push e).2

/-- What is read from a form are the expressions that it adds. -/
def Reads (env : Env) (form : Value) : Prop :=
  ∀ d i d', expr env d form = .ok (i, d') → Adds env d [form] [i] d'

variable {env : Env} {d d' : FunctionDraft}

private theorem exprs_adds {forms : List Value} (hforms : ∀ x ∈ forms, Reads env x) {ids : List Int}
    (h : exprs env d forms = .ok (ids, d')) : Adds env d forms ids d' := by
  induction forms generalizing d ids with
  | nil =>
    obtain ⟨rfl, rfl⟩ := Prod.mk.inj (Except.ok.inj h)
    exact .nil d
  | cons x forms ih =>
    rw [exprs] at h
    obtain ⟨⟨i, d₁⟩, hx, h⟩ := bind_eq_ok.mp h
    obtain ⟨⟨rest, d₂⟩, hrest, h⟩ := bind_eq_ok.mp h
    obtain ⟨rfl, rfl⟩ := Prod.mk.inj (pure_eq_ok.mp h)
    exact .cons (hforms x List.mem_cons_self d i d₁ hx)
      (ih (fun y hy => hforms y (List.mem_cons_of_mem _ hy)) hrest)

theorem callArguments_cons {x : Value} {xs : List Value}
    (h : ¬(xs.isEmpty && hasHead "->" x) = true) :
    callArguments (x :: xs) = x :: callArguments xs := by
  cases xs with
  | nil =>
    have hx : hasHead "->" x = false := by simpa using h
    simp [callArguments, hx]
  | cons y ys =>
    unfold callArguments
    rw [List.getLast?_cons_cons, List.dropLast_cons_cons]
    split <;> rfl

private theorem operands_adds {args : List Value} (hargs : ∀ x ∈ args, Reads env x) {ids : List Int}
    (h : operands env d args = .ok (ids, d')) : Adds env d (callArguments args) ids d' := by
  induction args generalizing d ids with
  | nil =>
    obtain ⟨rfl, rfl⟩ := Prod.mk.inj (Except.ok.inj h)
    exact .nil d
  | cons x args ih =>
    rw [operands] at h
    split at h
    · rename_i hlast
      obtain ⟨hempty, hhead⟩ := Bool.and_eq_true_iff.mp hlast
      obtain rfl := List.isEmpty_iff.mp hempty
      obtain ⟨rfl, rfl⟩ := Prod.mk.inj (Except.ok.inj h)
      have hnone : callArguments [x] = [] := by simp [callArguments, hhead]
      rw [hnone]
      exact .nil d
    · rename_i hlast
      obtain ⟨⟨i, d₁⟩, hx, h⟩ := bind_eq_ok.mp h
      obtain ⟨⟨rest, d₂⟩, hrest, h⟩ := bind_eq_ok.mp h
      obtain ⟨rfl, rfl⟩ := Prod.mk.inj (pure_eq_ok.mp h)
      rw [callArguments_cons hlast]
      exact .cons (hargs x List.mem_cons_self d i d₁ hx)
        (ih (fun y hy => hargs y (List.mem_cons_of_mem _ hy)) hrest)

private theorem annotated_of_resultType {args : List Value} {r : Option TypeRef}
    (h : resultType env args = .ok r) : env.annotated (resultAnnotation? args) = .ok r := by
  unfold resultType at h
  unfold resultAnnotation?
  split at h
  · rename_i rest hlast
    rw [hlast]
    split at h
    · exact h
    · cases h
  · rename_i hlast
    split
    · rename_i type rest hargs
      exact absurd hargs (hlast (type :: rest))
    · exact h

private theorem Adds.of_node {d₁ : FunctionDraft} {form : Value} {ids : List Int} {e : Expr}
    {given : Option TypeRef} {i : Int} (h : d₁.push e = (i, d'))
    (hparts : Adds env d (parts form) ids d₁) (hchildren : e.children = kept form ids)
    (hkeeps : Keeps form e.bare) (hgiven : env.annotated (annotation? form) = .ok given)
    (htype : Filled env.table d₁ given e.type) : Adds env d [form] [i] d' := by
  have hnode := Adds.node hparts hchildren hkeeps hgiven htype
  rw [h] at hnode
  exact hnode

/-- A form that is no constructor keeps all of its parts. -/
theorem Adds.of_push {d₁ : FunctionDraft} {form : Value} {ids : List Int} {e : Expr}
    {given : Option TypeRef} {i : Int} (h : d₁.push e = (i, d'))
    (hparts : Adds env d (parts form) ids d₁) (hchildren : e.children = ids)
    (hother : hasHead "new" form = false) (hshows : Shows form e.bare)
    (hgiven : env.annotated (annotation? form) = .ok given)
    (htype : Filled env.table d₁ given e.type) : Adds env d [form] [i] d' :=
  .of_node h hparts (hchildren.trans (kept_of_not_new hother ids).symm) (.shows hother hshows) hgiven htype

private theorem field_eq_ok {table : TypeTable} {base : Int} {name : Name} {given : Option TypeRef}
    {i : Int} (h : d.field table base name given = .ok (i, d')) :
    ∃ type, Filled table d given type ∧ d.push
      { id := 0, kind := .field, receiver := some base, name := some name, type := type } = (i, d') := by
  unfold FunctionDraft.field at h
  cases given with
  | some r => exact ⟨some r, .given r, pure_eq_ok.mp h⟩
  | none =>
    obtain ⟨own, hown, h⟩ := bind_eq_ok.mp h
    obtain ⟨type, htype, h⟩ := bind_eq_ok.mp h
    exact ⟨type, .inferred (.field hown htype), pure_eq_ok.mp h⟩

private theorem method_eq_ok {table : TypeTable} {receiver : Int} {name : Name} {args : List Int}
    {given : Option TypeRef} {i : Int} (h : d.method table receiver name args given = .ok (i, d')) :
    ∃ type, Filled table d given type ∧ d.push
      { id := 0, kind := .call, name := some name, receiver := some receiver, operands := args
        type := type } = (i, d') := by
  unfold FunctionDraft.method at h
  cases given with
  | some r => exact ⟨some r, .given r, pure_eq_ok.mp h⟩
  | none =>
    obtain ⟨own, hown, h⟩ := bind_eq_ok.mp h
    obtain ⟨type, htype, h⟩ := bind_eq_ok.mp h
    exact ⟨type, .inferred (.method hown htype), pure_eq_ok.mp h⟩

theorem reads_text (s : String) : Reads env (.text s) := by
  intro d i d' h
  rw [expr_text] at h
  exact .of_push (Except.ok.inj h) (.nil d) rfl rfl .var rfl (.inferred (.declared _))

private theorem reads_int (n : Int) : Reads env (.int n) := by
  intro d i d' h
  rw [expr_int] at h
  exact .of_push (Except.ok.inj h) (.nil d) rfl rfl .int rfl (.inferred .unknown)

private theorem reads_float (x : Binary64) : Reads env (.float x) := by
  intro d i d' h
  rw [expr_float] at h
  exact .of_push (Except.ok.inj h) (.nil d) rfl rfl .float rfl (.inferred .unknown)

/-- A type that is given and stays as it is. -/
theorem Filled.self (table : TypeTable) (d : FunctionDraft) (type : Option TypeRef) :
    Filled table d type type := by
  cases type with
  | none => exact .inferred .unknown
  | some r => exact .given r

private theorem reads_literal (value : Value) (type : List Value) :
    Reads env (.list (.text "lit" :: value :: type)) := by
  intro d i d' h
  unfold expr at h
  obtain ⟨given, hgiven, h⟩ := bind_eq_ok.mp h
  have hparts : parts (.list (.text "lit" :: value :: type)) = [] := by
    rcases type with _ | ⟨t, _ | ⟨u, type⟩⟩
    · rfl
    · rfl
    · rfl
  have hannotated : env.annotated (annotation? (.list (.text "lit" :: value :: type))) = .ok given := by
    cases type with
    | nil => exact hgiven
    | cons t type => exact hgiven
  have hpush : d.push { id := 0, kind := .literal, value := value, type := given } = (i, d') :=
    pure_eq_ok.mp h
  exact .of_push hpush (hparts ▸ .nil d) rfl rfl .literal hannotated (.self _ _ _)

private theorem reads_field {base : Value} (hbase : Reads env base) (rest : List Value) :
    Reads env (.list (.text "field" :: base :: rest)) := by
  intro d i d' h
  unfold expr at h
  rcases rest with _ | ⟨name, _ | ⟨type, _ | ⟨_, _⟩⟩⟩
  · cases h
  · obtain ⟨⟨b, d₁⟩, hb, h⟩ := bind_eq_ok.mp h
    obtain ⟨type, htype, h⟩ := field_eq_ok h
    exact .of_push h (hbase d b d₁ hb) rfl rfl (.field (by simp)) rfl htype
  · obtain ⟨⟨b, d₁⟩, hb, h⟩ := bind_eq_ok.mp h
    obtain ⟨given, hgiven, h⟩ := bind_eq_ok.mp h
    obtain ⟨type, htype, h⟩ := field_eq_ok h
    exact .of_push h (hbase d b d₁ hb) rfl rfl (.field (by simp)) hgiven htype
  · cases h

/-- Dereferences and borrows have the type of what they are taken of. -/
theorem reads_projection {head : String} (hhead : head ∈ ["deref", "ref", "ref-mut"]) {base : Value}
    (hbase : Reads env base) (rest : List Value) : Reads env (.list (.text head :: base :: rest)) := by
  intro d i d' h
  simp only [List.mem_cons, List.not_mem_nil, or_false] at hhead
  rcases hhead with rfl | rfl | rfl
  all_goals
    unfold expr at h
    cases rest with
    | nil =>
      obtain ⟨⟨b, d₁⟩, hb, h⟩ := bind_eq_ok.mp h
      obtain ⟨type, htype, h⟩ := bind_eq_ok.mp h
      exact .of_push (pure_eq_ok.mp h) (hbase d b d₁ hb) rfl rfl (by constructor) rfl
        (.inferred (.expr htype))
    | cons _ _ => cases h

private theorem reads_index {base : Value} (hbase : Reads env base) {rest : List Value}
    (hrest : ∀ x ∈ rest, Reads env x) : Reads env (.list (.text "index" :: base :: rest)) := by
  intro d i d' h
  unfold expr at h
  rcases rest with _ | ⟨position, _ | ⟨_, _⟩⟩
  · obtain ⟨⟨b, d₁⟩, hb, h⟩ := bind_eq_ok.mp h
    obtain ⟨own, hown, h⟩ := bind_eq_ok.mp h
    obtain ⟨type, htype, h⟩ := bind_eq_ok.mp h
    exact .of_push (pure_eq_ok.mp h) (hbase d b d₁ hb) rfl rfl (.index (by simp)) rfl
      (.inferred (.element hown htype))
  · obtain ⟨⟨b, d₁⟩, hb, h⟩ := bind_eq_ok.mp h
    obtain ⟨⟨p, d₂⟩, hp, h⟩ := bind_eq_ok.mp h
    obtain ⟨own, hown, h⟩ := bind_eq_ok.mp h
    obtain ⟨type, htype, h⟩ := bind_eq_ok.mp h
    have hparts : Adds env d [base, position] [b, p] d₂ :=
      .cons (hbase d b d₁ hb) (hrest position List.mem_cons_self d₁ p d₂ hp)
    exact .of_push (pure_eq_ok.mp h) hparts rfl rfl (.index (by simp)) rfl
      (.inferred (.element hown htype))
  · cases h

private theorem reads_call (path : Value) {args : List Value} (hargs : ∀ x ∈ args, Reads env x) :
    Reads env (.list (.text "call" :: path :: args)) := by
  intro d i d' h
  unfold expr at h
  obtain ⟨type, htype, h⟩ := bind_eq_ok.mp h
  obtain ⟨⟨ids, d₁⟩, hids, h⟩ := bind_eq_ok.mp h
  exact .of_push (pure_eq_ok.mp h) (operands_adds hargs hids) rfl rfl .call
    (annotated_of_resultType htype) (.self _ _ _)

private theorem reads_method (name : Value) {rest : List Value} (hrest : ∀ x ∈ rest, Reads env x) :
    Reads env (.list (.text "method" :: name :: rest)) := by
  intro d i d' h
  unfold expr at h
  cases rest with
  | nil => cases h
  | cons receiver args =>
    obtain ⟨given, hgiven, h⟩ := bind_eq_ok.mp h
    obtain ⟨⟨b, d₁⟩, hb, h⟩ := bind_eq_ok.mp h
    obtain ⟨⟨ids, d₂⟩, hids, h⟩ := bind_eq_ok.mp h
    obtain ⟨type, htype, h⟩ := method_eq_ok h
    have hparts : Adds env d (receiver :: callArguments args) (b :: ids) d₂ :=
      .cons (hrest receiver List.mem_cons_self d b d₁ hb)
        (operands_adds (fun x hx => hrest x (List.mem_cons_of_mem _ hx)) hids)
    exact .of_push h hparts rfl rfl .method (annotated_of_resultType hgiven) htype

private theorem reads_compare {op : String} (hop : op ∈ comparisonOps) {left : Value}
    (hleft : Reads env left) {rest : List Value} (hrest : ∀ x ∈ rest, Reads env x) :
    Reads env (.list (.text op :: left :: rest)) := by
  intro d i d' h
  have hops := hop
  simp only [comparisonOps, List.mem_cons, List.not_mem_nil, or_false] at hops
  -- The operators are words of their own, so that no other form has them.
  rcases hops with rfl | rfl | rfl | rfl | rfl | rfl
  all_goals
    unfold expr at h
    rcases rest with _ | ⟨right, _ | ⟨_, _⟩⟩
    · cases h
    · obtain ⟨⟨l, d₁⟩, hl, h⟩ := bind_eq_ok.mp h
      obtain ⟨⟨r, d₂⟩, hr, h⟩ := bind_eq_ok.mp h
      have hparts : Adds env d [left, right] [l, r] d₂ :=
        .cons (hleft d l d₁ hl) (hrest right List.mem_cons_self d₁ r d₂ hr)
      exact .of_push (pure_eq_ok.mp h) hparts rfl rfl (.compare hop) rfl (.inferred .unknown)
    · cases h

private theorem reads_array {elements : List Value} (helements : ∀ x ∈ elements, Reads env x) :
    Reads env (.list (.text "array" :: elements)) := by
  intro d i d' h
  unfold expr at h
  cases elements with
  | nil => exact .of_push (Except.ok.inj h) (.nil d) rfl rfl .array rfl (.inferred .unknown)
  | cons x xs =>
    obtain ⟨⟨b, d₁⟩, hb, h⟩ := bind_eq_ok.mp h
    obtain ⟨⟨ids, d₂⟩, hids, h⟩ := bind_eq_ok.mp h
    have hparts : Adds env d (x :: xs) (b :: ids) d₂ :=
      .cons (helements x List.mem_cons_self d b d₁ hb)
        (exprs_adds (fun y hy => helements y (List.mem_cons_of_mem _ hy)) hids)
    exact .of_push (pure_eq_ok.mp h) hparts rfl rfl .array rfl (.inferred .unknown)

/-- The values of the fields of a constructor are added in order, and put under their names. -/
theorem constructorFields_adds {fields : List Value}
    (hfields : ∀ x ∈ fields.filterMap fieldValue?, Reads env x) {sofar found : List (Value × Int)}
    (h : constructorFields env d sofar fields = .ok (found, d')) :
    ∃ (pairs : List (Value × Value)) (ids : List Int),
      fields = pairs.map (fun q => .list [q.1, q.2]) ∧ ids.length = pairs.length ∧
      Adds env d (pairs.map Prod.snd) ids d' ∧
      found = putFields sofar ((pairs.map Prod.fst).zip ids) := by
  induction fields generalizing d sofar with
  | nil =>
    obtain ⟨rfl, rfl⟩ := Prod.mk.inj (Except.ok.inj h)
    exact ⟨[], [], rfl, rfl, .nil d, rfl⟩
  | cons field fields ih =>
    unfold constructorFields at h
    split at h
    · rename_i heq
      cases heq
    · rename_i name x rest heq
      obtain ⟨rfl, rfl⟩ := List.cons.inj heq
      obtain ⟨⟨i, d₁⟩, hx, h⟩ := bind_eq_ok.mp h
      dsimp only at h
      split at h
      · cases h
      · have hrest := fun y hy => hfields y (List.mem_cons_of_mem x hy)
        obtain ⟨pairs, ids, rfl, hlength, hadds, rfl⟩ := ih hrest h
        refine ⟨(name, x) :: pairs, i :: ids, rfl, congrArg (· + 1) hlength, ?_, rfl⟩
        exact .cons (hfields x List.mem_cons_self d i d₁ hx) hadds
    · cases h

private theorem map_fieldName? {pairs : List (Value × Value)} {texts : List String}
    (h : texts.map Value.text = pairs.map Prod.fst) :
    (pairs.map fun q => Value.list [q.1, q.2]).map fieldName? = texts.map some := by
  have hname : ∀ q : Value × Value, fieldName? (.list [q.1, q.2]) = q.1.text? := by
    intro q
    cases q.1 <;> rfl
  calc (pairs.map fun q => Value.list [q.1, q.2]).map fieldName?
      = (pairs.map Prod.fst).map Value.text? := by
        rw [List.map_map, List.map_map]
        exact List.map_congr_left fun q _ => hname q
    _ = texts.map some := by
        rw [← h, List.map_map]
        rfl

private theorem filterMap_fieldValue? (pairs : List (Value × Value)) :
    (pairs.map fun q => Value.list [q.1, q.2]).filterMap fieldValue? = pairs.map Prod.snd := by
  rw [List.filterMap_map]
  exact congrFun List.filterMap_eq_map pairs

private theorem reads_new (type : Value) {fields : List Value}
    (hfields : ∀ x ∈ fields.filterMap fieldValue?, Reads env x) :
    Reads env (.list (.text "new" :: type :: fields)) := by
  intro d i d' h
  unfold expr at h
  obtain ⟨⟨found, d₁⟩, hfound, h⟩ := bind_eq_ok.mp h
  obtain ⟨given, hgiven, h⟩ := bind_eq_ok.mp h
  obtain ⟨named, hnamed, h⟩ := bind_eq_ok.mp h
  have hpush : d₁.push { id := 0, kind := .construct, type := given, fieldNames := named.map Prod.fst
                         operands := named.map Prod.snd } = (i, d') := pure_eq_ok.mp h
  obtain ⟨pairs, ids, rfl, hlength, hadds, rfl⟩ := constructorFields_adds hfields hfound
  rw [← filterMap_fieldValue?] at hadds
  obtain ⟨texts, htexts⟩ := exists_texts (by rw [List.length_map, hlength]) hnamed
  have hnames := map_fieldName? htexts
  rw [← htexts] at hnamed
  obtain ⟨hfst, hsnd⟩ := named_settled (by
    rw [hlength, ← List.length_map Prod.fst, ← htexts, List.length_map]) hnamed
  refine .of_node hpush hadds ?_ ?_ hgiven (.self _ _ _)
  · show named.map Prod.snd = settle _ ids
    rw [(filterMap_fieldName? hnames).1]
    exact hsnd
  · show Keeps _ { id := 0, kind := .construct, fieldNames := named.map Prod.fst
                   operands := named.map Prod.snd }
    rw [hfst]
    exact .construct hnames

/-- A form that begins with a word is read if its items are, and the values of fields among them. -/
theorem reads_list (head : String) {args : List Value} (hargs : ∀ x ∈ args, Reads env x)
    (hfields : ∀ x ∈ args.filterMap fieldValue?, Reads env x) :
    Reads env (.list (.text head :: args)) := by
  by_cases harray : head = "array"
  · subst harray
    exact reads_array hargs
  cases args with
  | nil =>
    intro d i d' h
    unfold expr at h
    simp only [beq_iff_eq, harray, if_false, reduceCtorEq] at h
  | cons a rest =>
    have ha := hargs a List.mem_cons_self
    have hrest := fun x hx => hargs x (List.mem_cons_of_mem a hx)
    by_cases hliteral : head = "lit"
    · subst hliteral
      exact reads_literal a rest
    by_cases hfield : head = "field"
    · subst hfield
      exact reads_field ha rest
    by_cases hprojection : head ∈ ["deref", "ref", "ref-mut"]
    · exact reads_projection hprojection ha rest
    by_cases hindex : head = "index"
    · subst hindex
      exact reads_index ha hrest
    by_cases hcall : head = "call"
    · subst hcall
      exact reads_call a hrest
    by_cases hmethod : head = "method"
    · subst hmethod
      exact reads_method a hrest
    by_cases hcompare : head ∈ comparisonOps
    · exact reads_compare hcompare ha hrest
    by_cases hnew : head = "new"
    · subst hnew
      refine reads_new a fun x hx => hfields x ?_
      rw [List.filterMap_cons]
      split
      · exact hx
      · exact List.mem_cons_of_mem _ hx
    intro d i d' h
    simp only [List.mem_cons, List.not_mem_nil, or_false, not_or] at hprojection
    unfold expr at h
    simp only [beq_iff_eq, Bool.or_eq_true, List.contains_iff_mem, hliteral, hfield, hprojection, hindex,
      hcall, hmethod, hcompare, hnew, harray, or_self, if_false, reduceCtorEq] at h

/-- Reading an expression adds its parts and then the expression. -/
theorem expr_reads (env : Env) (form : Value) : Reads env form := by
  match form with
  | .text s => exact reads_text s
  | .int i => exact reads_int i
  | .float x => exact reads_float x
  | .list (.text head :: args) =>
    refine reads_list head (fun x hx => ?_) (fun x hx => ?_)
    · have hlt := sizeOf_lt_of_mem (.text head) hx
      exact expr_reads env x
    · have hlt := sizeOf_lt_of_mem_fields (.text head) hx
      exact expr_reads env x
  | .null | .bool _ | .bytes _ | .record _ _ | .list [] | .list (.null :: _) | .list (.bool _ :: _)
  | .list (.int _ :: _) | .list (.float _ :: _) | .list (.bytes _ :: _) | .list (.list _ :: _)
  | .list (.record _ _ :: _) =>
    intro d i d' h
    cases h
termination_by sizeOf form
decreasing_by all_goals exact hlt

end AccountLint.Document

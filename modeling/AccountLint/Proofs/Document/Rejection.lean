import AccountLint.Proofs.Document.Grounding

/-! Which documents are rejected. Reading a document fails by a rejection, or else because something
in the document has a flaw; and a document with a flaw is not accepted, with one exception. -/
namespace AccountLint.Document

variable {names : TypeNames}

private theorem setOf_blames (xs : List Value) :
    Blames (fun e => (∃ v ∈ xs, v.isKey = false) ∧ e = .shape) (fun _ => True) (setOf xs) := by
  unfold setOf
  split
  · rename_i hall
    refine ⟨trivial, ?_⟩
    rintro e ⟨⟨v, hv, hkey⟩, -⟩
    rw [List.all_eq_true.mp hall v hv] at hkey
    cases hkey
  · rename_i hall
    refine Or.inr ⟨?_, rfl⟩
    simpa using hall

private theorem options_yields (forms : List Value) : Safe Rejects (options forms) := by
  refine Yields.foldlM trivial fun found _ form _ => ?_
  split
  · trivial
  · rfl

private theorem optionInt_yields (o : Options) (word : String) (default : Option Int) :
    Safe Rejects (o.int word default) := by
  unfold Options.int
  split
  · trivial
  · trivial
  · rfl

private theorem optionLocation_yields (o : Options) : Safe Rejects o.location := by
  unfold Options.location
  split
  · exact location_yields _
  · trivial

/-- The set in an option. -/
theorem itemSet_blames {forms : List Value} {o : Options} (ho : options forms = .ok o)
    (word : String) :
    Blames (fun e => ListsIn word forms ∧ e = .shape) (fun _ => True) (setOf (o.items word)) := by
  rw [options_items ho]
  exact setOf_blames _

private theorem fieldFlaw_iff {name type : Value} {options : List Value} :
    FieldFlaw (.list (name :: type :: options)) ↔
      ListsIn "constraints" options ∨ ListsIn "distinct" options := by
  constructor
  · rintro ⟨_, _, _, heq, word, hword, hlists⟩
    cases heq
    simp only [List.mem_cons, List.not_mem_nil, or_false] at hword
    rcases hword with rfl | rfl
    · exact Or.inl hlists
    · exact Or.inr hlists
  · rintro (hlists | hlists)
    · exact ⟨name, type, options, rfl, _, List.mem_cons_self, hlists⟩
    · exact ⟨name, type, options, rfl, _, List.mem_cons_of_mem _ List.mem_cons_self, hlists⟩

/-- Reading a field of a type fails for its flaws only. -/
theorem field_blames (names : TypeNames) (form : Value) :
    Blames (fun e => FieldFlaw form ∧ e = .shape) (fun _ => True) (field names form) := by
  unfold field
  split
  · rename_i name type forms
    refine .after (options_yields forms).with_eq fun o ho => ?_
    refine .after (resolve_safe names type) fun r _ => ?_
    refine ((itemSet_blames ho.2 "constraints").bind fun constraints _ =>
      (itemSet_blames ho.2 "distinct").andThen fun distinctFrom _ => ?_).of_iff fun e => ?_
    · exact (optionLocation_yields o).bind fun _ _ => trivial
    · rw [fieldFlaw_iff, or_and_right]
  · exact Or.inl rfl

private theorem typePath_blames {name : Value} {forms : List Value} {o : Options}
    (ho : options forms = .ok o) :
    Blames (fun e => lastOption? "path" forms = some [] ∧ e = .bounds)
      (fun path => ((lastOption? "path" forms).getD [name]).head? = some path) (typePath name o) := by
  unfold typePath
  rw [options_lookup ho]
  split
  · rename_i hnone
    exact ⟨by rw [hnone]; rfl, fun e he => by simp [hnone] at he⟩
  · rename_i hsome
    exact ⟨by rw [hsome]; rfl, fun e he => by simp [hsome] at he⟩
  · rename_i hempty
    exact Or.inr ⟨hempty, rfl⟩

/-- What is wrong with the declaration of a type, apart from its name and path. -/
def DeclFlaw (kind : Value) (options : List Value) (e : Fault) : Prop :=
  ((!kind.isKey) = true ∧ e = .shape) ∨ (lastOption? "path" options = some [] ∧ e = .bounds) ∨
    (∃ form ∈ (lastOption? "fields" options).getD [], FieldFlaw form ∧ e = .shape) ∨
    (ListsIn "traits" options ∧ e = .shape) ∨ (ListsIn "attrs" options ∧ e = .shape)

private theorem typeDecl_blames (names : TypeNames) (form name kind : Value) (forms : List Value) :
    Blames (DeclFlaw kind forms)
      (fun d => ((lastOption? "path" forms).getD [name]).head? = some d.path)
      (typeDecl names form name kind forms) := by
  unfold typeDecl DeclFlaw
  refine Blames.guarded fun _ => ?_
  split
  · exact Or.inl rfl
  · refine .after (options_yields forms).with_eq fun o ho => ?_
    refine .after (optionInt_yields o _ _) fun length _ => ?_
    refine (typePath_blames ho.2).bind fun path hpath => ?_
    have hfields : Blames (fun e => ∃ form ∈ (lastOption? "fields" forms).getD [],
        FieldFlaw form ∧ e = .shape) (fun ys => ∀ y ∈ ys, True) ((o.items "fields").mapM (field names)) := by
      rw [options_items ho.2]
      exact Blames.mapM fun form _ => field_blames names form
    refine hfields.bind fun fields _ => ?_
    refine .after (optionInt_yields o _ _) fun variants _ => ?_
    refine .after (Yields.mapM_safe fun arg _ => resolve_safe names arg) fun args _ => ?_
    refine .after (optionLocation_yields o) fun location _ => ?_
    refine (itemSet_blames ho.2 "traits").bind fun traits _ => ?_
    refine (itemSet_blames ho.2 "attrs").andThen fun attributes _ => ?_
    exact hpath

private theorem add_blames (t : TypeTable) (d : TypeDecl) :
    Blames (fun e => d.path.isKey = false ∧ e = .shape) (fun _ => True) (t.add d).2 := by
  unfold TypeTable.add
  dsimp only
  split
  · rename_i hkey
    exact Or.inr ⟨by simpa using hkey, rfl⟩
  · rename_i hkey
    split
    · exact ⟨trivial, fun e he => by simp [he.1] at hkey⟩
    · exact ⟨trivial, fun e he => by simp [he.1] at hkey⟩

/-- A list stands for the path of a declared type. -/
def PathFlaw (options : List Value) : Prop :=
  ∃ path rest, lastOption? "path" options = some (path :: rest) ∧ path.isKey = false

private theorem typeFlaw_iff {first name kind : Value} {options : List Value} {e : Fault} :
    TypeFlaw (.list (first :: name :: kind :: options)) e ↔
      (name.isKey = false ∧ e = .shape) ∨ DeclFlaw kind options e ∨ (PathFlaw options ∧ e = .shape) := by
  constructor
  · intro h
    cases h with
    | name h => exact Or.inl ⟨h, rfl⟩
    | kind h => exact Or.inr (Or.inl (Or.inl ⟨by rw [h]; rfl, rfl⟩))
    | noPath h => exact Or.inr (Or.inl (Or.inr (Or.inl ⟨h, rfl⟩)))
    | path hpath h => exact Or.inr (Or.inr ⟨⟨_, _, hpath, h⟩, rfl⟩)
    | set hword h =>
      simp only [List.mem_cons, List.not_mem_nil, or_false] at hword
      rcases hword with rfl | rfl
      · exact Or.inr (Or.inl (Or.inr (Or.inr (Or.inr (Or.inl ⟨h, rfl⟩)))))
      · exact Or.inr (Or.inl (Or.inr (Or.inr (Or.inr (Or.inr ⟨h, rfl⟩)))))
    | field hfield h => exact Or.inr (Or.inl (Or.inr (Or.inr (Or.inl ⟨_, hfield, h, rfl⟩))))
  · rintro (⟨h, rfl⟩ | (⟨h, rfl⟩ | ⟨h, rfl⟩ | ⟨f, hf, h, rfl⟩ | ⟨h, rfl⟩ | ⟨h, rfl⟩) |
      ⟨⟨path, rest, hpath, h⟩, rfl⟩)
    · exact .name h
    · exact .kind (by simpa using h)
    · exact .noPath h
    · exact .field hf h
    · exact .set List.mem_cons_self h
    · exact .set (List.mem_cons_of_mem _ List.mem_cons_self) h
    · exact .path hpath h

/-- A list stands for the name of a declared type. -/
def NameFlaw (form : Value) : Prop :=
  ∃ first name kind options, form = .list (first :: name :: kind :: options) ∧ name.isKey = false

/-- A declaration with a name is added unless it has a flaw. -/
theorem addType_blames (names : TypeNames) (t : TypeTable) {form : Value} (hname : ¬NameFlaw form) :
    Blames (TypeFlaw form) (fun _ => True) (addType names t form) := by
  unfold addType
  split
  · rename_i first name kind options
    have hkey : name.isKey = true := by
      by_contra hkey
      exact hname ⟨first, name, kind, options, rfl, by simpa using hkey⟩
    have hadd : ∀ d : TypeDecl, ((lastOption? "path" options).getD [name]).head? = some d.path →
        Blames (fun e => PathFlaw options ∧ e = .shape) (fun _ => True)
          ((t.add d).2 >>= fun _ => pure (t.add d).1) := by
      intro d hpath
      have hpure : ∀ t' : TypeTable, Yields Rejects (fun _ => True) (pure t') := fun _ => trivial
      refine ((add_blames t d).andThen fun _ _ => hpure _).of_iff fun e => and_congr_left fun _ => ?_
      constructor
      · rintro ⟨path, rest, hoption, hodd⟩
        rw [hoption] at hpath
        exact Option.some.inj hpath ▸ hodd
      · intro hodd
        cases hoption : lastOption? "path" options with
        | none =>
          rw [hoption] at hpath
          rw [← Option.some.inj hpath, hkey] at hodd
          cases hodd
        | some items =>
          rw [hoption] at hpath
          cases items with
          | nil => cases hpath
          | cons path rest => exact ⟨path, rest, hoption, Option.some.inj hpath ▸ hodd⟩
    refine ((typeDecl_blames names _ name kind options).bind hadd).of_iff fun e => ?_
    rw [typeFlaw_iff, hkey]
    simp
  · exact Or.inl rfl

private theorem typeNames_blames (forms : List Value) :
    Blames (fun e => ∃ form ∈ forms, NameFlaw form ∧ e = .shape) (fun _ => True) (typeNames forms) := by
  unfold typeNames
  refine Blames.foldlM trivial fun names _ form _ => ?_
  split
  · rename_i first name kind options
    have hnew : ¬((!first.isKey) = true) → Blames (fun _ => False) (fun _ : TypeNames => True)
        (if (names.find? first).isSome then .error (.load (.duplicateType first))
          else .ok (names ++ [(first, (names.length : Int))])) := by
      intro _
      split
      · exact Or.inl rfl
      · exact ⟨trivial, fun _ he => he.elim⟩
    refine (Blames.guarded hnew).of_iff fun e => ?_
    simp [NameFlaw]
  · exact Or.inl rfl

/-- Reading the declarations of types fails for their flaws only. -/
theorem typeTable_blames {forms : List Value} (hnames : typeNames forms = .ok names) :
    Blames (fun e => ∃ form ∈ forms, TypeFlaw form e) (fun _ => True) (typeTable names forms) := by
  have hnone := typeNames_blames forms
  rw [hnames] at hnone
  refine Blames.foldlM trivial fun t _ form hform => addType_blames names t fun hflaw => ?_
  cases hnone.2 .shape ⟨form, hform, hflaw, rfl⟩

private theorem functions_blames {forms declarations : List Value} {env : Env} {p : Program}
    (henv : env.Grounded declarations p) (hnames : env.names.Of declarations) :
    Blames (fun e => ∃ form ∈ forms, ∃ g ∈ blockForms form, BlockFlaw declarations g e)
      (fun _ => True) (functions env forms) :=
  (Blames.mapM fun form _ => function_blames henv hnames form).mono fun _ _ => trivial

/-- Reading a document fails for its flaws only. -/
theorem program_blames (forms : List Value) :
    Blames (DocumentFlaw forms) (fun _ => True) (program forms) := by
  have hheads : ∀ form ∈ forms.filter (hasHead "type"), hasHead "type" form = true :=
    fun form hform => (List.mem_filter.mp hform).2
  unfold program
  dsimp only
  split
  · exact Or.inl rfl
  have hsteps : Blames (fun e =>
      (∃ form ∈ forms.filter (hasHead "type"), NameFlaw form ∧ e = .shape) ∨
      (∃ form ∈ forms.filter (hasHead "type"), TypeFlaw form e) ∨
      ∃ form ∈ forms.filter (hasHead "function"), ∃ g ∈ blockForms form,
        BlockFlaw (forms.filter (hasHead "type")) g e) (fun _ => True)
      (typeNames (forms.filter (hasHead "type")) >>= fun names =>
        typeTable names (forms.filter (hasHead "type")) >>= fun table =>
          functions ⟨names, table⟩ (forms.filter (hasHead "function")) >>= fun fns =>
            pure (⟨table.types, fns⟩ : Program)) := by
    refine (typeNames_blames _).with_eq.bind fun names hnames => ?_
    refine (typeTable_blames hnames.2).with_eq.bind fun table htable => ?_
    have henv : Env.Grounded ⟨names, table⟩ (forms.filter (hasHead "type")) ⟨table.types, []⟩ :=
      env_grounded hheads hnames.2 htable.2 rfl
    exact (functions_blames henv (typeNames_of hheads hnames.2)).andThen fun _ _ => trivial
  refine hsteps.of_iff fun e => ⟨?_, ?_⟩
  · rintro (⟨hform, hflaw⟩ | ⟨hform, hblock, hflaw⟩)
    · exact Or.inr (Or.inl ⟨_, hform, hflaw⟩)
    · exact Or.inr (Or.inr ⟨_, hform, _, hblock, hflaw⟩)
  · rintro (⟨_, hform, ⟨_, _, _, _, rfl, hkey⟩, rfl⟩ | ⟨_, hform, hflaw⟩ | ⟨_, hform, _, hblock, hflaw⟩)
    · exact .type hform (.name hkey)
    · exact .type hform hflaw
    · exact .block hform hblock hflaw

private theorem ofSexp_yields (text : String) : Safe Rejects (Value.ofSexp text) := by
  unfold Value.ofSexp
  split
  · rfl
  · split
    · rfl
    · trivial

/-- Loading a document fails by a rejection, or for a flaw of the document. A document with a flaw
is not accepted, except that a value may be taken out of another type than one with an odd path. -/
theorem load_rejects_or_blames (text : String) :
    (∀ e, load text = .error e → Rejects e ∨
      ∃ forms, Value.ofSexp text = .ok (.list (.text "program" :: forms)) ∧ DocumentFlaw forms e) ∧
    ∀ forms e, Value.ofSexp text = .ok (.list (.text "program" :: forms)) → DocumentFlaw forms e →
      e ≠ .notText → ∃ e', load text = .error e' := by
  have hloads : ∀ forms, Value.ofSexp text = .ok (.list (.text "program" :: forms)) →
      load text = program forms := by
    intro forms hforms
    unfold load
    rw [hforms]
    rfl
  constructor
  · intro e he
    have hread := ofSexp_yields text
    unfold load at he
    cases hvalue : Value.ofSexp text with
    | error e' =>
      rw [hvalue] at he hread
      exact Or.inl (Except.error.inj he ▸ hread)
    | ok v =>
      rw [hvalue, show ∀ k, (Except.ok v >>= k) = k v from fun _ => rfl] at he
      split at he
      · rename_i forms
        have hblames := program_blames forms
        rw [he] at hblames
        exact hblames.imp_right fun hflaw => ⟨forms, rfl, hflaw⟩
      · exact Or.inl (Except.error.inj he ▸ rfl)
  · intro forms e hforms hflaw hne
    have hblames := program_blames forms
    rw [← hloads forms hforms] at hblames
    cases hload : load text with
    | error e' => exact ⟨e', rfl⟩
    | ok p =>
      rw [hload] at hblames
      exact absurd (hblames.2 e hflaw) hne

def failsWith {α : Type} : Fault → Except Fault α → Bool
  | .shape, .error .shape => true
  | .bounds, .error .bounds => true
  | .notText, .error .notText => true
  | _, _ => false

private theorem eq_error_of_failsWith {α : Type} {e : Fault} {x : Except Fault α}
    (h : failsWith e x = true) :
    x = .error e := by
  unfold failsWith at h
  split at h
  · rfl
  · rfl
  · rfl
  · cases h

/-- A list that is the label of a block is a flaw, so that the document is not accepted, and it is
what the document is not accepted for. -/
theorem load_rejects_or_blames_label :
    load "(program (function f (block (a) (succ))))" = .error .shape ∧
      ∃ forms, Value.ofSexp "(program (function f (block (a) (succ))))" =
        .ok (.list (.text "program" :: forms)) ∧ DocumentFlaw forms .shape := by
  have hload : load "(program (function f (block (a) (succ))))" = .error .shape :=
    eq_error_of_failsWith (by decide +kernel)
  refine ⟨hload, ((load_rejects_or_blames _).1 .shape hload).resolve_left ?_⟩
  decide

/-- Documents that are not rejected and yet not accepted: a list is the name of a type, a path is
left out, and a value is taken out of a type whose path is a number. -/
theorem load_breaks_off :
    load "(program (type (a) struct))" = .error .shape ∧
    load "(program (type a struct (path)))" = .error .bounds ∧
    load "(program (type 5 struct)
      (function f (params (x 5)) (block 0 (succ) (eval (method unwrap x)))))" = .error .notText := by
  refine ⟨?_, ?_, ?_⟩
  · exact eq_error_of_failsWith (by decide +kernel)
  · exact eq_error_of_failsWith (by decide +kernel)
  · exact eq_error_of_failsWith (by decide +kernel)

end AccountLint.Document

import AccountLint.Proofs.Document.Load

/-! What a document loses when it is loaded. Of several blocks with one label, edges lead to the
last, and of several values for one field of a constructor the last is kept. Every other expression
is evaluated by the statement that it stands in. -/
namespace AccountLint.Document

/-- Every block form is the one that its own label stands for. -/
def OwnLabels (blocks : List Value) : Prop :=
  ∀ (i : Nat) (form label : Value), blocks[i]? = some form → blockLabel? form = some label →
    LabelAt blocks label i

def LabelsDiffer (blocks : List Value) : Prop :=
  blocks.Pairwise fun form later => ∀ label, blockLabel? form = some label → hasLabel label later = false

private theorem hasLabel_self {form label : Value} (h : blockLabel? form = some label) :
    hasLabel label form = true := by
  unfold hasLabel
  rw [h]
  exact Value.same_iff.mpr rfl

private theorem ownLabels_iff {blocks : List Value} : OwnLabels blocks ↔ LabelsDiffer blocks := by
  unfold LabelsDiffer
  rw [List.pairwise_iff_getElem]
  constructor
  · intro hown i j hi hj hlt label hlabel
    obtain ⟨k, hk, -, hlater⟩ := hown i _ label (List.getElem?_eq_getElem hi) hlabel
    have hnone := hlater j (by omega)
    rw [List.getElem?_eq_getElem hj] at hnone
    exact hnone
  · intro hdiffer i form label hform hlabel
    obtain ⟨hi, rfl⟩ := List.getElem?_eq_some_iff.mp hform
    refine ⟨i, rfl, ?_, fun j hj => ?_⟩
    · rw [hform]
      exact hasLabel_self hlabel
    · cases hlater : blocks[j]? with
      | none => rfl
      | some later =>
        obtain ⟨hj', rfl⟩ := List.getElem?_eq_some_iff.mp hlater
        exact hdiffer i j hi hj' hj label hlabel

variable {declarations : List Value} {f : Function}

/-- A statement represents its form. Each of its expressions has a tree that the statement
evaluates, with all that is kept of the expression, and this is all that the form spells just if no
constructor in it sets a field twice. -/
structure StmtRepresents (declarations : List Value) (f : Function) (form : Value) (s : Stmt) : Prop where
  retains : StmtRetains declarations f.exprs form s
  parts : ∀ inner, Placed form inner → ∀ x ∈ stmtParts inner, ∃ root ∈ s.treeRoots,
    Retains declarations f.exprs x root ∧
    (∀ w, KeptWithin w x → ∃ i, f.InTree root i ∧ Retains declarations f.exprs w i) ∧
    (Depicts declarations f.exprs x root ↔ ∀ w, Within w x → SetsOnce w)

/-- What is kept within a form is in the tree of the form. -/
theorem Retains.inTree {form w : Value} {i : Int} (h : Retains declarations f.exprs form i)
    (hw : KeptWithin w form) : ∃ j, f.InTree i j ∧ Retains declarations f.exprs w j := by
  induction hw generalizing i with
  | self => exact ⟨i, .self i, h⟩
  | part hpart _ ih =>
    obtain ⟨n, e, rfl, hat, -, -, hparts⟩ := h.root
    obtain ⟨c, hc, hretains⟩ := exists_of_forall₂_left hparts hpart
    obtain ⟨j, hj, hinner⟩ := ih hretains
    exact ⟨j, .child (expr_of_getElem? hat) hc hj, hinner⟩

/-- Each expression of a statement has its tree. -/
theorem StmtRetains.exists_root {exprs : List Expr} {form inner x : Value} {s : Stmt}
    (h : StmtRetains declarations exprs form s) (hplaced : Placed form inner) (hx : x ∈ stmtParts inner) :
    ∃ root ∈ s.treeRoots, Retains declarations exprs x root := by
  have hvalue : s.value ∈ s.treeRoots := List.mem_append_right _ List.mem_cons_self
  induction h with
  | letVar _ _ _ _ hretains =>
    rw [hplaced.eq_of_head (by simp [hasHead, head?])] at hx
    obtain rfl := List.mem_singleton.mp hx
    exact ⟨_, hvalue, hretains⟩
  | @assign target value s i _ htarget hleft hretains =>
    rw [hplaced.eq_of_head (by simp [hasHead, head?])] at hx
    have hroot : i ∈ s.treeRoots := by simp [Stmt.treeRoots, htarget]
    rcases List.mem_cons.mp hx with rfl | hx
    · exact ⟨i, hroot, hleft⟩
    · obtain rfl := List.mem_singleton.mp hx
      exact ⟨_, hvalue, hretains⟩
  | eval _ _ hretains =>
    rw [hplaced.eq_of_head (by simp [hasHead, head?])] at hx
    obtain rfl := List.mem_singleton.mp hx
    exact ⟨_, hvalue, hretains⟩
  | place hlast _ ih =>
    rcases (placed_place_iff hlast).mp hplaced with rfl | hplaced
    · simp [stmtParts] at hx
    · exact ih hplaced hvalue

private theorem StmtRetains.represents {form : Value} {s : Stmt}
    (h : StmtRetains declarations f.exprs form s) :
    StmtRepresents declarations f form s := by
  refine ⟨h, fun inner hplaced x hx => ?_⟩
  obtain ⟨root, hroot, hretains⟩ := h.exists_root hplaced hx
  exact ⟨root, hroot, hretains, fun w hw => hretains.inTree hw, hretains.depicts_iff⟩

/-- What a loaded document keeps. Every block comes from the block form at its position, and its
edges lead to the last blocks with the labels that the form names, so that every block form is the
one its label stands for just if no two have one label. Every statement represents its form. -/
theorem load_keeps_last {text : String} {p : Program} (h : load text = .ok p) :
    ∃ forms, Value.ofSexp text = .ok (.list (.text "program" :: forms)) ∧
      List.Forall₂ (fun form f =>
        FunctionFrom (StmtRepresents (forms.filter (hasHead "type")) f) form f ∧
        (OwnLabels (blockForms form) ↔ LabelsDiffer (blockForms form)))
        (forms.filter (hasHead "function")) p.functions := by
  obtain ⟨forms, names, table, hforms, hnames, -, -, hfunctions⟩ := load_eq_ok h
  have hof := typeNames_of (fun form hform => (List.mem_filter.mp hform).2) hnames
  refine ⟨forms, hforms, hfunctions.imp ?_⟩
  rintro form _ ⟨d, hd, -, rfl⟩
  exact ⟨(functionDraft_retains hof hd).1.imp fun _ _ hs => hs.represents, ownLabels_iff⟩

/-- A function in which a field is set twice. -/
def overwritingFunction : Function :=
  { name := "f"
    exprs := [
      { id := 0, kind := .localVar, localName := some "x" },
      { id := 1, kind := .localVar, localName := some "y" },
      { id := 2, kind := .construct, fieldNames := ["a"], operands := [1] }]
    blocks := [{ id := 0, stmts := [{ kind := .eval, value := 2 }] }] }

def overwritingText : String := "(program (function f (block 0 (succ) (eval (new _ (a x) (a y))))))"

private theorem load_overwritingText : load overwritingText = .ok ⟨[], [overwritingFunction]⟩ :=
  ok_of_toOption (by decide +kernel)

theorem load_keeps_last_overwriting : ∃ forms,
    Value.ofSexp overwritingText = .ok (.list (.text "program" :: forms)) ∧
      List.Forall₂ (fun form f =>
        FunctionFrom (StmtRepresents (forms.filter (hasHead "type")) f) form f ∧
        (OwnLabels (blockForms form) ↔ LabelsDiffer (blockForms form)))
        (forms.filter (hasHead "function")) [overwritingFunction] :=
  load_keeps_last load_overwritingText

private theorem not_evaluates_overwritten : ¬overwritingFunction.Evaluates 0 0 := by
  rintro ⟨s, hs, root, hroot, htree⟩
  have hroots : overwritingFunction.roots = [(0, { kind := .eval, value := 2 })] := rfl
  rw [hroots] at hs
  cases List.mem_singleton.mp hs
  obtain rfl := List.mem_singleton.mp hroot
  have hnew : overwritingFunction.expr 2 = .ok
      { id := 2, kind := .construct, fieldNames := ["a"], operands := [1] } := rfl
  have hvalue : overwritingFunction.expr 1 = .ok
      { id := 1, kind := .localVar, localName := some "y" } := rfl
  simp [inTree_iff_of_expr hnew, inTree_iff_of_expr hvalue, Expr.children] at htree

/-- Documents that are accepted although they lose something: the first value of a field is
evaluated nowhere, a block with its own label as a successor has an edge to a later block with that
label, and of two statements in one place the first is not read. -/
theorem load_loses : load overwritingText = .ok ⟨[], [overwritingFunction]⟩ ∧
    overwritingFunction.exprs[0]?.map (·.localName) = some (some "x") ∧
    ¬overwritingFunction.Evaluates 0 0 ∧
    (load "(program (function f (block a (succ a)) (block a (succ))))").toOption.map
      (fun p => p.functions.map fun f => f.blocks.map (·.successors)) = some [[[1], []]] ∧
    (load "(program (function f (block 0 (succ) (at 1 2 (eval x) (eval y)))))").toOption.map
      (fun p => p.functions.map fun f => f.exprs.map (·.localName)) = some [[some "y"]] :=
  ⟨load_overwritingText, rfl, not_evaluates_overwritten, by decide +kernel, by decide +kernel⟩

end AccountLint.Document

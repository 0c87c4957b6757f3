import AccountLint.Proofs.Build.Draft
import AccountLint.Proofs.Document.Expressions

/-! The trees that reading expressions builds. Each is what its form spells, and together they hold
the expressions that were added and no others. -/
namespace AccountLint.Document

/-- The names in a table are those of some declarations. -/
def TypeNames.Of (names : TypeNames) (declarations : List Value) : Prop :=
  ∀ name type, names.resolve name = .ok type → RefersTo declarations name type

variable {env : Env} {d d' : FunctionDraft} {forms : List Value} {ids : List Int}

/-- Reading expressions changes nothing else in a draft. -/
theorem Adds.frame (h : Adds env d forms ids d') :
    ∃ added, d' = { d with exprs := d.exprs ++ added } := by
  induction h with
  | nil d => exact ⟨[], by rw [List.append_nil]⟩
  | cons _ _ ih ih' =>
    obtain ⟨added, rfl⟩ := ih
    obtain ⟨more, rfl⟩ := ih'
    exact ⟨added ++ more, by rw [List.append_assoc]⟩
  | node _ _ _ _ _ ih =>
    obtain ⟨added, rfl⟩ := ih
    exact ⟨_, by rw [FunctionDraft.push, List.append_assoc]⟩

theorem Adds.exprs_prefix (h : Adds env d forms ids d') : d.exprs <+: d'.exprs := by
  obtain ⟨added, rfl⟩ := h.frame
  exact List.prefix_append _ _

private theorem getElem?_of_push {d : FunctionDraft} {e : Expr} {exprs : List Expr}
    (h : (d.push e).2.exprs <+: exprs) :
    exprs[d.exprs.length]? = some { e with id := d.exprs.length, location := d.here } := by
  obtain ⟨rest, rfl⟩ := h
  simp [FunctionDraft.push]

theorem Filled.none_or_eq {table : TypeTable} {given type : Option TypeRef}
    (h : Filled table d given type) : given = none ∨ type = given := by
  cases h with
  | given r => exact Or.inr rfl
  | inferred _ => exact Or.inl rfl

/-- The trees of expressions that are read are what is kept of the forms, also after further
expressions are added. -/
theorem Adds.retains {declarations : List Value} (h : Adds env d forms ids d')
    (hnames : env.names.Of declarations) {exprs : List Expr} (hexprs : d'.exprs <+: exprs) :
    List.Forall₂ (Retains declarations exprs) forms ids := by
  induction h with
  | nil d => exact .nil
  | cons hform hforms ih ih' =>
    obtain ⟨hhead, -⟩ := List.forall₂_cons.mp (ih (hforms.exprs_prefix.trans hexprs))
    exact .cons hhead (ih' hexprs)
  | @node d d₁ form ids e given hparts hchildren hkeeps hgiven htype ih =>
    have hbelow := forall₂_kept (ih ((List.prefix_append _ _).trans hexprs)) form
    rw [← hchildren] at hbelow
    refine .cons (.tree (getElem?_of_push hexprs) hkeeps ?_ hbelow) .nil
    intro type hgives
    rw [hgives] at hgiven
    exact ⟨given, hnames type given hgiven, htype.none_or_eq⟩

private theorem Adds.length_eq (h : Adds env d forms ids d') : ids.length = forms.length := by
  induction h with
  | nil => rfl
  | cons _ _ _ ih => rw [List.length_cons, List.length_cons, ih]
  | node => rfl

theorem expr_of_getElem? {f : Function} {n : Nat} {e : Expr} (h : f.exprs[n]? = some e) :
    f.expr n = .ok e := by
  unfold Function.expr fromEnd?
  rw [if_pos (Int.natCast_nonneg n), Int.toNat_natCast, h]

theorem inTree_iff_of_expr {f : Function} {i j : Int} {e : Expr} (h : f.expr i = .ok e) :
    f.InTree i j ↔ j = i ∨ ∃ c ∈ e.children, f.InTree c j := by
  constructor
  · intro htree
    cases htree with
    | self => exact Or.inl rfl
    | child he hc htree =>
      obtain rfl := Except.ok.inj (h.symm.trans he)
      exact Or.inr ⟨_, hc, htree⟩
  · rintro (rfl | ⟨c, hc, htree⟩)
    · exact .self j
    · exact .child h hc htree

/-- The trees of expressions that are read hold those that were added. -/
theorem Adds.inTree_iff (h : Adds env d forms ids d')
    (honce : ∀ form ∈ forms, ∀ w, Within w form → SetsOnce w) {f : Function}
    (hexprs : d'.exprs <+: f.exprs) (j : Int) :
    (∃ i ∈ ids, f.InTree i j) ↔ d.exprs.length ≤ j ∧ j < d'.exprs.length := by
  induction h with
  | nil d => simp
  | @cons d d₁ d₂ form forms i ids hform hforms ih ih' =>
    have hhead := ih (fun f hf => honce f (List.mem_singleton.mp hf ▸ List.mem_cons_self))
      (hforms.exprs_prefix.trans hexprs)
    have htail := ih' (fun f hf => honce f (List.mem_cons_of_mem _ hf)) hexprs
    have hle := hform.exprs_prefix.length_le
    have hle' := hforms.exprs_prefix.length_le
    -- The first tree ends where the draft between them does, and the others begin there.
    rw [List.exists_mem_cons_iff] at hhead ⊢
    simp only [List.not_mem_nil, false_and, exists_false, or_false] at hhead
    rw [hhead, htail]
    omega
  | @node d d₁ form ids e given hparts hchildren hkeeps hgiven htype ih =>
    have honce := honce form List.mem_cons_self
    have hall : kept form ids = ids := hkeeps.kept_eq (honce form (.self form)) hparts.length_eq
    have hbelow := ih (fun part hpart w hw => honce w (.part hpart hw))
      ((List.prefix_append _ _).trans hexprs)
    have hle := hparts.exprs_prefix.length_le
    have htree := inTree_iff_of_expr (j := j) (expr_of_getElem? (getElem?_of_push hexprs))
    have hchild : (∃ c ∈ e.children, f.InTree c j) ↔ d.exprs.length ≤ j ∧ j < d₁.exprs.length := by
      rw [hchildren, hall, hbelow]
    rw [List.exists_mem_cons_iff, FunctionDraft.length_push]
    simp only [List.not_mem_nil, false_and, exists_false, or_false]
    refine htree.trans ?_
    rw [show Expr.children { e with id := d₁.exprs.length, location := d₁.here } = e.children from rfl,
      hchild]
    omega

end AccountLint.Document

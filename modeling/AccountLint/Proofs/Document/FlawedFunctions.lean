import AccountLint.Proofs.Document.FlawedExpressions
import AccountLint.Proofs.Program.Validation

/-! Reading a function. Its statements fail for their flaws only, its blocks also for their labels,
and when the function is complete, for names of variables that are no names. -/
namespace AccountLint.Document

variable {env : Env} {declarations : List Value} {p : Program} {d : FunctionDraft}

private theorem partFlaw_iff {form : Value} {e : Fault} (hhead : hasHead "at" form = false) :
    PartFlaw declarations form e ↔ ∃ x ∈ stmtParts form, Flawed declarations x e := by
  constructor
  · rintro ⟨inner, hplaced, hflaw⟩
    exact hplaced.eq_of_head hhead ▸ hflaw
  · exact fun hflaw => ⟨form, .here form, hflaw⟩

private theorem partFlaw_place_iff {args : List Value} {form : Value} {e : Fault}
    (hlast : args.getLast? = some form) :
    PartFlaw declarations (.list (.text "at" :: args)) e ↔ PartFlaw declarations form e := by
  constructor
  · rintro ⟨inner, hplaced, hflaw⟩
    rcases (placed_place_iff hlast).mp hplaced with rfl | hplaced
    · simp [stmtParts] at hflaw
    · exact ⟨inner, hplaced, hflaw⟩
  · rintro ⟨inner, hplaced, hflaw⟩
    exact ⟨inner, .place hlast hplaced, hflaw⟩

theorem location_yields (args : List Value) : Safe Rejects (location args) := by
  have hposition : ∀ file args, Safe Rejects (lineColumn file args) := by
    intro file args
    unfold lineColumn
    split
    · trivial
    · rfl
  unfold location
  split
  · exact hposition _ _
  · exact hposition _ _

private theorem let_blames (henv : env.Grounded declarations p) (hd : d.Grounded p)
    (args : List Value) :
    Blames (PartFlaw declarations (.list (.text "let" :: args))) (·.Grounded p)
      (stmt env d (.list (.text "let" :: args))) := by
  have hhead : hasHead "at" (.list (.text "let" :: args)) = false := by simp [hasHead, head?]
  unfold stmt
  rcases args with _ | ⟨name, _ | ⟨value, type⟩⟩
  · exact Or.inl rfl
  · exact Or.inl rfl
  · show Blames _ _ (if 1 < type.length then _ else _)
    split
    · exact Or.inl rfl
    · refine ((expr_answers henv value d hd).andThen fun r hr => ?_).of_iff
        fun e => (partFlaw_iff hhead).trans exists_mem_singleton
      refine (optionalType_yields henv type).bind fun given hgiven => ?_
      exact hr.grounded.letVar name (hr.hasExpr _ List.mem_cons_self) hgiven

private theorem assign_blames (henv : env.Grounded declarations p) (hd : d.Grounded p)
    (args : List Value) :
    Blames (PartFlaw declarations (.list (.text "assign" :: args))) (·.Grounded p)
      (stmt env d (.list (.text "assign" :: args))) := by
  have hhead : hasHead "at" (.list (.text "assign" :: args)) = false := by simp [hasHead, head?]
  unfold stmt
  rcases args with _ | ⟨target, _ | ⟨value, _ | ⟨_, _⟩⟩⟩
  · exact Or.inl rfl
  · exact Or.inl rfl
  · refine ((expr_answers henv target d hd).bind fun r hr => ?_).of_iff
      fun e => (partFlaw_iff hhead).trans (List.exists_mem_cons_iff ..)
    refine ((expr_answers henv value r.2 hr.grounded).andThen fun s hs => ?_).of_iff
      fun e => exists_mem_singleton
    exact hs.grounded.assign _ _
  · exact Or.inl rfl

private theorem eval_blames (henv : env.Grounded declarations p) (hd : d.Grounded p)
    (args : List Value) :
    Blames (PartFlaw declarations (.list (.text "eval" :: args))) (·.Grounded p)
      (stmt env d (.list (.text "eval" :: args))) := by
  have hhead : hasHead "at" (.list (.text "eval" :: args)) = false := by simp [hasHead, head?]
  unfold stmt
  rcases args with _ | ⟨value, _ | ⟨_, _⟩⟩
  · exact Or.inl rfl
  · refine ((expr_answers henv value d hd).andThen fun r hr => ?_).of_iff
      fun e => (partFlaw_iff hhead).trans exists_mem_singleton
    exact hr.grounded.of_same rfl rfl rfl
  · exact Or.inl rfl

/-- Reading a statement fails for the flaws of its expressions only. -/
theorem stmt_blames (henv : env.Grounded declarations p) (form : Value) (d : FunctionDraft)
    (hd : d.Grounded p) :
    Blames (PartFlaw declarations form) (·.Grounded p) (stmt env d form) := by
  match form with
  | .list (.text head :: args) =>
    by_cases hplace : head = "at"
    · rw [hplace]
      unfold stmt
      refine .after (location_yields args.dropLast) fun l _ => ?_
      cases hlast : args.getLast? with
      | none =>
        obtain rfl := List.getLast?_eq_none_iff.mp hlast
        exact Or.inl rfl
      | some inner =>
        have hlt := sizeOf_lt_of_mem (.text head) (List.mem_of_getLast? hlast)
        rw [lastStmt_eq hlast]
        refine (stmt_blames henv inner (d.moveTo l.line l.column) ?_).of_iff
          fun e => partFlaw_place_iff hlast
        exact hd.of_same rfl rfl rfl
    by_cases hlet : head = "let"
    · subst hlet
      exact let_blames henv hd args
    by_cases hassign : head = "assign"
    · subst hassign
      exact assign_blames henv hd args
    by_cases heval : head = "eval"
    · subst heval
      exact eval_blames henv hd args
    unfold stmt
    simp only [beq_iff_eq, hplace, hlet, hassign, heval, if_false]
    exact Or.inl rfl
  | .null | .bool _ | .int _ | .float _ | .text _ | .bytes _ | .record _ _ | .list []
  | .list (.null :: _) | .list (.bool _ :: _) | .list (.int _ :: _) | .list (.float _ :: _)
  | .list (.bytes _ :: _) | .list (.list _ :: _) | .list (.record _ _ :: _) => exact Or.inl rfl
termination_by sizeOf form
decreasing_by exact hlt

/-- A draft with a number of blocks. -/
structure Ready (p : Program) (n : Nat) (d : FunctionDraft) : Prop where
  grounded : d.Grounded p
  branching : d.Branching
  length : d.stmts.length = n

section Blocks

variable {n i : Nat}

private theorem stmt_ready (henv : env.Grounded declarations p) (hnames : env.names.Of declarations)
    (hd : Ready p n d) (form : Value) :
    Blames (PartFlaw declarations form) (Ready p n) (stmt env d form) := by
  refine (stmt_blames henv form d hd.grounded).with_eq.mono fun d' hd' => ?_
  have hadds := stmt_adds env form d d' hd'.2
  obtain ⟨s, hs, -⟩ := hadds.added hnames
  obtain ⟨_, _, _, _, hframe⟩ := hadds.frame
  have hlength : d'.stmts.length = d.stmts.length := by rw [hs, List.length_modify]
  exact ⟨hd'.1, hd.branching.of_same hlength (by rw [hframe]), hlength.trans hd.length⟩

private theorem addEdge_blames (labels : Labels) (hi : i < n) (hd : Ready p n d) (label : Value) :
    Blames (fun e => label.isKey = false ∧ e = .shape) (Ready p n) (addEdge labels i d label) := by
  have hlt : i < d.successors.length := by rw [hd.branching.length, hd.length]; exact hi
  have hedge : ∀ target, Yields Rejects (Ready p n) (d.edge i target) := by
    intro target
    unfold FunctionDraft.edge FunctionDraft.resolve?
    rw [if_pos (Int.natCast_nonneg i), Int.toNat_natCast, if_pos hlt]
    exact ⟨hd.grounded.of_same rfl rfl rfl, hd.branching.addSuccessors i [target], hd.length⟩
  unfold addEdge
  split
  · rename_i hkey
    exact Or.inr ⟨by simpa using hkey, rfl⟩
  · rename_i hkey
    refine (Blames.of_yields ?_).of_iff fun e => ?_
    · split
      · exact hedge _
      · exact rfl
    · rw [iff_false]
      rintro ⟨hlist, -⟩
      exact hkey (by rw [hlist]; rfl)

/-- What is wrong with a block, apart from its label and from the names of variables. -/
def FillFlaw (declarations : List Value) (b : BlockForm) (e : Fault) : Prop :=
  (∃ x ∈ b.successors, x.isKey = false ∧ e = .shape) ∨ ∃ s ∈ b.stmts, PartFlaw declarations s e

private theorem fillBlock_blames (henv : env.Grounded declarations p)
    (hnames : env.names.Of declarations) (labels : Labels) (hi : i < n) (hd : Ready p n d)
    (b : BlockForm) :
    Blames (FillFlaw declarations b) (Ready p n) (fillBlock env labels d b i) := by
  have hgoto : Yields Rejects (Ready p n) (d.goto i) := by
    unfold FunctionDraft.goto
    rw [if_pos ⟨Int.natCast_nonneg i, by rw [hd.length]; exact Int.ofNat_lt.mpr hi⟩]
    exact ⟨hd.grounded.of_same rfl rfl rfl, hd.branching.of_same rfl rfl, hd.length⟩
  unfold fillBlock
  refine .after hgoto fun d₀ hd₀ => ?_
  refine Blames.bind (Blames.foldlM hd₀ fun d' hd' x _ => addEdge_blames labels hi hd' x) ?_
  intro d₁ hd₁
  exact Blames.foldlM hd₁ fun d' hd' form _ => stmt_ready henv hnames hd' form

private theorem fillBlocks_blames (henv : env.Grounded declarations p)
    (hnames : env.names.Of declarations) (labels : Labels) {blocks : List BlockForm}
    (hn : blocks.length ≤ n) (hd : Ready p n d) :
    Blames (fun e => ∃ b ∈ blocks, FillFlaw declarations b e) (Ready p n)
      (blocks.zipIdx.foldlM (fun d x => fillBlock env labels d x.1 x.2) d) := by
  have hsteps : Blames (fun e => ∃ x ∈ blocks.zipIdx, FillFlaw declarations x.1 e) (Ready p n)
      (blocks.zipIdx.foldlM (fun d x => fillBlock env labels d x.1 x.2) d) := by
    refine Blames.foldlM hd fun d' hd' x hx => fillBlock_blames henv hnames labels ?_ hd' x.1
    have hlt := List.snd_lt_of_mem_zipIdx hx
    omega
  exact hsteps.of_iff fun e => exists_mem_zipIdx_iff.symm

end Blocks

private theorem blockForm_yields (form : Value) :
    Yields Rejects (fun b => blockForm form = .ok b) (blockForm form) := by
  cases h : blockForm form with
  | ok b => exact rfl
  | error e =>
    unfold blockForm at h
    split at h
    · cases h
    · obtain rfl := Except.error.inj h
      exact rfl

def BlockFormHas (form : Value) (P : BlockForm → Prop) : Prop := ∃ b, blockForm form = .ok b ∧ P b

private theorem blockFormHas_iff {form : Value} {b : BlockForm} (h : blockForm form = .ok b)
    {P : BlockForm → Prop} : BlockFormHas form P ↔ P b := by
  constructor
  · rintro ⟨b', hb', hp⟩
    exact Except.ok.inj (h.symm.trans hb') ▸ hp
  · exact fun hp => ⟨b, h, hp⟩

/-- Blocks that were read from forms have a property if the forms have it. -/
theorem exists_blockForm_iff {forms : List Value} {blocks : List BlockForm}
    (h : List.Forall₂ (fun form b => blockForm form = .ok b) forms blocks) {P : BlockForm → Prop} :
    (∃ form ∈ forms, BlockFormHas form P) ↔ ∃ b ∈ blocks, P b := by
  constructor
  · rintro ⟨form, hform, b', hb', hp⟩
    obtain ⟨b, hb, hread⟩ := exists_of_forall₂_left h hform
    exact ⟨b, hb, Except.ok.inj (hb'.symm.trans hread) ▸ hp⟩
  · rintro ⟨b, hb, hp⟩
    obtain ⟨form, hform, hread⟩ := exists_of_forall₂_right h hb
    exact ⟨form, hform, b, hread, hp⟩

private theorem openBlocks_blames (d : FunctionDraft) (forms : List Value) :
    Blames (fun e => ∃ form ∈ forms, BlockFormHas form fun b => b.label.isKey = false ∧ e = .shape)
      (fun _ => True) (openBlocks d forms) := by
  unfold openBlocks
  refine Blames.foldlM trivial fun state _ form _ => ?_
  refine .after (blockForm_yields form) fun b hb => ?_
  have hpure : ∀ state' : FunctionDraft × Labels × List BlockForm,
      Blames (fun _ => False) (fun _ => True) (pure state') :=
    fun _ => ⟨trivial, fun _ he => he.elim⟩
  refine (Blames.guarded fun _ => hpure _).of_iff fun e => ?_
  rw [blockFormHas_iff hb]
  simp

private theorem pairs_yields (part : String) (items : List Value) :
    Safe Rejects (pairs part items) := by
  refine Yields.mapM_safe fun item _ => ?_
  split
  · trivial
  · rfl

/-- Taking an option of a function only rejects. -/
theorem functionOption_yields (henv : env.Grounded declarations p) (hd : d.Grounded p)
    (form : Value) :
    Yields Rejects (·.Grounded p) (functionOption env d form) := by
  unfold functionOption
  split
  · refine (pairs_yields _ _).bind fun entries _ => ?_
    refine Yields.foldlM hd fun d' hd' entry _ => ?_
    exact (henv.resolve_yields entry.2).bind fun type htype => hd'.param entry.1 htype
  · refine (pairs_yields _ _).bind fun entries _ => ?_
    refine Yields.foldlM hd fun d' hd' entry _ => ?_
    exact (henv.resolve_yields entry.2).bind fun type htype => hd'.declare entry.1 htype
  · exact hd.of_same rfl rfl rfl
  · exact hd
  · rfl

private theorem leadingPlace_yields (items : List Value) : Safe Rejects (leadingPlace items) := by
  unfold leadingPlace
  split
  · exact (location_yields _).bind fun _ _ => trivial
  · trivial

private theorem Opened.ready {forms : List Value} {state : FunctionDraft × Labels × List BlockForm}
    (h : Opened d forms state) (hd : d.Grounded p) : Ready p (max 1 forms.length) state.1 := by
  obtain ⟨current, hdraft⟩ := h.draft
  rw [hdraft]
  refine ⟨hd.of_same rfl rfl rfl, ⟨?_, ?_, fun out hout => ?_⟩, List.length_replicate⟩
  · refine List.ne_nil_of_length_pos ?_
    show 0 < (List.replicate (max 1 forms.length) ([] : List Stmt)).length
    rw [List.length_replicate]
    omega
  · show (List.replicate _ _).length = (List.replicate _ _).length
    rw [List.length_replicate, List.length_replicate]
  · rw [List.eq_of_mem_replicate hout]
    exact List.nodup_nil

/-- What is wrong with a block before its function is complete. -/
def DraftFlaw (declarations : List Value) (form : Value) (e : Fault) : Prop :=
  BlockFormHas form fun b => (b.label.isKey = false ∧ e = .shape) ∨ FillFlaw declarations b e

/-- The draft of a function fails for the flaws of its blocks only. -/
theorem functionDraft_blames (henv : env.Grounded declarations p)
    (hnames : env.names.Of declarations) (form : Value) :
    Blames (fun e => ∃ g ∈ blockForms form, DraftFlaw declarations g e)
      (fun d => d.Grounded p ∧ d.Branching) (functionDraft env form) := by
  unfold functionDraft
  split
  · rename_i first name args
    refine .after (leadingPlace_yields args).with_eq fun items hitems => ?_
    have hblocks : blockForms (.list (first :: .text name :: args)) =
        items.2.filter (hasHead "block") := by
      show (Value.text name :: args).filter (hasHead "block") = _
      rw [List.filter_cons_of_neg (by simp [hasHead, head?])]
      exact leadingPlace_filter hitems.2 (by decide)
    have hnew : (FunctionDraft.new name ⟨items.1.file, items.1.line, 0⟩).Grounded p :=
      (FunctionDraft.Sound.new _ _ p).grounded
    refine .after (Yields.with_eq (Yields.foldlM hnew fun d' hd' g _ =>
      functionOption_yields henv hd' g)) fun d₁ hd₁ => ?_
    obtain ⟨_, _, _, hframe⟩ := (options_taken hnames hd₁.2).frame
    have hfill : ∀ state, openBlocks d₁ (items.2.filter (hasHead "block")) = .ok state →
        Blames (fun e => ∃ g ∈ items.2.filter (hasHead "block"),
          BlockFormHas g fun b => FillFlaw declarations b e) (fun d => d.Grounded p ∧ d.Branching)
          (state.2.2.zipIdx.foldlM (fun d x => fillBlock env state.2.1 d x.1 x.2) state.1) := by
      intro state hstate
      have hopened := openBlocks_opened (by rw [hframe]; rfl) (by rw [hframe]; rfl) hstate
      have hlength := hopened.blocks.length_eq
      refine ((fillBlocks_blames henv hnames state.2.1 (by omega) (hopened.ready hd₁.1)).mono
        fun d hd => ⟨hd.grounded, hd.branching⟩).of_iff fun e => ?_
      exact exists_blockForm_iff hopened.blocks
    refine ((openBlocks_blames d₁ (items.2.filter (hasHead "block"))).with_eq.bind
      fun state hstate => hfill state hstate.2).of_iff fun e => ?_
    rw [hblocks, ← exists_or]
    refine exists_congr fun g => ?_
    rw [← and_or_left]
    refine and_congr_right fun _ => ?_
    unfold DraftFlaw BlockFormHas
    rw [← exists_or]
    exact exists_congr fun b => and_or_left
  · exact Or.inl rfl

private theorem letFlaw_iff {form : Value} (hhead : hasHead "at" form = false) :
    LetFlaw form ↔ ∃ name rest, form = .list (.text "let" :: name :: rest) ∧ ¬NamesVariable name := by
  constructor
  · rintro ⟨name, rest, hplaced, hname⟩
    exact ⟨name, rest, (hplaced.eq_of_head hhead).symm, hname⟩
  · rintro ⟨name, rest, rfl, hname⟩
    exact ⟨name, rest, .here _, hname⟩

private theorem letFlaw_place_iff {args : List Value} {form : Value}
    (hlast : args.getLast? = some form) :
    LetFlaw (.list (.text "at" :: args)) ↔ LetFlaw form := by
  constructor
  · rintro ⟨name, rest, hplaced, hname⟩
    rcases (placed_place_iff hlast).mp hplaced with heq | hplaced
    · simp at heq
    · exact ⟨name, rest, hplaced, hname⟩
  · rintro ⟨name, rest, hplaced, hname⟩
    exact ⟨name, rest, .place hlast hplaced, hname⟩

private theorem LetTarget.oddTarget_iff {exprs : List Expr} {name : Value} {t : Target}
    (h : LetTarget declarations exprs name t) : OddTarget t ↔ ¬NamesVariable name := by
  cases h with
  | text => simp [OddTarget, NamesVariable]
  | int => simp [OddTarget, NamesVariable]
  | other htext hint =>
    simp only [OddTarget, NamesVariable, Target.other.injEq, exists_eq_left', not_or, not_exists]
    exact ⟨fun hfloat => ⟨htext, hint, hfloat⟩, fun h => h.2.2⟩

/-- A statement has an odd target just if it declares a variable with an odd name. -/
theorem StmtRetains.oddStmt_iff {exprs : List Expr} {form : Value} {s : Stmt}
    (h : StmtRetains declarations exprs form s) : OddStmt s ↔ LetFlaw form := by
  induction h with
  | letVar _ _ htarget hname =>
    rw [letFlaw_iff (by simp [hasHead, head?])]
    simp [OddStmt, htarget, hname.oddTarget_iff]
  | assign _ htarget =>
    rw [letFlaw_iff (by simp [hasHead, head?])]
    simp [OddStmt, htarget, OddTarget]
  | eval _ htarget =>
    rw [letFlaw_iff (by simp [hasHead, head?])]
    simp [OddStmt, htarget]
  | place hlast _ ih => exact ih.trans (letFlaw_place_iff hlast).symm

/-- A function has a statement with an odd target just if its form declares a variable with an odd
name. -/
theorem FunctionFrom.oddStmt_iff {form : Value} {f : Function}
    (h : FunctionFrom (StmtRetains declarations f.exprs) form f) :
    (∃ b ∈ f.blocks, ∃ s ∈ b.stmts, OddStmt s) ↔
      ∃ g ∈ blockForms form, BlockFormHas g fun b => ∃ s ∈ b.stmts, LetFlaw s := by
  by_cases hempty : blockForms form = []
  · rw [h.noBlocks hempty, hempty]
    simp
  constructor
  · rintro ⟨b, hb, s, hs, hodd⟩
    obtain ⟨g, hg, hretains⟩ := exists_of_forall₂_right (h.blocks hempty) hb
    obtain ⟨label, successors, stmts, _, hform, -, -, hstmts⟩ := hretains.parts
    obtain ⟨x, hx, hstmt⟩ := exists_of_forall₂_right hstmts hs
    refine ⟨g.1, List.fst_mem_of_mem_zipIdx hg, ⟨label, successors, stmts⟩, by rw [hform]; rfl, x, hx, ?_⟩
    exact hstmt.oddStmt_iff.mp hodd
  · rintro ⟨g, hg, c, hc, x, hx, hlet⟩
    obtain ⟨y, hy, rfl⟩ := exists_mem_zipIdx_iff.mpr ⟨g, hg, rfl⟩
    obtain ⟨b, hb, hretains⟩ := exists_of_forall₂_left (h.blocks hempty) hy
    obtain ⟨label, successors, stmts, _, hform, -, -, hstmts⟩ := hretains.parts
    obtain rfl : ⟨label, successors, stmts⟩ = c := by
      rw [hform] at hc
      exact Except.ok.inj hc
    obtain ⟨s, hs, hstmt⟩ := exists_of_forall₂_left hstmts hx
    exact ⟨b, hb, s, hs, hstmt.oddStmt_iff.mpr hlet⟩

private theorem blockFlaw_iff {form : Value} {e : Fault} (hhead : hasHead "block" form = true) :
    BlockFlaw declarations form e ↔ DraftFlaw declarations form e ∨
      (BlockFormHas form fun b => ∃ s ∈ b.stmts, LetFlaw s) ∧ e = .shape := by
  constructor
  · intro h
    cases h with
    | @label label name successors stmts hname hkey =>
      refine Or.inl ⟨⟨label, successors, stmts⟩, rfl, ?_⟩
      rcases List.mem_cons.mp hname with rfl | hname
      · exact Or.inl ⟨hkey, rfl⟩
      · exact Or.inr (Or.inl ⟨name, hname, hkey, rfl⟩)
    | @letName label form successors stmts hform hlet =>
      exact Or.inr ⟨⟨⟨label, successors, stmts⟩, rfl, form, hform, hlet⟩, rfl⟩
    | @expr label form successors stmts e hform hflaw =>
      exact Or.inl ⟨⟨label, successors, stmts⟩, rfl, Or.inr (Or.inr ⟨form, hform, hflaw⟩)⟩
  · rintro (⟨b, hb, ⟨hkey, rfl⟩ | ⟨x, hx, hkey, rfl⟩ | ⟨s, hs, hflaw⟩⟩ | ⟨⟨b, hb, s, hs, hlet⟩, rfl⟩)
    · exact blockForm_eq_ok hhead hb ▸ .label List.mem_cons_self hkey
    · exact blockForm_eq_ok hhead hb ▸ .label (List.mem_cons_of_mem _ hx) hkey
    · exact blockForm_eq_ok hhead hb ▸ .expr hs hflaw
    · exact blockForm_eq_ok hhead hb ▸ .letName hs hlet

/-- Reading a function fails for the flaws of its blocks only. -/
theorem function_blames (henv : env.Grounded declarations p) (hnames : env.names.Of declarations)
    (form : Value) :
    Blames (fun e => ∃ g ∈ blockForms form, BlockFlaw declarations g e) (fun _ => True)
      (functionDraft env form >>= FunctionDraft.build) := by
  have hbuild : ∀ d, functionDraft env form = .ok d →
      Blames (fun e => (∃ g ∈ blockForms form, BlockFormHas g fun b => ∃ s ∈ b.stmts, LetFlaw s) ∧
        e = .shape) (fun _ => True) d.build := by
    intro d hd
    refine (d.function.validate_blames.andThen fun _ _ => ?_).of_iff fun e => ?_
    · exact trivial
    · rw [(functionDraft_retains hnames hd).1.oddStmt_iff]
  refine ((functionDraft_blames henv hnames form).with_eq.bind
    fun d hd => hbuild d hd.2).of_iff fun e => ?_
  rw [← exists_and_right, ← exists_or]
  refine exists_congr fun g => ?_
  rw [and_assoc, ← and_or_left]
  exact and_congr_right fun hg => blockFlaw_iff (List.mem_filter.mp hg).2

end AccountLint.Document

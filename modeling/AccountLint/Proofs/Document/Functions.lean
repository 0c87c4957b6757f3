import AccountLint.Proofs.Document.Blocks

/-! The functions of a document: their options, which are taken in order, and then their blocks. -/
namespace AccountLint.Document

variable {env : Env} {d d' : FunctionDraft} {declarations : List Value}

structure OptionsTaken (declarations : List Value) (d : FunctionDraft) (forms : List Value)
    (d' : FunctionDraft) : Prop where
  frame : ∃ params locals modeled, d' = { d with params := params, locals := locals, modeled := modeled }
  params : List.Forall₂ (ParamDepicts declarations) (entriesOf "params" forms) d'.params
  locals : ∀ v ∈ d'.locals, ∃ type, .list [v.name, type] ∈ entriesOf "locals" forms ∧
    RefersTo declarations type v.type
  modeled : d'.modeled = (forms.filter (hasHead "unmodeled")).isEmpty

private theorem filter_snoc_of_ne {word head : String} {past : List Value} {form : Value}
    (hhead : head? form = some head) (hne : head ≠ word) :
    (past ++ [form]).filter (hasHead word) = past.filter (hasHead word) := by
  have hword : hasHead word form = false := by simp [hasHead, hhead, hne]
  rw [List.filter_append, List.filter_singleton, hword]
  exact List.append_nil _

private theorem filter_snoc_self {word : String} {past : List Value} {form : Value}
    (hhead : head? form = some word) :
    (past ++ [form]).filter (hasHead word) = past.filter (hasHead word) ++ [form] := by
  have hword : hasHead word form = true := by simp [hasHead, hhead]
  rw [List.filter_append, List.filter_singleton, hword]
  rfl

private theorem entriesOf_snoc_of_ne {word head : String} {past : List Value} {form : Value}
    (hhead : head? form = some head) (hne : head ≠ word) :
    entriesOf word (past ++ [form]) = entriesOf word past := by
  unfold entriesOf
  rw [filter_snoc_of_ne hhead hne]

private theorem entriesOf_snoc_self {word : String} {past : List Value} {form : Value}
    (hhead : head? form = some word) :
    entriesOf word (past ++ [form]) = entriesOf word past ++ arguments form := by
  unfold entriesOf
  rw [filter_snoc_self hhead, List.flatMap_append, List.flatMap_singleton]

private theorem pairs_eq_ok {part : String} {items : List Value} {entries : List (Value × Value)}
    (h : pairs part items = .ok entries) :
    List.Forall₂ (fun item entry => item = .list [entry.1, entry.2]) items entries := by
  refine (mapM_eq_ok.mp h).imp fun item entry hentry => ?_
  split at hentry
  · obtain rfl := Except.ok.inj hentry
    rfl
  · cases hentry

private theorem paramsOption_eq_ok {form : Value} (hhead : head? form = some "params")
    (hnames : env.names.Of declarations) (h : functionOption env d form = .ok d') :
    ∃ params, d' = { d with params := d.params ++ params } ∧
      List.Forall₂ (ParamDepicts declarations) (arguments form) params := by
  unfold functionOption at h
  rw [hhead] at h
  obtain ⟨entries, hentries, h⟩ := bind_eq_ok.mp h
  have hread : ∃ params, d' = { d with params := d.params ++ params } ∧ List.Forall₂
      (fun entry => ParamDepicts declarations (.list [entry.1, entry.2])) entries params := by
    refine foldlM_invariant (fun past b => ∃ params, b = { d with params := d.params ++ params } ∧
      List.Forall₂ (fun entry => ParamDepicts declarations (.list [entry.1, entry.2])) past params)
      ⟨[], by rw [List.append_nil], .nil⟩ ?_ h
    intro past entry rest b c _ hb hc
    obtain ⟨params, rfl, hparams⟩ := hb
    obtain ⟨type, htype, hc⟩ := bind_eq_ok.mp hc
    obtain rfl := pure_eq_ok.mp hc
    refine ⟨params ++ [⟨entry.1, type, d.here⟩], ?_, List.rel_append hparams (.cons ?_ .nil)⟩
    · rw [← List.append_assoc]
      rfl
    · exact ⟨entry.2, rfl, hnames _ _ htype⟩
  obtain ⟨params, hd', hparams⟩ := hread
  refine ⟨params, hd', (forall₂_comp (pairs_eq_ok hentries) hparams).imp ?_⟩
  rintro item q ⟨entry, rfl, hq⟩
  exact hq

private theorem localsOption_eq_ok {form : Value} (hhead : head? form = some "locals")
    (hnames : env.names.Of declarations) (h : functionOption env d form = .ok d') :
    ∃ locals, d' = { d with locals := locals } ∧ ∀ v ∈ locals, v ∈ d.locals ∨
      ∃ type, .list [v.name, type] ∈ arguments form ∧ RefersTo declarations type v.type := by
  unfold functionOption at h
  rw [hhead] at h
  obtain ⟨entries, hentries, h⟩ := bind_eq_ok.mp h
  refine foldlM_invariant (fun _ b => ∃ locals, b = { d with locals := locals } ∧ ∀ v ∈ locals,
    v ∈ d.locals ∨ ∃ type, .list [v.name, type] ∈ arguments form ∧ RefersTo declarations type v.type)
    ⟨d.locals, rfl, fun v hv => Or.inl hv⟩ ?_ h
  intro past entry rest b c hsplit hb hc
  obtain ⟨locals, rfl, hlocals⟩ := hb
  obtain ⟨type, htype, hc⟩ := bind_eq_ok.mp hc
  obtain rfl := pure_eq_ok.mp hc
  unfold FunctionDraft.declare
  split
  · exact ⟨locals, rfl, hlocals⟩
  · refine ⟨locals ++ [⟨entry.1, type⟩], rfl, fun v hv => ?_⟩
    rcases List.mem_append.mp hv with hv | hv
    · exact hlocals v hv
    · obtain rfl := List.mem_singleton.mp hv
      have hentry : entry ∈ entries := hsplit ▸ List.mem_append_right _ List.mem_cons_self
      obtain ⟨item, hitem, rfl⟩ := exists_of_forall₂_right (pairs_eq_ok hentries) hentry
      exact Or.inr ⟨entry.2, hitem, hnames _ _ htype⟩

private theorem OptionsTaken.snoc {d₀ : FunctionDraft} {past : List Value} {form : Value}
    (hnames : env.names.Of declarations) (hd : OptionsTaken declarations d₀ past d)
    (h : functionOption env d form = .ok d') : OptionsTaken declarations d₀ (past ++ [form]) d' := by
  obtain ⟨params, locals, modeled, hframe⟩ := hd.frame
  have hoption := h
  unfold functionOption at h
  split at h
  · rename_i hhead
    obtain ⟨added, rfl, hadded⟩ := paramsOption_eq_ok hhead hnames hoption
    refine ⟨⟨params ++ added, locals, modeled, by rw [hframe]⟩, ?_, ?_, ?_⟩
    · rw [entriesOf_snoc_self hhead]
      exact List.rel_append hd.params hadded
    · rw [entriesOf_snoc_of_ne hhead (by decide)]
      exact hd.locals
    · rw [filter_snoc_of_ne hhead (by decide)]
      exact hd.modeled
  · rename_i hhead
    obtain ⟨after, rfl, hafter⟩ := localsOption_eq_ok hhead hnames hoption
    refine ⟨⟨params, after, modeled, by rw [hframe]⟩, ?_, fun v hv => ?_, ?_⟩
    · rw [entriesOf_snoc_of_ne hhead (by decide)]
      exact hd.params
    · rw [entriesOf_snoc_self hhead]
      rcases hafter v hv with hv | ⟨type, hmem, htype⟩
      · obtain ⟨type, hmem, htype⟩ := hd.locals v hv
        exact ⟨type, List.mem_append_left _ hmem, htype⟩
      · exact ⟨type, List.mem_append_right _ hmem, htype⟩
    · rw [filter_snoc_of_ne hhead (by decide)]
      exact hd.modeled
  · rename_i hhead
    obtain rfl := Except.ok.inj h
    refine ⟨⟨params, locals, false, by rw [hframe]⟩, ?_, ?_, ?_⟩
    · rw [entriesOf_snoc_of_ne hhead (by decide)]
      exact hd.params
    · rw [entriesOf_snoc_of_ne hhead (by decide)]
      exact hd.locals
    · rw [filter_snoc_self hhead]
      simp
  · rename_i hhead
    obtain rfl := Except.ok.inj h
    refine ⟨hd.frame, ?_, ?_, ?_⟩
    · rw [entriesOf_snoc_of_ne hhead (by decide)]
      exact hd.params
    · rw [entriesOf_snoc_of_ne hhead (by decide)]
      exact hd.locals
    · rw [filter_snoc_of_ne hhead (by decide)]
      exact hd.modeled
  · cases h

theorem options_taken {name : String} {place : Location} {forms : List Value}
    (hnames : env.names.Of declarations)
    (h : forms.foldlM (functionOption env) (FunctionDraft.new name place) = .ok d) :
    OptionsTaken declarations (FunctionDraft.new name place) forms d := by
  refine foldlM_invariant (OptionsTaken declarations (FunctionDraft.new name place)) ?_ ?_ h
  · exact ⟨⟨[], [], true, rfl⟩, .nil, fun v hv => (by cases hv), rfl⟩
  · intro past form rest b c _ hb hc
    exact hb.snoc hnames hc

theorem leadingPlace_filter {items rest : List Value} {place : Location}
    (h : leadingPlace items = .ok (place, rest)) {word : String} (hword : word ≠ "at") :
    items.filter (hasHead word) = rest.filter (hasHead word) := by
  unfold leadingPlace at h
  split at h
  · obtain ⟨_, _, h⟩ := bind_eq_ok.mp h
    obtain ⟨-, rfl⟩ := Prod.mk.inj (pure_eq_ok.mp h)
    rw [List.filter_cons_of_neg (by simpa [hasHead, head?] using hword.symm)]
  · obtain ⟨-, rfl⟩ := Prod.mk.inj (Except.ok.inj h)
    rfl

/-- What reading the form of a function consists of: its options are taken, then its blocks are
opened and filled. A place at its start is no option. -/
theorem functionDraft_eq_ok {form : Value} (hnames : env.names.Of declarations)
    (h : functionDraft env form = .ok d') :
    ∃ (name : String) (place : Location) (rest : List Value) (d₁ d₂ : FunctionDraft) (labels : Labels)
      (blocks : List BlockForm), (arguments form).head? = some (.text name) ∧
      (∀ word, word ≠ "at" → (arguments form).filter (hasHead word) = rest.filter (hasHead word)) ∧
      OptionsTaken declarations (FunctionDraft.new name place) rest d₁ ∧
      Opened d₁ (blockForms form) (d₂, labels, blocks) ∧
      blocks.zipIdx.foldlM (fun d x => fillBlock env labels d x.1 x.2) d₂ = .ok d' := by
  unfold functionDraft at h
  split at h
  · rename_i first name args
    obtain ⟨⟨place, rest⟩, hplace, h⟩ := bind_eq_ok.mp h
    obtain ⟨d₁, hoptions, h⟩ := bind_eq_ok.mp h
    obtain ⟨⟨d₂, labels, blocks⟩, hopen, hfill⟩ := bind_eq_ok.mp h
    have hrest : ∀ word, word ≠ "at" →
        (Value.text name :: args).filter (hasHead word) = rest.filter (hasHead word) := by
      intro word hword
      rw [List.filter_cons_of_neg (by simp [hasHead, head?])]
      exact leadingPlace_filter hplace hword
    have htaken := options_taken hnames hoptions
    obtain ⟨_, _, _, hframe⟩ := htaken.frame
    refine ⟨name, _, rest, d₁, d₂, labels, blocks, rfl, hrest, htaken, ?_, hfill⟩
    refine openBlocks_opened (by rw [hframe]; rfl) (by rw [hframe]; rfl) ?_
    exact (congrArg (openBlocks d₁) (hrest "block" (by decide))).trans hopen
  · cases h

theorem hasHead_list_iff {word : String} {first : Value} {rest : List Value} :
    hasHead word (.list (first :: rest)) = true ↔ first = .text word := by
  cases first with
  | text s => simp [hasHead, head?]
  | _ => simp [hasHead, head?]

theorem blockForm_eq_ok {form : Value} {b : BlockForm} (hhead : hasHead "block" form = true)
    (h : blockForm form = .ok b) :
    form = .list (.text "block" :: b.label :: .list (.text "succ" :: b.successors) :: b.stmts) := by
  unfold blockForm at h
  split at h
  · rename_i first label successors stmts
    obtain rfl := Except.ok.inj h
    rw [hasHead_list_iff.mp hhead]
  · cases h

private theorem blocks_function {filled : List (List Stmt × List Int)}
    (hstmts : d.stmts = filled.map Prod.fst) (hsuccessors : d.successors = filled.map Prod.snd) :
    d.function.blocks = filled.zipIdx.map fun x => ⟨x.2, x.1.1, x.1.2⟩ := by
  have hzip : d.stmts.zip d.successors = filled := by
    rw [hstmts, hsuccessors]
    exact (List.zip_of_prod rfl rfl).symm
  unfold FunctionDraft.function
  rw [hzip]

/-- The statements of a function are those that its blocks were filled with. -/
theorem roots_function {filled : List (List Stmt × List Int)}
    (hblocks : d.function.blocks = filled.zipIdx.map fun x => ⟨x.2, x.1.1, x.1.2⟩) :
    d.function.roots.map Prod.snd = (filled.map Prod.fst).flatten := by
  have hfilled : filled.map Prod.fst = filled.zipIdx.map fun x => x.1.1 := by
    conv_lhs => rw [← List.zipIdx_map_fst 0 filled, List.map_map]
    rfl
  unfold Function.roots
  rw [hblocks, hfilled, List.map_flatMap, List.flatMap_map]
  simp only [List.map_map, Function.comp_def, List.map_id']
  rfl

/-- Where statements share out all expressions, each is in the trees of just one. -/
theorem existsUnique_root {f : Function} {stmts : List Stmt} (hroots : f.roots.map Prod.snd = stmts)
    (htiles : Tiles f 0 stmts f.exprs.length) {i : Int} (hi : f.HasExpr i) :
    ∃! k : Nat, ∃ root, f.roots[k]? = some root ∧ f.StmtEvaluates root.2 i := by
  have hiff : ∀ k : Nat, (∃ s, stmts[k]? = some s ∧ f.StmtEvaluates s i) ↔
      ∃ root, f.roots[k]? = some root ∧ f.StmtEvaluates root.2 i := by
    intro k
    rw [← hroots, List.getElem?_map]
    cases f.roots[k]? with
    | none => simp
    | some root => simp
  exact (existsUnique_congr hiff).mp (htiles.existsUnique hi.1 hi.2)

/-- Variables that are new after blocks are filled are declared by their statements. -/
theorem fillBlocks_locals {labels : Labels} {blocks : List (BlockForm × Nat)}
    (hnames : env.names.Of declarations)
    (h : blocks.foldlM (fun d x => fillBlock env labels d x.1 x.2) d = .ok d') :
    ∀ v ∈ d'.locals, v ∈ d.locals ∨
      ∃ b ∈ blocks, ∃ form ∈ b.1.stmts, LetDeclares declarations form v := by
  refine foldlM_invariant (fun _ c => ∀ v ∈ c.locals, v ∈ d.locals ∨
    ∃ b ∈ blocks, ∃ form ∈ b.1.stmts, LetDeclares declarations form v) (fun v hv => Or.inl hv) ?_ h
  intro past x rest b c hsplit hb hc v hv
  rcases fillBlock_locals hnames hc v hv with hv | hlet
  · exact hb v hv
  · exact Or.inr ⟨x, hsplit ▸ List.mem_append_right _ List.mem_cons_self, hlet⟩

/-- The blocks that were opened for some forms and then filled are what is kept of the forms. -/
theorem blocks_retain {forms : List Value} {blocks : List BlockForm} {labels : Labels}
    {filled : List (List Stmt × List Int)} {exprs : List Expr}
    (hheads : ∀ form ∈ forms, hasHead "block" form = true)
    (hforms : List.Forall₂ (fun form b => blockForm form = .ok b) forms blocks)
    (hlabels : ∀ label target, labels.find? label = some target → LabelAt forms label target)
    (hfilled : List.Forall₂ (BlockFilled declarations labels exprs) blocks filled) :
    List.Forall₂ (BlockFrom (StmtRetains declarations exprs) forms) forms.zipIdx
      (filled.zipIdx.map fun x => ⟨x.2, x.1.1, x.1.2⟩) := by
  rw [List.forall₂_map_right_iff]
  refine (forall₂_zipIdx (forall₂_comp (forall₂_with_mem hforms) hfilled) 0).imp ?_
  rintro ⟨form, i⟩ ⟨⟨stmts, out⟩, j⟩ ⟨rfl, b, ⟨hmem, hform⟩, hstmts, targets, htargets, rfl⟩
  refine ⟨rfl, b.label, b.successors, b.stmts, targets, blockForm_eq_ok (hheads form hmem) hform, ?_,
    rfl, hstmts⟩
  exact htargets.imp hlabels

/-- What the blocks are filled with. Where there are no forms, there is one empty block. -/
theorem fillBlocks_filled {d₀ : FunctionDraft} {forms : List Value} {labels : Labels}
    {blocks : List BlockForm} (hnames : env.names.Of declarations) (hexprs : d₀.exprs = [])
    (hopened : Opened d₀ forms (d, labels, blocks))
    (h : blocks.zipIdx.foldlM (fun d x => fillBlock env labels d x.1 x.2) d = .ok d') :
    ∃ filled, d'.stmts = filled.map Prod.fst ∧ d'.successors = filled.map Prod.snd ∧
      (forms = [] → filled = [([], [])]) ∧
      (forms ≠ [] → List.Forall₂ (BlockFilled declarations labels d'.exprs) blocks filled) ∧
      ((∀ b ∈ blocks, ∀ form ∈ b.stmts, StmtRegular form) →
        Tiles d'.function 0 (filled.map Prod.fst).flatten d'.exprs.length) := by
  obtain ⟨current, hdraft⟩ := hopened.draft
  dsimp only at hdraft
  have hlength : forms.length = blocks.length := hopened.blocks.length_eq
  have hnone : d.exprs.length = 0 := by rw [hdraft, hexprs]; rfl
  cases blocks with
  | nil =>
    -- The block that is open from the start stays as it is.
    obtain rfl := List.length_eq_zero_iff.mp hlength
    obtain rfl := pure_eq_ok.mp h
    refine ⟨[([], [])], by rw [hdraft]; rfl, by rw [hdraft]; rfl, fun _ => rfl,
      fun hne => absurd rfl hne, fun _ => ?_⟩
    rw [hnone]
    exact .nil 0
  | cons b blocks =>
    have hmax : max 1 forms.length = (b :: blocks).length := by
      rw [hlength, List.length_cons]
      omega
    rw [hmax] at hdraft
    obtain ⟨filled, hstmts, hsuccessors, hretains⟩ :=
      fillBlocks_retain hnames (rfl : ([] : List (List Stmt)).length = 0)
        (rfl : ([] : List (List Int)).length = 0) (by rw [hdraft]; rfl) (by rw [hdraft]; rfl) h
    obtain ⟨hfilled, htiles⟩ := hretains d'.function (List.prefix_refl _)
    rw [hnone] at htiles
    refine ⟨filled, hstmts, hsuccessors, fun hnil => ?_, fun _ => hfilled, htiles⟩
    rw [hnil] at hlength
    cases hlength

/-- The function that is drafted from a form has the blocks of the form. If the form is regular,
each expression is in the trees of just one statement. -/
theorem functionDraft_retains {form : Value} (hnames : env.names.Of declarations)
    (h : functionDraft env form = .ok d) :
    FunctionFrom (StmtRetains declarations d.exprs) form d.function ∧
      (FunctionRegular form → ∀ i, d.function.HasExpr i →
        ∃! k : Nat, ∃ root, d.function.roots[k]? = some root ∧ d.function.StmtEvaluates root.2 i) := by
  obtain ⟨name, place, rest, d₁, d₂, labels, blocks, -, -, htaken, hopened, hfill⟩ :=
    functionDraft_eq_ok hnames h
  obtain ⟨params, locals, modeled, hframe⟩ := htaken.frame
  have hheads : ∀ g ∈ blockForms form, hasHead "block" g = true := fun g hg => (List.mem_filter.mp hg).2
  obtain ⟨filled, hstmts, hsuccessors, hnil, hfilled, htiles⟩ :=
    fillBlocks_filled hnames (by rw [hframe]; rfl) hopened hfill
  have hblocks := blocks_function hstmts hsuccessors
  refine ⟨⟨fun hne => ?_, fun hempty => ?_⟩, fun hregular i hi => ?_⟩
  · rw [hblocks]
    exact blocks_retain hheads hopened.blocks hopened.labels (hfilled hne)
  · rw [hblocks, hnil hempty]
    rfl
  · refine existsUnique_root (roots_function hblocks) (htiles fun b hb => ?_) hi
    obtain ⟨g, hg, hform⟩ := exists_of_forall₂_right hopened.blocks hb
    exact hregular _ _ _ (blockForm_eq_ok (hheads g hg) hform ▸ hg)

/-- The function that is drafted from a form is what the form spells. -/
theorem functionDraft_depicts {form : Value} (hnames : env.names.Of declarations)
    (hregular : FunctionRegular form) (h : functionDraft env form = .ok d) :
    FunctionDepicts declarations form d.function := by
  obtain ⟨hretains, hexprs⟩ := functionDraft_retains hnames h
  obtain ⟨name, place, rest, d₁, d₂, labels, blocks, hname, hrest, htaken, hopened, hfill⟩ :=
    functionDraft_eq_ok hnames h
  obtain ⟨params, locals, modeled, hframe⟩ := htaken.frame
  obtain ⟨current, hdraft⟩ := hopened.draft
  have hshell : shell d = shell d₁ :=
    (fillBlocks_frame hfill).1.trans (by rw [show d₂ = _ from hdraft]; rfl)
  obtain ⟨hname', -, hmodeled, hparams⟩ : d.name = d₁.name ∧ d.location = d₁.location ∧
    d.modeled = d₁.modeled ∧ d.params = d₁.params := by simpa [shell] using hshell
  have hentries : ∀ word, word ≠ "at" → entriesOf word (arguments form) = entriesOf word rest := by
    intro word hword
    unfold entriesOf
    rw [hrest word hword]
  constructor
  case name =>
    rw [hname, show d.function.name = d₁.name from hname', hframe]
    rfl
  case modeled =>
    rw [hrest "unmodeled" (by decide), ← htaken.modeled]
    exact hmodeled
  case params =>
    rw [hentries "params" (by decide), show d.function.params = d₁.params from hparams]
    exact htaken.params
  case locals =>
    intro v hv
    rcases fillBlocks_locals hnames hfill v hv with hv | ⟨⟨b, i⟩, hb, g, hg, hlet⟩
    · rw [show d₂ = _ from hdraft] at hv
      obtain ⟨type, hmem, htype⟩ := htaken.locals v hv
      exact .entry (hentries "locals" (by decide) ▸ hmem) htype
    · obtain ⟨blockform, hmem, hform⟩ :=
        exists_of_forall₂_right hopened.blocks (List.fst_mem_of_mem_zipIdx hb)
      have hhead := (List.mem_filter.mp hmem).2
      exact .letVar (blockForm_eq_ok hhead hform ▸ hmem) hg hlet
  case blocks =>
    intro hne
    refine (forall₂_with_mem (hretains.blocks hne)).imp ?_
    rintro g b ⟨hg, hb⟩
    refine hb.depicts fun label successors stmts hform => hregular label successors stmts ?_
    exact hform ▸ List.fst_mem_of_mem_zipIdx hg
  case noBlocks => exact hretains.noBlocks
  case exprs => exact hexprs hregular

end AccountLint.Document

import AccountLint.Proofs.Document.Statements

/-! The blocks of a function. They are opened in order, and each is then filled with the edges to
its successors and with its statements, so that the statements of all blocks share out the
expressions. -/
namespace AccountLint.Document

/-- Statements share out the expressions between two positions: the trees of each hold those from
where the ones before it end. -/
inductive Tiles (f : Function) : Nat → List Stmt → Nat → Prop where
  | nil (n : Nat) : Tiles f n [] n
  | cons {m n k : Nat} {s : Stmt} {stmts : List Stmt} (hle : m ≤ n)
      (hs : ∀ j, f.StmtEvaluates s j ↔ (m : Int) ≤ j ∧ j < n) (hstmts : Tiles f n stmts k) :
      Tiles f m (s :: stmts) k

namespace Tiles

variable {f : Function} {m n k : Nat} {stmts stmts' : List Stmt}

private theorem append (h : Tiles f m stmts n) (h' : Tiles f n stmts' k) :
    Tiles f m (stmts ++ stmts') k := by
  induction h with
  | nil n => exact h'
  | cons hle hs _ ih => exact .cons hle hs (ih h')

private theorem lower (h : Tiles f m stmts n) {s : Stmt} (hs : s ∈ stmts) {j : Int}
    (hj : f.StmtEvaluates s j) : (m : Int) ≤ j := by
  induction h with
  | nil n => cases hs
  | cons hle hfirst _ ih =>
    rcases List.mem_cons.mp hs with rfl | hs
    · exact ((hfirst j).mp hj).1
    · have := ih hs
      omega

/-- Every expression in between is in the trees of just one statement. -/
theorem existsUnique (h : Tiles f m stmts n) {j : Int} (hm : (m : Int) ≤ j) (hn : j < n) :
    ∃! k : Nat, ∃ s, stmts[k]? = some s ∧ f.StmtEvaluates s j := by
  induction h with
  | nil n => omega
  | @cons m n k s stmts hle hs hstmts ih =>
    by_cases hj : j < n
    · refine ⟨0, ⟨s, rfl, (hs j).mpr ⟨hm, hj⟩⟩, fun i hi => ?_⟩
      obtain ⟨t, ht, htj⟩ := hi
      cases i with
      | zero => rfl
      | succ i =>
        have := hstmts.lower (List.mem_of_getElem? ht) htj
        omega
    · obtain ⟨i, ⟨t, ht, htj⟩, hunique⟩ := ih (by omega) hn
      refine ⟨i + 1, ⟨t, ht, htj⟩, fun i' hi' => ?_⟩
      obtain ⟨t', ht', htj'⟩ := hi'
      cases i' with
      | zero =>
        obtain rfl := Option.some.inj ht'
        exact absurd ((hs j).mp htj').2 hj
      | succ i' => rw [hunique i' ⟨t', ht', htj'⟩]

end Tiles

/-- What a draft holds of a function apart from its blocks, variables and expressions. -/
def shell (d : FunctionDraft) : String × Location × Bool × List Param :=
  (d.name, d.location, d.modeled, d.params)

variable {env : Env} {d d' : FunctionDraft} {declarations : List Value}

private theorem stmts_frame {forms : List Value} (h : forms.foldlM (stmt env) d = .ok d') :
    ∃ added locals stmts here, d' = { d with exprs := d.exprs ++ added, locals := locals
                                             stmts := stmts, here := here } := by
  refine foldlM_invariant (fun _ b => ∃ added locals stmts here,
    b = { d with exprs := d.exprs ++ added, locals := locals, stmts := stmts, here := here })
    ⟨[], d.locals, d.stmts, d.here, by rw [List.append_nil]⟩ ?_ h
  intro past x rest b c _ hb hc
  obtain ⟨added, locals, stmts, here, rfl⟩ := hb
  obtain ⟨more, locals', stmts', here', rfl⟩ := (stmt_adds env x _ c hc).frame
  exact ⟨added ++ more, locals', stmts', here', by rw [List.append_assoc]⟩

/-- Statements that are read one after the other are what is kept of their forms. If these are
regular, the statements share out the expressions that were added. -/
theorem stmts_retain {forms : List Value} (hnames : env.names.Of declarations)
    (h : forms.foldlM (stmt env) d = .ok d') :
    ∃ stmts, d'.stmts = d.stmts.modify d.current.toNat (· ++ stmts) ∧
      ∀ f : Function, d'.exprs <+: f.exprs →
        List.Forall₂ (StmtRetains declarations f.exprs) forms stmts ∧
        ((∀ form ∈ forms, StmtRegular form) → Tiles f d.exprs.length stmts d'.exprs.length) := by
  induction forms generalizing d with
  | nil =>
    obtain rfl := pure_eq_ok.mp h
    refine ⟨[], ?_, fun f _ => ⟨.nil, fun _ => .nil _⟩⟩
    simp only [List.append_nil]
    exact (List.modify_id _ _).symm
  | cons form forms ih =>
    rw [List.foldlM_cons] at h
    obtain ⟨d₁, hform, h⟩ := bind_eq_ok.mp h
    have hadds := stmt_adds env form d d₁ hform
    obtain ⟨s, hs, hretains⟩ := hadds.added hnames
    obtain ⟨stmts, hstmts, hrest⟩ := ih h
    obtain ⟨added, _, _, _, hd₁⟩ := hadds.frame
    obtain ⟨more, _, _, _, hd'⟩ := stmts_frame h
    have hcurrent : d₁.current = d.current := by rw [hd₁]
    have hbefore : d.exprs <+: d₁.exprs := by rw [hd₁]; exact List.prefix_append _ _
    have hafter : d₁.exprs <+: d'.exprs := by rw [hd']; exact List.prefix_append _ _
    refine ⟨s :: stmts, ?_, fun f hexprs => ?_⟩
    · rw [hstmts, hs, hcurrent, List.modify_modify_eq]
      congr 1
      funext own
      exact List.append_assoc own [s] stmts
    · obtain ⟨hfirst, hevaluates⟩ := hretains f (hafter.trans hexprs)
      obtain ⟨hothers, htiles⟩ := hrest f hexprs
      refine ⟨.cons hfirst hothers, fun hregular => ?_⟩
      exact .cons hbefore.length_le (hevaluates (hregular form List.mem_cons_self))
        (htiles fun g hg => hregular g (List.mem_cons_of_mem _ hg))

/-- The positions of labels are looked up, and each is added as an edge unless it is there. -/
theorem addEdge_eq_ok {labels : Labels} {i : Nat} {label : Value}
    (h : addEdge labels i d label = .ok d') : ∃ target, labels.find? label = some target ∧
      d' = { d with successors := d.successors.modify i fun out => addNew out target } := by
  unfold addEdge at h
  split at h
  · cases h
  · split at h
    · rename_i target htarget
      refine ⟨target, htarget, ?_⟩
      unfold FunctionDraft.edge FunctionDraft.resolve? at h
      rw [if_pos (Int.natCast_nonneg i), Int.toNat_natCast] at h
      split at h
      · cases h
      · rename_i k hk
        split at hk
        · obtain rfl := Option.some.inj hk
          exact (Except.ok.inj h).symm
        · cases hk
    · cases h

private theorem edges_eq_ok {labels : Labels} {i : Nat} {names : List Value}
    (h : names.foldlM (addEdge labels i) d = .ok d') :
    ∃ targets, List.Forall₂ (fun label target => labels.find? label = some target) names targets ∧
      d' = { d with successors := d.successors.modify i fun out => targets.foldl addNew out } := by
  induction names generalizing d with
  | nil =>
    obtain rfl := pure_eq_ok.mp h
    have hid : (fun out : List Int => ([] : List Int).foldl addNew out) = id := rfl
    exact ⟨[], .nil, by rw [hid, List.modify_id]⟩
  | cons label names ih =>
    rw [List.foldlM_cons] at h
    obtain ⟨d₁, hlabel, h⟩ := bind_eq_ok.mp h
    obtain ⟨target, htarget, rfl⟩ := addEdge_eq_ok hlabel
    obtain ⟨targets, htargets, rfl⟩ := ih h
    refine ⟨target :: targets, .cons htarget htargets, ?_⟩
    rw [List.modify_modify_eq]
    rfl

private theorem fillBlock_eq_ok {labels : Labels} {b : BlockForm} {i : Nat}
    (h : fillBlock env labels d b i = .ok d') :
    ∃ targets,
      List.Forall₂ (fun label target => labels.find? label = some target) b.successors targets ∧
      b.stmts.foldlM (stmt env) { d with current := i
                                         successors := d.successors.modify i fun out =>
                                           targets.foldl addNew out } = .ok d' := by
  unfold fillBlock at h
  obtain ⟨d₁, hgoto, h⟩ := bind_eq_ok.mp h
  obtain ⟨d₂, hedges, hstmts⟩ := bind_eq_ok.mp h
  unfold FunctionDraft.goto at hgoto
  split at hgoto
  · obtain rfl := Except.ok.inj hgoto
    obtain ⟨targets, htargets, rfl⟩ := edges_eq_ok hedges
    exact ⟨targets, htargets, hstmts⟩
  · cases hgoto

/-- Filling a block adds the edges to its successors and its statements. -/
theorem fillBlock_retains {labels : Labels} {b : BlockForm} {i : Nat}
    (hnames : env.names.Of declarations) (h : fillBlock env labels d b i = .ok d') :
    ∃ stmts targets,
      List.Forall₂ (fun label target => labels.find? label = some target) b.successors targets ∧
      d'.successors = d.successors.modify i (fun out => targets.foldl addNew out) ∧
      d'.stmts = d.stmts.modify i (· ++ stmts) ∧
      ∀ f : Function, d'.exprs <+: f.exprs →
        List.Forall₂ (StmtRetains declarations f.exprs) b.stmts stmts ∧
        ((∀ form ∈ b.stmts, StmtRegular form) → Tiles f d.exprs.length stmts d'.exprs.length) := by
  obtain ⟨targets, htargets, hstmts⟩ := fillBlock_eq_ok h
  obtain ⟨stmts, hd', hretains⟩ := stmts_retain hnames hstmts
  obtain ⟨_, _, _, _, hframe⟩ := stmts_frame hstmts
  exact ⟨stmts, targets, htargets, by rw [hframe], hd', hretains⟩

/-- Variables that are new after statements are declared by them. -/
theorem stmts_locals {forms : List Value} (hnames : env.names.Of declarations)
    (h : forms.foldlM (stmt env) d = .ok d') {v : LocalVar} (hv : v ∈ d'.locals) :
    v ∈ d.locals ∨ ∃ form ∈ forms, LetDeclares declarations form v := by
  induction forms generalizing d with
  | nil =>
    obtain rfl := pure_eq_ok.mp h
    exact Or.inl hv
  | cons form forms ih =>
    rw [List.foldlM_cons] at h
    obtain ⟨d₁, hform, h⟩ := bind_eq_ok.mp h
    rcases ih h with hold | ⟨g, hg, hlet⟩
    · refine ((stmt_adds env form d d₁ hform).locals hnames hold).imp_right fun hlet => ?_
      exact ⟨form, List.mem_cons_self, hlet⟩
    · exact Or.inr ⟨g, List.mem_cons_of_mem _ hg, hlet⟩

theorem fillBlock_locals {labels : Labels} {b : BlockForm} {i : Nat}
    (hnames : env.names.Of declarations) (h : fillBlock env labels d b i = .ok d') :
    ∀ v ∈ d'.locals, v ∈ d.locals ∨ ∃ form ∈ b.stmts, LetDeclares declarations form v := by
  intro v hv
  obtain ⟨targets, _, hstmts⟩ := fillBlock_eq_ok h
  exact stmts_locals hnames hstmts hv

private theorem fillBlock_frame {labels : Labels} {b : BlockForm} {i : Nat}
    (h : fillBlock env labels d b i = .ok d') : shell d' = shell d ∧ d.exprs <+: d'.exprs := by
  obtain ⟨targets, _, hstmts⟩ := fillBlock_eq_ok h
  obtain ⟨added, _, _, _, rfl⟩ := stmts_frame hstmts
  exact ⟨rfl, List.prefix_append _ _⟩

theorem fillBlocks_frame {labels : Labels} {blocks : List (BlockForm × Nat)}
    (h : blocks.foldlM (fun d x => fillBlock env labels d x.1 x.2) d = .ok d') :
    shell d' = shell d ∧ d.exprs <+: d'.exprs := by
  refine foldlM_invariant (fun _ b => shell b = shell d ∧ d.exprs <+: b.exprs)
    ⟨rfl, List.prefix_refl _⟩ ?_ h
  intro past x rest b c _ hb hc
  obtain ⟨hshell, hprefix⟩ := fillBlock_frame hc
  exact ⟨hshell.trans hb.1, hb.2.trans hprefix⟩

/-- The statements and successors of a block are those of its form. -/
def BlockFilled (declarations : List Value) (labels : Labels) (exprs : List Expr) (b : BlockForm)
    (filled : List Stmt × List Int) : Prop :=
  List.Forall₂ (StmtRetains declarations exprs) b.stmts filled.1 ∧
    ∃ targets, List.Forall₂ (fun label target => labels.find? label = some target) b.successors
      targets ∧ filled.2 = distinct targets

/-- Blocks that are empty at first are filled one after the other. -/
theorem fillBlocks_retain {labels : Labels} {blocks : List BlockForm}
    (hnames : env.names.Of declarations) {k : Nat}
    {stmts : List (List Stmt)} {successors : List (List Int)} (hk : stmts.length = k)
    (hk' : successors.length = k) (hstmts : d.stmts = stmts ++ List.replicate blocks.length [])
    (hsuccessors : d.successors = successors ++ List.replicate blocks.length [])
    (h : (blocks.zipIdx k).foldlM (fun d x => fillBlock env labels d x.1 x.2) d = .ok d') :
    ∃ filled : List (List Stmt × List Int), d'.stmts = stmts ++ filled.map Prod.fst ∧
      d'.successors = successors ++ filled.map Prod.snd ∧ ∀ f : Function, d'.exprs <+: f.exprs →
        List.Forall₂ (BlockFilled declarations labels f.exprs) blocks filled ∧
        ((∀ b ∈ blocks, ∀ form ∈ b.stmts, StmtRegular form) →
          Tiles f d.exprs.length (filled.map Prod.fst).flatten d'.exprs.length) := by
  -- The blocks before position `k` are filled, and those from there on are still empty.
  induction blocks generalizing d k stmts successors with
  | nil =>
    obtain rfl := pure_eq_ok.mp h
    exact ⟨[], hstmts, hsuccessors, fun f _ => ⟨.nil, fun _ => .nil _⟩⟩
  | cons b blocks ih =>
    rw [List.zipIdx_cons, List.foldlM_cons] at h
    obtain ⟨d₁, hfill, h⟩ := bind_eq_ok.mp h
    obtain ⟨own, targets, htargets, hout, hown, hretains⟩ := fillBlock_retains hnames hfill
    have hstmts₁ : d₁.stmts = (stmts ++ [own]) ++ List.replicate blocks.length [] := by
      rw [hown, hstmts, ← hk, List.length_cons, List.replicate_succ, modify_length_append,
        List.nil_append, List.append_assoc]
      rfl
    have hsuccessors₁ : d₁.successors =
        (successors ++ [distinct targets]) ++ List.replicate blocks.length [] := by
      rw [hout, hsuccessors, ← hk', List.length_cons, List.replicate_succ, modify_length_append,
        List.append_assoc]
      rfl
    obtain ⟨filled, hstmts', hsuccessors', hrest⟩ :=
      ih (by simp [hk]) (by simp [hk']) hstmts₁ hsuccessors₁ h
    refine ⟨(own, distinct targets) :: filled, ?_, ?_, fun f hexprs => ?_⟩
    · rw [hstmts', List.append_assoc]
      rfl
    · rw [hsuccessors', List.append_assoc]
      rfl
    · obtain ⟨hforms, htiles⟩ := hretains f ((fillBlocks_frame h).2.trans hexprs)
      obtain ⟨hothers, htiles'⟩ := hrest f hexprs
      refine ⟨.cons ⟨hforms, targets, htargets, rfl⟩ hothers, fun hregular => ?_⟩
      exact (htiles (hregular b List.mem_cons_self)).append
        (htiles' fun c hc => hregular c (List.mem_cons_of_mem _ hc))

/-- The label of the last block form. -/
theorem labelAt_last {past : List Value} {form label : Value} (h : hasLabel label form = true) :
    LabelAt (past ++ [form]) label past.length := by
  refine ⟨past.length, rfl, ?_, fun j hj => ?_⟩
  · rw [List.getElem?_append_right (Nat.le_refl _), Nat.sub_self]
    exact h
  · rw [List.getElem?_eq_none (by rw [List.length_append, List.length_singleton]; exact hj)]
    rfl

private theorem LabelAt.snoc {past : List Value} {form label : Value} {target : Int}
    (h : LabelAt past label target) (hform : hasLabel label form = false) :
    LabelAt (past ++ [form]) label target := by
  obtain ⟨i, rfl, hi, hlater⟩ := h
  have hlt : i < past.length := by
    by_contra hout
    rw [List.getElem?_eq_none (Nat.le_of_not_lt hout)] at hi
    cases hi
  refine ⟨i, rfl, ?_, fun j hj => ?_⟩
  · rw [List.getElem?_append_left hlt]
    exact hi
  · rcases Nat.lt_trichotomy j past.length with hj' | rfl | hj'
    · rw [List.getElem?_append_left hj']
      exact hlater j hj
    · rw [List.getElem?_append_right (Nat.le_refl _), Nat.sub_self]
      exact hform
    · rw [List.getElem?_eq_none (by rw [List.length_append, List.length_singleton]; exact hj')]
      rfl

/-- What opening the blocks of some forms comes to: as many empty blocks, or one if there are no
forms, and the positions of the labels. -/
structure Opened (d : FunctionDraft) (forms : List Value)
    (state : FunctionDraft × Labels × List BlockForm) : Prop where
  draft : ∃ current, state.1 = { d with stmts := List.replicate (max 1 forms.length) []
                                        successors := List.replicate (max 1 forms.length) []
                                        current := current }
  labels : ∀ label target, state.2.1.find? label = some target → LabelAt forms label target
  blocks : List.Forall₂ (fun form b => blockForm form = .ok b) forms state.2.2

private theorem label_of_blockForm {form : Value} {b : BlockForm} (h : blockForm form = .ok b)
    (label : Value) :
    hasLabel label form = b.label.same label := by
  unfold blockForm at h
  split at h
  · obtain rfl := Except.ok.inj h
    rfl
  · cases h

private theorem Opened.snoc {past : List Value} {form : Value}
    {labels : Labels} {blocks : List BlockForm} {b : BlockForm}
    (h : Opened d past (d', labels, blocks)) (hform : blockForm form = .ok b) :
    Opened d (past ++ [form]) (if blocks.isEmpty then d' else d'.block.2,
      (b.label, (blocks.length : Int)) :: labels, blocks ++ [b]) where
  draft := by
    obtain ⟨current, hdraft⟩ := h.draft
    have hlength : past.length = blocks.length := h.blocks.length_eq
    rw [List.length_append, List.length_singleton]
    dsimp only at hdraft ⊢
    split
    · rename_i hempty
      have hzero : past.length = 0 := by rw [hlength, List.isEmpty_iff.mp hempty, List.length_nil]
      rw [hzero] at hdraft ⊢
      exact ⟨current, hdraft⟩
    · rename_i hempty
      have hpos : 0 < past.length := by
        rw [hlength]
        exact List.length_pos_iff.mpr fun hnil => hempty (List.isEmpty_iff.mpr hnil)
      have hmax : max 1 (past.length + 1) = max 1 past.length + 1 := by omega
      rw [hdraft, hmax, List.replicate_succ', List.replicate_succ']
      exact ⟨_, rfl⟩
  labels := by
    intro label target hfind
    have hlabel := label_of_blockForm hform label
    unfold Labels.find? at hfind
    rw [List.find?_cons] at hfind
    split at hfind
    · rename_i hsame
      obtain rfl := Option.some.inj hfind
      rw [← h.blocks.length_eq]
      exact labelAt_last (hlabel.trans hsame)
    · rename_i hother
      exact (h.labels label target hfind).snoc (hlabel.trans hother)
  blocks := List.rel_append h.blocks (.cons hform .nil)

theorem openBlocks_opened {forms : List Value} {state : FunctionDraft × Labels × List BlockForm}
    (hstmts : d.stmts = [[]]) (hsuccessors : d.successors = [[]])
    (h : openBlocks d forms = .ok state) : Opened d forms state := by
  refine foldlM_invariant (Opened d) ⟨⟨d.current, ?_⟩, ?_, .nil⟩ ?_ h
  · cases d
    cases hstmts
    cases hsuccessors
    rfl
  · intro label target hfind
    cases hfind
  · intro past form rest state state' _ hstate hstep
    obtain ⟨d', labels, blocks⟩ := state
    obtain ⟨b, hform, hstep⟩ := bind_eq_ok.mp hstep
    dsimp only at hstep
    split at hstep
    · cases hstep
    · obtain rfl := pure_eq_ok.mp hstep
      exact hstate.snoc hform

end AccountLint.Document

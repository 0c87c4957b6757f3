import AccountLint.Proofs.Checked
import AccountLint.Proofs.Flow.Paths
import AccountLint.Program.Lookup

/-! What a function that passes validation is like. -/
namespace AccountLint
namespace Function

def HasExpr (f : Function) (i : Int) : Prop := 0 ≤ i ∧ i < f.exprs.length

def HasBlock (f : Function) (i : Int) : Prop := 0 ≤ i ∧ i < f.blocks.length

/-- Ids are positions, references are in range, and the children of an expression come before it. -/
structure Valid (f : Function) : Prop where
  entry : f.blocks ≠ [] → f.HasBlock f.entry
  blockId : ∀ {i : Nat} {b : Block}, f.blocks[i]? = some b → b.id = i
  successor : ∀ b ∈ f.blocks, ∀ s ∈ b.successors, f.HasBlock s
  value : ∀ b ∈ f.blocks, ∀ s ∈ b.stmts, f.HasExpr s.value
  target : ∀ b ∈ f.blocks, ∀ s ∈ b.stmts, ∀ i, s.target = some (.expr i) → f.HasExpr i
  exprId : ∀ {i : Nat} {e : Expr}, f.exprs[i]? = some e → e.id = i
  child : ∀ e ∈ f.exprs, ∀ c ∈ e.children, 0 ≤ c ∧ c < e.id

private theorem checkRef_eq_ok {f : Function} {limit : Int} {site : Site} {i : Int} :
    f.checkRef limit site i = .ok () ↔ 0 ≤ i ∧ i < limit := by
  unfold checkRef
  split
  · simp_all
  · simp_all

private theorem checkStmt_eq_ok {f : Function} {site : Site} {s : Stmt}
    (h : f.checkStmt site s = .ok ()) :
    f.HasExpr s.value ∧ ∀ i, s.target = some (.expr i) → f.HasExpr i := by
  obtain ⟨_, hv, ht⟩ := bind_eq_ok.mp h
  refine ⟨checkRef_eq_ok.mp hv, ?_⟩
  intro i hi
  rw [hi] at ht
  exact checkRef_eq_ok.mp ht

private theorem checkBlock_eq_ok {f : Function} {i : Nat} {b : Block}
    (h : f.checkBlock i b = .ok ()) :
    b.id = i ∧ (∀ s ∈ b.successors, f.HasBlock s) ∧
      ∀ s ∈ b.stmts, f.checkStmt (.block b.id) s = .ok () := by
  unfold checkBlock at h
  split at h
  · cases h
  · rename_i hid
    obtain ⟨_, hs, ht⟩ := bind_eq_ok.mp h
    refine ⟨not_not.mp hid, ?_, forM_eq_ok.mp ht⟩
    intro s hm
    have hc := forM_eq_ok.mp hs s hm
    split at hc
    · assumption
    · cases hc

private theorem checkExpr_eq_ok {f : Function} {i : Nat} {e : Expr} (h : f.checkExpr i e = .ok ()) :
    e.id = i ∧ ∀ c ∈ e.children, 0 ≤ c ∧ c < e.id := by
  unfold checkExpr at h
  split at h
  · cases h
  · rename_i hid
    exact ⟨not_not.mp hid, fun c hc => checkRef_eq_ok.mp (forM_eq_ok.mp h c hc)⟩

/-- A function that passes validation is well formed. -/
theorem Valid.of_validate {f : Function} (h : f.validate = .ok ()) : f.Valid := by
  unfold validate at h
  split at h
  · cases h
  rename_i hentry
  obtain ⟨_, hb, he⟩ := bind_eq_ok.mp h
  have hblock : ∀ {i : Nat} {b : Block}, f.blocks[i]? = some b → f.checkBlock i b = .ok () :=
    fun hi => forM_eq_ok.mp hb (_, _) (List.mem_zipIdx_iff_getElem?.mpr hi)
  have hexpr : ∀ {i : Nat} {e : Expr}, f.exprs[i]? = some e → f.checkExpr i e = .ok () :=
    fun hi => forM_eq_ok.mp he (_, _) (List.mem_zipIdx_iff_getElem?.mpr hi)
  have hmem : ∀ b ∈ f.blocks, ∃ i, f.checkBlock i b = .ok () := by
    intro b hm
    obtain ⟨i, hi⟩ := List.mem_iff_getElem?.mp hm
    exact ⟨i, hblock hi⟩
  have hstmt : ∀ b ∈ f.blocks, ∀ s ∈ b.stmts, f.checkStmt (.block b.id) s = .ok () := by
    intro b hm s hs
    obtain ⟨i, hi⟩ := hmem b hm
    exact (checkBlock_eq_ok hi).2.2 s hs
  constructor
  · intro hne
    by_contra hout
    exact hentry ⟨by simpa using hne, hout⟩
  · exact fun hi => (checkBlock_eq_ok (hblock hi)).1
  · intro b hm
    obtain ⟨i, hi⟩ := hmem b hm
    exact (checkBlock_eq_ok hi).2.1
  · exact fun b hm s hs => (checkStmt_eq_ok (hstmt b hm s hs)).1
  · exact fun b hm s hs => (checkStmt_eq_ok (hstmt b hm s hs)).2
  · exact fun hi => (checkExpr_eq_ok (hexpr hi)).1
  · intro e hm
    obtain ⟨i, hi⟩ := List.mem_iff_getElem?.mp hm
    exact (checkExpr_eq_ok (hexpr hi)).2

/-- A function that is well formed passes validation, if its statements assign to expressions. -/
theorem Valid.validate {f : Function} (hf : f.Valid)
    (htarget : ∀ b ∈ f.blocks, ∀ s ∈ b.stmts, ∀ t, s.target = some t → ∃ i, t = .expr i) :
    f.validate = .ok () := by
  have hstmt : ∀ b ∈ f.blocks, ∀ s ∈ b.stmts, f.checkStmt (.block b.id) s = .ok () := by
    intro b hb s hs
    refine bind_eq_ok.mpr ⟨(), checkRef_eq_ok.mpr (hf.value b hb s hs), ?_⟩
    cases ht : s.target with
    | none => rfl
    | some t =>
      obtain ⟨i, rfl⟩ := htarget b hb s hs t ht
      exact checkRef_eq_ok.mpr (hf.target b hb s hs i ht)
  have hblocks : f.blocks.zipIdx.forM (fun x => f.checkBlock x.2 x.1) = .ok () := by
    refine forM_eq_ok.mpr fun x hx => ?_
    have hat := List.mem_zipIdx_iff_getElem?.mp hx
    have hb := List.mem_of_getElem? hat
    unfold checkBlock
    rw [if_neg (not_not.mpr (hf.blockId hat))]
    refine bind_eq_ok.mpr ⟨(), forM_eq_ok.mpr fun s hs => ?_, forM_eq_ok.mpr (hstmt x.1 hb)⟩
    exact if_pos (hf.successor x.1 hb s hs)
  have hexprs : f.exprs.zipIdx.forM (fun x => f.checkExpr x.2 x.1) = .ok () := by
    refine forM_eq_ok.mpr fun x hx => ?_
    have hat := List.mem_zipIdx_iff_getElem?.mp hx
    unfold checkExpr
    rw [if_neg (not_not.mpr (hf.exprId hat))]
    exact forM_eq_ok.mpr fun c hc => checkRef_eq_ok.mpr (hf.child x.1 (List.mem_of_getElem? hat) c hc)
  unfold Function.validate
  rw [if_neg]
  · exact bind_eq_ok.mpr ⟨(), hblocks, hexprs⟩
  · rintro ⟨hne, hentry⟩
    exact hentry (hf.entry (by simpa using hne))

end Function

theorem fromEnd?_of_inRange {α : Type} {xs : List α} {i : Int} (h0 : 0 ≤ i) (hi : i < xs.length) :
    ∃ x, fromEnd? xs i = some x ∧ xs[i.toNat]? = some x := by
  have hn : i.toNat < xs.length := by omega
  refine ⟨xs.get ⟨i.toNat, hn⟩, ?_, List.getElem?_eq_getElem hn⟩
  unfold fromEnd?
  rw [if_pos h0]
  exact List.getElem?_eq_getElem hn

theorem mem_of_fromEnd? {α : Type} {xs : List α} {i : Int} {x : α} (h : fromEnd? xs i = some x) :
    x ∈ xs := by
  unfold fromEnd? at h
  split at h
  · exact List.mem_of_getElem? h
  · split at h
    · exact List.mem_of_getElem? h
    · cases h

namespace Function

theorem mem_exprs_of_expr {f : Function} {i : Int} {e : Expr} (h : f.expr i = .ok e) :
    e ∈ f.exprs := by
  unfold expr at h
  split at h
  · rename_i e' he
    obtain rfl := Except.ok.inj h
    exact mem_of_fromEnd? he
  · cases h

namespace Valid

variable {f : Function}

/-- At every position there is the expression with that id. -/
theorem expr_ok (hf : f.Valid) {i : Int} (hi : f.HasExpr i) :
    ∃ e, f.expr i = .ok e ∧ e.id = i := by
  obtain ⟨e, he, hget⟩ := fromEnd?_of_inRange hi.1 hi.2
  refine ⟨e, ?_, ?_⟩
  · unfold expr
    rw [he]
  · rw [hf.exprId hget, Int.toNat_of_nonneg hi.1]

theorem id_of_expr (hf : f.Valid) {i : Int} (hi : f.HasExpr i) {e : Expr} (he : f.expr i = .ok e) :
    e.id = i := by
  obtain ⟨e', he', hid⟩ := hf.expr_ok hi
  rw [he] at he'
  obtain rfl := Except.ok.inj he'
  exact hid

theorem expr_id (hf : f.Valid) {e : Expr} (he : e ∈ f.exprs) :
    f.HasExpr e.id ∧ f.expr e.id = .ok e := by
  obtain ⟨i, hi⟩ := List.mem_iff_getElem?.mp he
  have hid := hf.exprId hi
  have hlt : i < f.exprs.length := (List.getElem?_eq_some_iff.mp hi).1
  have hin : f.HasExpr e.id := by
    rw [hid]
    exact ⟨Int.natCast_nonneg i, by exact_mod_cast hlt⟩
  obtain ⟨e', he', hget⟩ := fromEnd?_of_inRange hin.1 hin.2
  refine ⟨hin, ?_⟩
  rw [hid, Int.toNat_natCast, hi] at hget
  obtain rfl := Option.some.inj hget
  unfold expr
  rw [he']

theorem block_ok (hf : f.Valid) {i : Int} (hi : f.HasBlock i) :
    ∃ b ∈ f.blocks, f.block i = .ok b ∧ b.id = i := by
  obtain ⟨b, hb, hget⟩ := fromEnd?_of_inRange hi.1 hi.2
  refine ⟨b, List.mem_of_getElem? hget, ?_, ?_⟩
  · unfold block
    rw [hb]
  · rw [hf.blockId hget, Int.toNat_of_nonneg hi.1]

theorem block_id (hf : f.Valid) {b : Block} (hb : b ∈ f.blocks) :
    f.HasBlock b.id ∧ f.block b.id = .ok b := by
  obtain ⟨i, hi⟩ := List.mem_iff_getElem?.mp hb
  have hlt : i < f.blocks.length := (List.getElem?_eq_some_iff.mp hi).1
  have hin : f.HasBlock b.id := by
    rw [hf.blockId hi]
    exact ⟨Int.natCast_nonneg i, by exact_mod_cast hlt⟩
  obtain ⟨c, hc, hget⟩ := fromEnd?_of_inRange hin.1 hin.2
  rw [hf.blockId hi, Int.toNat_natCast, hi] at hget
  obtain rfl : b = c := Option.some.inj hget
  refine ⟨hin, ?_⟩
  unfold block
  rw [hc]

/-- The children of an expression are expressions, and come before it. -/
theorem child_lt (hf : f.Valid) {e : Expr} (he : e ∈ f.exprs) {c : Int} (hc : c ∈ e.children) :
    f.HasExpr c ∧ c < e.id := by
  obtain ⟨h0, hlt⟩ := hf.child e he c hc
  obtain ⟨⟨_, hid⟩, _⟩ := hf.expr_id he
  exact ⟨⟨h0, by omega⟩, hlt⟩

theorem ids_eq (hf : f.Valid) : f.graph.ids = (List.range f.blocks.length).map Int.ofNat := by
  apply List.ext_getElem?
  intro i
  simp only [Graph.ids, graph, List.map_map, List.getElem?_map]
  cases hi : f.blocks[i]? with
  | none =>
    have hle : f.blocks.length ≤ i := List.getElem?_eq_none_iff.mp hi
    rw [List.getElem?_eq_none (by simpa using hle)]
    rfl
  | some b =>
    have hlt : i < f.blocks.length := (List.getElem?_eq_some_iff.mp hi).1
    rw [List.getElem?_range hlt]
    simp [hf.blockId hi]

theorem nodup_ids (hf : f.Valid) : f.graph.ids.Nodup := by
  rw [hf.ids_eq]
  exact List.nodup_range.map fun _ _ h => Int.ofNat.inj h

theorem mem_ids_iff (hf : f.Valid) {b : Int} : b ∈ f.graph.ids ↔ f.HasBlock b := by
  rw [hf.ids_eq, List.mem_map]
  constructor
  · rintro ⟨n, hn, rfl⟩
    exact ⟨Int.natCast_nonneg n, by simpa using hn⟩
  · rintro ⟨h0, hlt⟩
    exact ⟨b.toNat, List.mem_range.mpr (by omega), Int.toNat_of_nonneg h0⟩

theorem edges_closed (hf : f.Valid) : ∀ e ∈ f.graph.edges, ∀ c ∈ e.2, c ∈ f.graph.ids := by
  intro e he c hc
  obtain ⟨b, hb, rfl⟩ := List.mem_map.mp he
  exact hf.mem_ids_iff.mpr (hf.successor b hb c hc)

theorem mem_ids_of_reaches (hf : f.Valid) (hblocks : f.blocks ≠ []) {b : Int}
    (h : f.graph.Reaches f.entry b) : b ∈ f.graph.ids := by
  cases h with
  | refl => exact hf.mem_ids_iff.mpr (hf.entry hblocks)
  | tail _ he =>
    obtain ⟨out, hmem, hb⟩ := he
    exact hf.edges_closed _ hmem _ hb

end Valid
end Function
end AccountLint

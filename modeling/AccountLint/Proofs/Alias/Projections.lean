import AccountLint.Proofs.Alias.Chains
import AccountLint.Proofs.Alias.Places
import AccountLint.Proofs.Program.Valid

/-! Projections of places. An expression that views the place of its receiver through some steps
stands for the place of the receiver with these steps behind it, whatever the aliases are. So
expressions that stand for one place still do so after the same projection. -/
namespace AccountLint

private theorem Value.isTruthy_key (v : Value) : v.key.isTruthy = v.isTruthy := by
  cases v with
  | bool b => cases b <;> rfl
  | float x =>
    cases hx : x.toInt? with
    | none => simp [key, isTruthy, hx]
    | some i =>
      simp only [key, isTruthy, hx, Option.map_some, Option.getD_some]
      rw [Bool.eq_iff_iff, bne_iff_ne, bne_iff_ne, Ne, Ne, Option.some.injEq]
  | list xs =>
    simp only [key, isTruthy, keyList_eq_map]
    cases xs <;> rfl
  | _ => simp [key, isTruthy]

namespace AccessPath

variable {p q : AccessPath}

private theorem extend_nil (p : AccessPath) : p.extend [] = p := by simp [extend]

/-- Equal steps lead from equal places to equal places. -/
theorem same_extend {steps steps' : List Value} (h : p.same q = true)
    (hsteps : steps.map Value.key = steps'.map Value.key) :
    (p.extend steps).same (q.extend steps') = true := by
  have hkey := same_iff.mp h
  simp only [key, mk.injEq, Value.keyList_eq_map] at hkey
  apply same_iff.mpr
  simp only [key, extend, Value.keyList_eq_map, List.map_append, hkey.1, hkey.2, hsteps]

/-- Which steps are dereferences does not depend on how numbers are spelled. -/
theorem map_key_filter {steps steps' : List Value}
    (h : steps.map Value.key = steps'.map Value.key) :
    (steps.filter (· != derefStep)).map Value.key = (steps'.filter (· != derefStep)).map Value.key := by
  have hfilter : ∀ xs : List Value,
      (xs.filter (· != derefStep)).map Value.key = (xs.map Value.key).filter (· != derefStep) := by
    intro xs
    rw [List.filter_map]
    congr 1
    apply List.filter_congr
    intro v _
    have hv : v.key = derefStep ↔ v = derefStep := Value.key_eq_text_iff
    simp [bne, hv]
  rw [hfilter, hfilter, h]

/-- Equal names are equal projections. -/
theorem key_stepOf {name name' : Option Name} (h : name.map Value.key = name'.map Value.key) :
    (stepOf name).key = (stepOf name').key := by
  cases name with
  | none =>
    cases name' with
    | none => rfl
    | some n' => cases h
  | some n =>
    cases name' with
    | none => cases h
    | some n' =>
      have hkey : n.key = n'.key := Option.some.inj h
      have htruthy : n.isTruthy = n'.isTruthy := by
        rw [← Value.isTruthy_key n, ← Value.isTruthy_key n', hkey]
      simp only [stepOf, htruthy]
      split
      · exact hkey
      · rfl

end AccessPath

/-- An expression views the place of its receiver through some steps. -/
inductive Expr.Views (e : Expr) : List Value → Prop where
  | ref (hk : e.kind = .ref) : Views e []
  | conversion (hk : e.kind = .call) (hname : e.nameIn safeConversions = .ok true) : Views e []
  | deref (hk : e.kind = .deref) : Views e [AccessPath.derefStep]
  | field (hk : e.kind = .field) : Views e [AccessPath.stepOf e.name]
  | index (hk : e.kind = .index) : Views e [AccessPath.elementStep]
  | projection (hk : e.kind = .call) {step : Value} (hname : e.projection? = some step) : Views e [step]

/-- No method that projects is a conversion. -/
theorem Expr.nameIn_safeConversions {e : Expr} {step : Value} (h : e.projection? = some step) :
    e.nameIn safeConversions = .ok false := by
  unfold Expr.projection? at h
  split at h
  · rename_i m hm
    obtain ⟨s, hs, _⟩ := Option.map_eq_some_iff.mp h
    have hapart : ∀ q ∈ projectionMethods, q.1 ∉ safeConversions := by decide
    have hnot : m ∉ safeConversions := hapart _ (mem_of_lookup hs)
    simp only [Expr.nameIn, hm, Value.isOneOf, Value.isIn, Value.isKey, if_true, Except.ok.injEq]
    rw [← Bool.not_eq_true, List.any_eq_true]
    rintro ⟨t, ht, hsame⟩
    obtain ⟨s, hs, rfl⟩ := List.mem_map.mp ht
    have hms : Value.text m = .text s := Value.same_text_iff.mp hsame
    exact hnot (Value.text.inj hms ▸ hs)
  · cases h

/-- The name of a projection projects by itself. -/
theorem Expr.stepOf_projection {e : Expr} {step : Value} (h : e.projection? = some step) :
    AccessPath.stepOf (some step) = step := by
  unfold Expr.projection? at h
  split at h
  · obtain ⟨s, hs, rfl⟩ := Option.map_eq_some_iff.mp h
    have hnamed : ∀ q ∈ projectionMethods, (Value.text q.2).isTruthy = true := by decide
    have htruthy : (Value.text s).isTruthy = true := hnamed _ (mem_of_lookup hs)
    simp [AccessPath.stepOf, htruthy]
  · cases h

/-- An expression that stands for the place of its receiver: a dereference, a borrow or a
conversion. -/
inductive Expr.KeepsPlace (e : Expr) : Prop where
  | deref (hk : e.kind = .deref)
  | ref (hk : e.kind = .ref)
  | conversion (hk : e.kind = .call) (hname : e.nameIn safeConversions = .ok true)

/-- Two expressions that project their receivers in the same way: by fields of one name, to elements
whatever the index, by methods with one projection, or by such a method and the field that its
projection names. -/
inductive Expr.ProjectsLike (e e' : Expr) : Prop where
  | field (hk : e.kind = .field) (hk' : e'.kind = .field)
      (hname : e.name.map Value.key = e'.name.map Value.key)
  | index (hk : e.kind = .index) (hk' : e'.kind = .index)
  | method (hk : e.kind = .call) (hk' : e'.kind = .call) {step : Value}
      (hstep : e.projection? = some step) (hstep' : e'.projection? = some step)
  | methodField (hk : e.kind = .call) (hk' : e'.kind = .field) {step : Value}
      (hstep : e.projection? = some step) (hname : e'.name = some step)

private theorem Expr.KeepsPlace.views {e : Expr} (h : e.KeepsPlace) :
    ∃ steps, e.Views steps ∧ steps.filter (· != AccessPath.derefStep) = [] := by
  cases h with
  | deref hk => exact ⟨_, .deref hk, by decide⟩
  | ref hk => exact ⟨_, .ref hk, rfl⟩
  | conversion hk hname => exact ⟨_, .conversion hk hname, rfl⟩

private theorem Expr.ProjectsLike.views {e e' : Expr} (h : e.ProjectsLike e') :
    ∃ steps steps', e.Views steps ∧ e'.Views steps' ∧ steps.map Value.key = steps'.map Value.key := by
  cases h with
  | field hk hk' hname =>
    refine ⟨_, _, .field hk, .field hk', ?_⟩
    simp [AccessPath.key_stepOf hname]
  | index hk hk' => exact ⟨_, _, .index hk, .index hk', rfl⟩
  | method hk hk' hstep hstep' => exact ⟨_, _, .projection hk hstep, .projection hk' hstep', rfl⟩
  | methodField hk hk' hstep hname =>
    refine ⟨_, _, .projection hk hstep, .field hk', ?_⟩
    rw [hname, Expr.stepOf_projection hstep]

namespace Function

variable {f : Function} {e : Expr} {i r : Int}

private theorem rawPathFrom_of_views (he : f.expr i = .ok e) (hr : e.receiver = some r)
    {steps : List Value} (hv : e.Views steps) (depth : Nat) :
    f.rawPathFrom (depth + 1) i = (f.rawPathFrom depth r).map (Option.map (·.extend steps)) := by
  have hself : ∀ z : Option AccessPath, z.map (·.extend []) = z := by
    intro z
    cases z <;> simp [AccessPath.extend_nil]
  cases hv with
  | ref hk =>
    simp only [rawPathFrom, he, hk, hr, bind, Except.bind]
    cases f.rawPathFrom depth r <;> simp [Except.map, hself]
  | conversion hk hname =>
    simp only [rawPathFrom, he, hk, hr, hname, bind, Except.bind, if_true]
    cases f.rawPathFrom depth r <;> simp [Except.map, hself]
  | projection hk hname =>
    simp only [rawPathFrom, he, hk, hr, hname, Expr.nameIn_safeConversions hname, bind, Except.bind,
      Bool.false_eq_true, if_false]
    rfl
  | deref hk =>
    simp only [rawPathFrom, he, hk, hr, bind, Except.bind]
    rfl
  | field hk =>
    simp only [rawPathFrom, he, hk, hr, bind, Except.bind]
    rfl
  | index hk =>
    simp only [rawPathFrom, he, hk, hr, bind, Except.bind]
    rfl

/-- The place of an expression depends on the depth through that of its receiver only. -/
theorem rawPathFrom_congr (he : f.expr i = .ok e) {depth depth' : Nat}
    (h : ∀ r, e.receiver = some r → f.rawPathFrom depth r = f.rawPathFrom depth' r) :
    f.rawPathFrom (depth + 1) i = f.rawPathFrom (depth' + 1) i := by
  cases hr : e.receiver with
  | none => cases hk : e.kind <;> simp [rawPathFrom, he, hk, hr, bind, Except.bind]
  | some r => cases hk : e.kind <;> simp [rawPathFrom, he, hk, hr, h r hr, bind, Except.bind]

/-- Any depth beyond the position of an expression is enough to find its place. -/
theorem Valid.rawPathFrom_eq (hf : f.Valid) (hi : f.HasExpr i) {depth depth' : Nat}
    (hlt : i < depth) (hlt' : i < depth') :
    f.rawPathFrom depth i = f.rawPathFrom depth' i := by
  induction depth generalizing i depth' with
  | zero =>
    have := hi.1
    omega
  | succ depth ih =>
    cases depth' with
    | zero =>
      have := hi.1
      omega
    | succ depth' =>
      obtain ⟨e, he, hid⟩ := hf.expr_ok hi
      apply rawPathFrom_congr he
      intro r hr
      have hmem : r ∈ e.children := by simp [Expr.children, hr]
      obtain ⟨hrange, hbelow⟩ := hf.child_lt (mem_exprs_of_expr he) hmem
      apply ih hrange
      · omega
      · omega

private theorem Valid.rawPath_of_views (hf : f.Valid) (he : e ∈ f.exprs) (hr : e.receiver = some r)
    {steps : List Value} (hv : e.Views steps) :
    f.rawPath e.id = (f.rawPath r).map (Option.map (·.extend steps)) := by
  obtain ⟨hrange, hexpr⟩ := hf.expr_id he
  have hmem : r ∈ e.children := by simp [Expr.children, hr]
  obtain ⟨hreceiver, hbelow⟩ := hf.child_lt he hmem
  have hlt : r < f.exprs.length := hreceiver.2
  have hdepth : f.rawPathFrom f.exprs.length r = f.rawPath r :=
    hf.rawPathFrom_eq hreceiver hlt (by push_cast; omega)
  rw [← hdepth]
  exact rawPathFrom_of_views hexpr hr hv f.exprs.length

end Function

namespace Aliases

variable {a : Aliases} {e e' : Expr} {i j r : Int}

private theorem pathOf_of_views (hf : a.function.Valid) (he : e ∈ a.function.exprs)
    (hr : e.receiver = some r) {steps : List Value} (hv : e.Views steps) :
    a.pathOf e.id =
      (a.pathOf r).map (Option.map (·.extend (steps.filter (· != AccessPath.derefStep)))) := by
  unfold pathOf
  rw [hf.rawPath_of_views he hr hv]
  cases a.function.rawPath r with
  | error fault => rfl
  | ok z =>
    cases z with
    | none => rfl
    | some p => exact congrArg (fun q => Except.ok (some q)) (canonical_extend p steps)

private theorem sameStorage_eq_true_iff :
    a.sameStorage i j = .ok true ↔
      ∃ p q, a.pathOf i = .ok (some p) ∧ a.pathOf j = .ok (some q) ∧ p.same q = true := by
  constructor
  · intro h
    obtain ⟨z, hz, h⟩ := bind_eq_ok.mp h
    obtain ⟨w, hw, h⟩ := bind_eq_ok.mp h
    cases z with
    | none => cases pure_eq_ok.mp h
    | some p =>
      cases w with
      | none => cases pure_eq_ok.mp h
      | some q => exact ⟨p, q, hz, hw, pure_eq_ok.mp h⟩
  · rintro ⟨p, q, hp, hq, hsame⟩
    simp only [sameStorage, hp, hq, bind, Except.bind, hsame]
    rfl

/-- Expressions that view one place through equal steps stand for one place. -/
theorem sameStorage_of_views (hf : a.function.Valid) (h : a.sameStorage i j = .ok true)
    (he : e ∈ a.function.exprs) (hr : e.receiver = some i) {steps : List Value} (hv : e.Views steps)
    (he' : e' ∈ a.function.exprs) (hr' : e'.receiver = some j) {steps' : List Value}
    (hv' : e'.Views steps') (hsteps : steps.map Value.key = steps'.map Value.key) :
    a.sameStorage e.id e'.id = .ok true := by
  obtain ⟨p, q, hp, hq, hsame⟩ := sameStorage_eq_true_iff.mp h
  have hfirst := pathOf_of_views hf he hr hv
  have hsecond := pathOf_of_views hf he' hr' hv'
  rw [hp] at hfirst
  rw [hq] at hsecond
  apply sameStorage_eq_true_iff.mpr
  exact ⟨_, _, hfirst, hsecond, AccessPath.same_extend hsame (AccessPath.map_key_filter hsteps)⟩

/-- An expression that views a place through dereferences only stands for that place. -/
theorem sameStorage_self_of_views (hf : a.function.Valid) (h : a.sameStorage i j = .ok true)
    (he : e ∈ a.function.exprs) (hr : e.receiver = some i) {steps : List Value} (hv : e.Views steps)
    (hsteps : steps.filter (· != AccessPath.derefStep) = []) : a.sameStorage e.id i = .ok true := by
  obtain ⟨p, q, hp, _, _⟩ := sameStorage_eq_true_iff.mp h
  have hpath := pathOf_of_views hf he hr hv
  rw [hp, hsteps] at hpath
  apply sameStorage_eq_true_iff.mpr
  refine ⟨p.extend [], p, hpath, hp, ?_⟩
  rw [AccessPath.extend_nil]
  exact p.same_refl

/-- Canonical places are a congruence for projections, whatever the aliases are: what is behind a
place stays behind it, and the same projection of two expressions that stand for one place stands
for one place. -/
theorem canonical_congruence (a : Aliases) :
    (∀ p steps, a.canonical (p.extend steps) =
      (a.canonical p).extend (steps.filter (· != AccessPath.derefStep))) ∧
    (a.function.validate = .ok () → ∀ i j, a.sameStorage i j = .ok true →
      ∀ e ∈ a.function.exprs, e.receiver = some i →
        (e.KeepsPlace → a.sameStorage e.id i = .ok true) ∧
        ∀ e' ∈ a.function.exprs, e'.receiver = some j → e.ProjectsLike e' →
          a.sameStorage e.id e'.id = .ok true) ∧
    (a.function.validate = .ok () → ∀ e ∈ a.function.exprs, ∀ e' ∈ a.function.exprs,
      e.receiver.isSome = true → e'.receiver = e.receiver → e.kind = .call → e'.kind = .field →
      ∀ step, e.projection? = some step → e'.name = some step → a.pathOf e.id = a.pathOf e'.id) := by
  refine ⟨canonical_extend, ?_, ?_⟩
  · intro hf i j h e he hr
    have hvalid := Function.Valid.of_validate hf
    constructor
    · intro hkeeps
      obtain ⟨steps, hv, hsteps⟩ := hkeeps.views
      exact sameStorage_self_of_views hvalid h he hr hv hsteps
    · intro e' he' hr' hlike
      obtain ⟨steps, steps', hv, hv', hsteps⟩ := hlike.views
      exact sameStorage_of_views hvalid h he hr hv he' hr' hv' hsteps
  · intro hf e he e' he' hsome hr' hk hk' step hstep hname
    have hvalid := Function.Valid.of_validate hf
    obtain ⟨r, hr⟩ := Option.isSome_iff_exists.mp hsome
    have hcall := pathOf_of_views hvalid he hr (.projection hk hstep)
    have hfield := pathOf_of_views hvalid he' (hr'.trans hr) (.field hk')
    rw [hcall, hfield, hname, Expr.stepOf_projection hstep]

end Aliases

/-- A function that evaluates projections of `x` and of `&x`: the fields `owner` and `key`, the
method `key`, elements, a dereference and a conversion. -/
def Function.projecting : Function :=
  { name := "project"
    exprs := [
      { id := 0, kind := .localVar, localName := "x" },
      { id := 1, kind := .ref, receiver := some 0 },
      { id := 2, kind := .field, name := some (.text "owner"), receiver := some 0 },
      { id := 3, kind := .field, name := some (.text "owner"), receiver := some 1 },
      { id := 4, kind := .call, name := some (.text "key"), receiver := some 0 },
      { id := 5, kind := .field, name := some (.text "key"), receiver := some 1 },
      { id := 6, kind := .index, receiver := some 0, operands := [2] },
      { id := 7, kind := .index, receiver := some 1, operands := [3] },
      { id := 8, kind := .deref, receiver := some 0 },
      { id := 9, kind := .call, name := some (.text "clone"), receiver := some 0 },
      { id := 10, kind := .field, name := some (.text "key"), receiver := some 0 }] }

/-- Aliases of this function in which `x` and `y` stand for each other. -/
def Aliases.exchanged : Aliases :=
  { function := .projecting, sources := [("x", .ofLocal "y"), ("y", .ofLocal "x")] }

theorem Aliases.canonical_congruence_exchanged :
    Function.projecting.validate = .ok () ∧ exchanged.Cyclic (.text "x") ∧
      exchanged.canonical ⟨.text "x", [.text "*", .text "owner"]⟩ =
        (exchanged.canonical (.ofLocal "x")).extend [.text "owner"] ∧
      exchanged.sameStorage 0 1 = .ok true ∧ exchanged.sameStorage 2 3 = .ok true ∧
      exchanged.sameStorage 4 5 = .ok true ∧ exchanged.sameStorage 6 7 = .ok true ∧
      exchanged.sameStorage 8 0 = .ok true ∧ exchanged.sameStorage 9 0 = .ok true ∧
      exchanged.pathOf 4 = exchanged.pathOf 10 := by
  have hf : exchanged.function.validate = .ok () := rfl
  have hcyclic : exchanged.Cyclic (.text "x") := by decide +kernel
  have h : exchanged.sameStorage 0 1 = .ok true := ok_of_toOption (by decide +kernel)
  have hmem : ∀ n : Fin 11, Function.projecting.exprs.get n ∈ exchanged.function.exprs :=
    List.get_mem Function.projecting.exprs
  obtain ⟨hextend, hsame, hagree⟩ := canonical_congruence exchanged
  have howner := (hsame hf 0 1 h _ (hmem 2) rfl).2 _ (hmem 3) rfl (.field rfl rfl rfl)
  have hkey := (hsame hf 0 1 h _ (hmem 4) rfl).2 _ (hmem 5) rfl (.methodField rfl rfl rfl rfl)
  have helement := (hsame hf 0 1 h _ (hmem 6) rfl).2 _ (hmem 7) rfl (.index rfl rfl)
  have hderef := (hsame hf 0 1 h _ (hmem 8) rfl).1 (.deref rfl)
  have hclone := (hsame hf 0 1 h _ (hmem 9) rfl).1 (.conversion rfl (ok_of_toOption (by decide +kernel)))
  have hpaths := hagree hf _ (hmem 4) _ (hmem 10) rfl rfl rfl rfl _ rfl rfl
  exact ⟨hf, hcyclic, hextend (.ofLocal "x") [.text "*", .text "owner"], h, howner, hkey, helement,
    hderef, hclone, hpaths⟩

end AccountLint

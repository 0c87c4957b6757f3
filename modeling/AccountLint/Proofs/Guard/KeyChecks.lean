import AccountLint.Guard
import AccountLint.Proofs.Facts.Location
import AccountLint.Proofs.Rule.Paths
import AccountLint.Rule.Defaults

/-! What the guards on keys cover: comparisons of a place or of its key, and accesses to a field
that is declared with a constraint. -/
namespace AccountLint

/-- An expression compares another one: by an operator, as a method with a receiver, or by a call.
-/
inductive Expr.Compares (e : Expr) (i : Int) : Prop where
  | operator {op : String} (hk : e.kind = .compare) (hn : e.name = some (.text op))
      (hop : op = "==" ∨ op = "!=") (hi : i ∈ e.operands)
  | method {name : String} (hk : e.kind = .call) (hr : e.receiver.isSome)
      (hn : e.name = some (.text name)) (hname : name = "eq" ∨ name = "ne") (hi : i ∈ e.children)
  | call {name pattern : String} (hk : e.kind = .call) (hr : e.receiver = none)
      (hn : e.name = some (.text name)) (hp : pattern ∈ Paths.comparisonCalls)
      (hm : Text.nameMatches pattern name = true) (hi : i ∈ e.operands)

/-- An expression compares a place or the key of it. -/
def Facts.ComparesPlace (f : Facts) (e : Expr) (q : AccessPath) : Prop :=
  ∃ i r, e.Compares i ∧ f.pathOf (some i) = .ok (some r) ∧
    (r.same q = true ∨ r.same (q.extend [.text "key"]) = true)

/-- An expression accesses a place as a field that is declared with one of some constraints. -/
def Facts.AccessesConstrained (f : Facts) (names : List String) (e : Expr) : Prop :=
  ∃ d, f.declaredField e = .ok (some d) ∧ ∃ n ∈ names, .text n ∈ d.constraints

/-- A block is where some places are checked: it compares all of them in one expression, or it is
the entry and they are all accessed, anywhere, as a field with a constraint. -/
inductive Facts.ChecksKeys (f : Facts) (names : List String) (places : AccessPath → Prop) (b : Int) :
    Prop where
  | comparison {e : Expr} (he : e ∈ f.function.exprs) (hb : f.function.Evaluates b e.id)
      (hc : ∃ i, e.Compares i) (hp : ∀ q, places q → f.ComparesPlace e q)
  | declared {e : Expr} {c : Int} (hentry : b = f.function.entry) (he : e ∈ f.function.exprs)
      (hc : f.function.Evaluates c e.id) (hd : f.AccessesConstrained names e)
      (hp : ∀ q, places q → ∃ r, f.pathOf (some e.id) = .ok (some r) ∧ r.same q = true)

theorem FieldDecl.hasAny_eq_true_iff {d : FieldDecl} {names : List String} :
    d.hasAny names = true ↔ ∃ n ∈ names, .text n ∈ d.constraints := by
  simp only [hasAny, List.any_eq_true, Value.same_text_iff]
  constructor
  · intro h
    obtain ⟨c, hc, n, hn, rfl⟩ := h
    exact ⟨n, hn, hc⟩
  · intro h
    obtain ⟨n, hn, hc⟩ := h
    exact ⟨_, hc, n, hn, rfl⟩

theorem Guard.covers_eq_true_iff {g : Guard} {paths : List AccessPath} :
    g.covers paths = true ↔ ∀ q ∈ paths, ∃ r ∈ g.paths, r.same q = true := by
  simp only [covers, List.all_eq_true, List.any_eq_true]

namespace GuardPattern

private theorem mem_of_test {test : Except Fault Bool} {xs is : List Int} {holds : Prop} {i : Int}
    (htest : ∀ b, test = .ok b → (b = true ↔ holds))
    (h : (do if ← test then return xs else return []) = Except.ok is) :
    i ∈ is ↔ holds ∧ i ∈ xs := by
  obtain ⟨b, hb, h⟩ := bind_eq_ok.mp h
  have hiff := htest b hb
  cases b with
  | true =>
    obtain rfl := pure_eq_ok.mp h
    exact ⟨fun hi => ⟨hiff.mp rfl, hi⟩, fun hi => hi.2⟩
  | false =>
    obtain rfl := pure_eq_ok.mp h
    refine ⟨fun hi => (by cases hi), fun hi => ?_⟩
    have := hiff.mpr hi.1
    cases this

private theorem mem_compared_iff {e : Expr} {is : List Int}
    (h : Rule.keyComparison.compared e = .ok is) {i : Int} : i ∈ is ↔ e.Compares i := by
  unfold compared at h
  cases hk : e.kind
  case compare =>
    rw [hk] at h
    rw [mem_of_test (fun b hb => Expr.nameIn_eq_ok hb) h]
    constructor
    · intro hi
      obtain ⟨⟨op, hop, hn⟩, hi⟩ := hi
      exact .operator hk hn (by simpa [Rule.keyComparison] using hop) hi
    · intro hc
      cases hc with
      | operator _ hn hop hi => exact ⟨⟨_, by simpa [Rule.keyComparison] using hop, hn⟩, hi⟩
      | method hk' => simp [hk] at hk'
      | call hk' => simp [hk] at hk'
  case call =>
    rw [hk] at h
    by_cases hr : e.receiver.isSome
    · have hm : e.isMethodCall = true := by simp [Expr.isMethodCall, hk, hr]
      simp only [hm, if_true] at h
      rw [mem_of_test (fun b hb => Expr.nameIn_eq_ok hb) h]
      constructor
      · intro hi
        obtain ⟨⟨name, hin, hn⟩, hi⟩ := hi
        exact .method hk hr hn (by simpa using hin) hi
      · intro hc
        cases hc with
        | operator hk' => simp [hk] at hk'
        | method _ _ hn hin hi => exact ⟨⟨_, by simpa using hin, hn⟩, hi⟩
        | call _ hr' => simp [hr'] at hr
    · have hm : e.isMethodCall = false := by simp [Expr.isMethodCall, hr]
      simp only [hm, Bool.false_eq_true, if_false] at h
      rw [mem_of_test (fun b hb => matchesAny_eq_ok hb) h]
      constructor
      · intro hi
        obtain ⟨⟨name, hn, p, hp, hm⟩, hi⟩ := hi
        exact .call hk (by simpa using hr) hn hp hm hi
      · intro hc
        cases hc with
        | operator hk' => simp [hk] at hk'
        | method _ hr' => exact absurd hr' hr
        | call _ _ hn hp hm hi => exact ⟨⟨_, hn, _, hp, hm⟩, hi⟩
  all_goals
    rw [hk] at h
    obtain rfl := pure_eq_ok.mp h
    refine ⟨fun hi => (by cases hi), fun hc => ?_⟩
    cases hc <;> simp_all

private theorem exists_same_aboutPlace {path q : AccessPath} :
    (∃ r ∈ Rule.keyComparison.aboutPlace path, r.same q = true) ↔
      path.same q = true ∨ path.same (q.extend [.text "key"]) = true := by
  rw [AccessPath.same_extend_text_iff]
  unfold aboutPlace
  cases hl : path.last? with
  | none => simp
  | some step =>
    cases hp : path.parent? with
    | none => simp
    | some parent =>
      by_cases hs : step = .text "key"
      · simp [hs, Rule.keyComparison]
      · simp [hs, Rule.keyComparison]

private theorem exists_same_aboutOperand {f : Facts} {i : Int} {ps : List AccessPath}
    {q : AccessPath} (h : Rule.keyComparison.aboutOperand f i = .ok ps) :
    (∃ r ∈ ps, r.same q = true) ↔ ∃ r, f.pathOf (some i) = .ok (some r) ∧
      (r.same q = true ∨ r.same (q.extend [.text "key"]) = true) := by
  obtain ⟨path, hpath, h⟩ := bind_eq_ok.mp h
  rw [hpath]
  cases path with
  | none =>
    obtain rfl := pure_eq_ok.mp h
    simp
  | some path =>
    rw [AccessPath.exists_same_setOf h, exists_same_aboutPlace]
    simp

/-- A comparison is a guard of what it compares, where it is. -/
theorem comparison_eq_ok {f : Facts} {c : Category} {b : Int} {e : Expr} {g : Option Guard}
    (h : Rule.keyComparison.comparison f c (b, e) = .ok g) :
    ((∃ i, e.Compares i) ↔ g.isSome = true) ∧ ∀ g', g = some g' → g'.block = b ∧
      ∀ q, (∃ r ∈ g'.paths, r.same q = true) ↔ f.ComparesPlace e q := by
  obtain ⟨is, his, h⟩ := bind_eq_ok.mp h
  have hmem := fun i => mem_compared_iff (i := i) his
  match is with
  | [] =>
    obtain rfl := pure_eq_ok.mp h
    refine ⟨⟨fun hc => ?_, fun hg => (by cases hg)⟩, fun g' hg => (by cases hg)⟩
    obtain ⟨i, hi⟩ := hc
    have := (hmem i).mpr hi
    cases this
  | i :: is =>
    obtain ⟨ps, hps, h⟩ := bind_eq_ok.mp h
    obtain ⟨g, hg, h⟩ := bind_eq_ok.mp h
    obtain rfl := pure_eq_ok.mp h
    obtain ⟨qs, hqs, hg⟩ := bind_eq_ok.mp hg
    obtain rfl := pure_eq_ok.mp hg
    refine ⟨⟨fun _ => rfl, fun _ => ⟨i, (hmem i).mp List.mem_cons_self⟩⟩, ?_⟩
    intro g' hg'
    obtain rfl := Option.some.inj hg'
    refine ⟨rfl, ?_⟩
    intro q
    rw [AccessPath.exists_same_setOf hqs]
    constructor
    · intro hr
      obtain ⟨r, hr, hs⟩ := hr
      obtain ⟨j, hj, zs, hzs, hrz⟩ := (mem_concatM hps).mp hr
      obtain ⟨r', hr', hs'⟩ := (exists_same_aboutOperand hzs).mp ⟨r, hrz, hs⟩
      exact ⟨j, r', (hmem j).mp hj, hr', hs'⟩
    · intro hc
      obtain ⟨j, r, hj, hr, hs⟩ := hc
      obtain ⟨zs, hzs⟩ := concatM_ok_of_mem hps ((hmem j).mpr hj)
      obtain ⟨r', hr', hs'⟩ := (exists_same_aboutOperand hzs).mpr ⟨r, hr, hs⟩
      exact ⟨r', (mem_concatM hps).mpr ⟨j, (hmem j).mpr hj, zs, hzs, hr'⟩, hs'⟩

/-- An access to a field with a constraint is a guard of the field, at the entry. -/
theorem declaredConstraint_eq_ok {p : GuardPattern} {f : Facts} {c : Category} {l : Int × Expr}
    {g : Option Guard} (h : p.declaredConstraint f c l = .ok g) :
    (f.AccessesConstrained p.names l.2 ↔ g.isSome = true) ∧
      ∀ g', g = some g' → g'.block = f.function.entry ∧ ∀ q, (∃ r ∈ g'.paths, r.same q = true) ↔
        ∃ r, f.pathOf (some l.2.id) = .ok (some r) ∧ r.same q = true := by
  obtain ⟨d, hd, h⟩ := bind_eq_ok.mp h
  have haccess : f.AccessesConstrained p.names l.2 ↔ ∃ d', d = some d' ∧ d'.hasAny p.names = true := by
    unfold Facts.AccessesConstrained
    simp only [hd, Except.ok.injEq, FieldDecl.hasAny_eq_true_iff]
  rw [haccess]
  cases d with
  | none =>
    obtain rfl := pure_eq_ok.mp h
    simp
  | some d =>
    by_cases hany : d.hasAny p.names = true
    · simp only [hany, Bool.not_true, Bool.false_eq_true, if_false] at h
      obtain ⟨path, hpath, h⟩ := bind_eq_ok.mp h
      obtain ⟨g, hg, h⟩ := bind_eq_ok.mp h
      obtain rfl := pure_eq_ok.mp h
      obtain ⟨qs, hqs, hg⟩ := bind_eq_ok.mp hg
      obtain rfl := pure_eq_ok.mp hg
      refine ⟨⟨fun _ => rfl, fun _ => ⟨d, rfl, hany⟩⟩, ?_⟩
      intro g' hg'
      obtain rfl := Option.some.inj hg'
      refine ⟨rfl, ?_⟩
      intro q
      rw [AccessPath.exists_same_setOf hqs, hpath]
      simp
    · simp only [hany, Bool.not_false, if_true] at h
      obtain rfl := pure_eq_ok.mp h
      simp [hany]

end GuardPattern

/-- The guards of a rule on keys that cover some places are in the blocks that check the places. -/
theorem Rule.exists_covering_iff {r : Rule} {names : List String} {f : Facts} {guards : List Guard}
    (hr : r.guards = [keyComparison, { kind := .declaredConstraint, names := names }])
    (hloc : ∀ b e, (b, e) ∈ f.located ↔ e ∈ f.function.exprs ∧ f.function.Evaluates b e.id)
    (h : r.guardsIn f = .ok guards) {paths : List AccessPath} {b : Int} :
    (∃ g ∈ guards, g.covers paths = true ∧ g.block = b) ↔ f.ChecksKeys names (· ∈ paths) b := by
  unfold guardsIn at h
  rw [hr] at h
  have hmem := fun g => mem_concatM (y := g) h
  obtain ⟨cs, hcs⟩ := concatM_ok_of_mem h (x := keyComparison) List.mem_cons_self
  obtain ⟨ds, hds⟩ := concatM_ok_of_mem h (List.mem_cons_of_mem _ List.mem_cons_self)
  have hguards : ∀ g, g ∈ guards ↔ g ∈ cs ∨ g ∈ ds := by
    intro g
    rw [hmem g]
    simp [hcs, hds]
  constructor
  · intro hg
    obtain ⟨g, hg, hcov, rfl⟩ := hg
    rw [Guard.covers_eq_true_iff] at hcov
    rcases (hguards g).mp hg with hg | hg
    · obtain ⟨⟨b, e⟩, hl, hstep⟩ := (mem_collectM hcs).mp hg
      obtain ⟨hsome, hspec⟩ := GuardPattern.comparison_eq_ok hstep
      obtain ⟨hblock, hpaths⟩ := hspec g rfl
      obtain ⟨he, hev⟩ := (hloc b e).mp hl
      rw [hblock]
      exact .comparison he hev (hsome.mpr rfl) fun q hq => (hpaths q).mp (hcov q hq)
    · obtain ⟨⟨b, e⟩, hl, hstep⟩ := (mem_collectM hds).mp hg
      obtain ⟨hsome, hspec⟩ := GuardPattern.declaredConstraint_eq_ok hstep
      obtain ⟨hblock, hpaths⟩ := hspec g rfl
      obtain ⟨he, hev⟩ := (hloc b e).mp hl
      exact .declared hblock he hev (hsome.mpr rfl) fun q hq => (hpaths q).mp (hcov q hq)
  · intro hc
    cases hc with
    | @comparison e he hb hc hp =>
      have hl := (hloc b e).mpr ⟨he, hb⟩
      obtain ⟨g, hstep⟩ := collectM_ok_of_mem hcs hl
      obtain ⟨hsome, hspec⟩ := GuardPattern.comparison_eq_ok hstep
      obtain ⟨g, rfl⟩ := Option.isSome_iff_exists.mp (hsome.mp hc)
      obtain ⟨hblock, hpaths⟩ := hspec g rfl
      refine ⟨g, (hguards g).mpr (Or.inl ((mem_collectM hcs).mpr ⟨_, hl, hstep⟩)), ?_, hblock⟩
      exact Guard.covers_eq_true_iff.mpr fun q hq => (hpaths q).mpr (hp q hq)
    | @declared e c hentry he hc hd hp =>
      have hl := (hloc c e).mpr ⟨he, hc⟩
      obtain ⟨g, hstep⟩ := collectM_ok_of_mem hds hl
      obtain ⟨hsome, hspec⟩ := GuardPattern.declaredConstraint_eq_ok hstep
      obtain ⟨g, rfl⟩ := Option.isSome_iff_exists.mp (hsome.mp hd)
      obtain ⟨hblock, hpaths⟩ := hspec g rfl
      refine ⟨g, (hguards g).mpr (Or.inr ((mem_collectM hds).mpr ⟨_, hl, hstep⟩)), ?_, ?_⟩
      · exact Guard.covers_eq_true_iff.mpr fun q hq => (hpaths q).mpr (hp q hq)
      · rw [hblock, hentry]

end AccountLint

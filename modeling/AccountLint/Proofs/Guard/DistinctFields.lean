import AccountLint.Proofs.Alias.Chains
import AccountLint.Proofs.Guard.KeyChecks
import AccountLint.Verdict.Declarations

/-! What the declarations of distinct fields cover. An access to a field is a check of the field and
of all those that it must differ from, taken together: so two fields are covered where one is
declared to differ from the other, but also where a third field is declared to differ from both. -/
namespace AccountLint

private theorem Value.isKey_eq_of_same {a b : Value} (h : a.same b = true) : a.isKey = b.isKey := by
  have hkey : ∀ v : Value, v.key.isKey = v.isKey := by
    intro v
    cases v with
    | float x =>
      unfold Value.key
      cases x.toInt? <;> rfl
    | _ => simp [Value.key, Value.isKey]
  rw [← hkey a, ← hkey b, Value.same_iff.mp h]

private theorem Value.isIn_eq_ok {v : Value} {set : List Value} (hv : v.isKey = true) :
    v.isIn set = .ok (decide (∃ n ∈ set, n.same v = true)) := by
  unfold Value.isIn
  rw [if_pos hv]
  congr 1
  rw [Bool.eq_iff_iff, List.any_eq_true, decide_eq_true_iff]
  simp only [Value.same_iff, eq_comm (a := v.key)]

private theorem Value.exists_same_of_isIn {v : Value} {set : List Value}
    (h : v.isIn set = .ok true) :
    ∃ n ∈ set, n.same v = true := by
  by_cases hv : v.isKey = true
  · rw [Value.isIn_eq_ok hv] at h
    exact of_decide_eq_true (Except.ok.inj h)
  · rw [Value.isIn, if_neg hv] at h
    cases h

namespace AccessPath

private theorem same_extend_iff {p q : AccessPath} {m n : Value} :
    (p.extend [m]).same (q.extend [n]) = true ↔ p.same q = true ∧ m.same n = true := by
  simp only [same_iff, Value.same_iff, key, extend, Value.keyList_eq_map, mk.injEq, List.map_append,
    List.map_cons, List.map_nil]
  constructor
  · intro h
    obtain ⟨hsteps, hlast⟩ := List.append_inj' h.2 rfl
    exact ⟨⟨h.1, hsteps⟩, (List.cons.inj hlast).1⟩
  · intro h
    rw [h.1.1, h.1.2, h.2]
    exact ⟨rfl, rfl⟩

private theorem parent?_extend (p : AccessPath) (n : Value) : (p.extend [n]).parent? = some p := by
  simp [parent?, extend]

private theorem isKey_of_setOf {ps qs : List AccessPath} (h : setOf ps = .ok qs) :
    ∀ q ∈ qs, q.isKey = true := by
  intro q hq
  unfold setOf at h
  split at h
  · rename_i hall
    rw [← Except.ok.inj h] at hq
    exact List.all_eq_true.mp hall q (distinctBy_subset hq)
  · cases h

private theorem isKey_of_same_extend {p q : AccessPath} {n : Value} (h : q.isKey = true)
    (hsame : q.same (p.extend [n]) = true) : n.isKey = true := by
  have hsteps : q.projections.map Value.key = (p.projections ++ [n]).map Value.key := by
    have hkeys := congrArg AccessPath.projections (same_iff.mp hsame)
    simpa only [key, Value.keyList_eq_map, extend] using hkeys
  have hn : n.key ∈ q.projections.map Value.key := by
    rw [hsteps]
    simp
  obtain ⟨m, hm, heq⟩ := List.mem_map.mp hn
  rw [← Value.isKey_eq_of_same (Value.same_iff.mpr heq)]
  exact List.all_eq_true.mp (Bool.and_eq_true_iff.mp h).2 m hm

end AccessPath

private theorem stepOf_eq_derefStep {name : Option Name}
    (h : AccessPath.stepOf name = AccessPath.derefStep) : name = some AccessPath.derefStep := by
  unfold AccessPath.stepOf at h
  split at h
  · split at h
    · rw [h]
    · simp [AccessPath.derefStep] at h
  · simp [AccessPath.derefStep] at h

namespace FieldDecl

/-- A field is declared to differ from those with a name. -/
def Avoids (d : FieldDecl) (n : Name) : Prop := ∃ m ∈ d.distinctFrom, m.same n = true

instance (d : FieldDecl) (n : Name) : Decidable (d.Avoids n) :=
  inferInstanceAs (Decidable (∃ m ∈ d.distinctFrom, m.same n = true))

/-- A name is that of a field, or of one that the field is declared to differ from. -/
def Concerns (d : FieldDecl) (n : Name) : Prop := d.name.same n = true ∨ d.Avoids n

end FieldDecl

def Facts.ReadsField (f : Facts) (e : Expr) (owner : TypeDecl) (d : FieldDecl) : Prop :=
  e.kind = .field ∧ (∃ r receiver, e.receiver = some r ∧ f.function.expr r = .ok receiver ∧
    f.program.structBehind receiver.type = .ok (some owner)) ∧
  owner.fieldNamed? (AccessPath.stepOf e.name) = some d

/-- Some expression accesses a field of a place, as a struct declares the field. -/
def Facts.Accesses (f : Facts) (base : AccessPath) (owner : TypeDecl) (d : FieldDecl) : Prop :=
  ∃ l ∈ f.located, f.ReadsField l.2 owner d ∧
    ∃ path, f.pathOf (some l.2.id) = .ok (some path) ∧ path.same (base.extend [d.name]) = true

private theorem Facts.declaredField_eq_some_iff {f : Facts} {e : Expr} {d : FieldDecl} :
    f.declaredField e = .ok (some d) ↔ ∃ owner, f.ReadsField e owner d := by
  unfold Facts.declaredField
  constructor
  · intro h
    split at h
    · rename_i r hk hr
      obtain ⟨receiver, hreceiver, h⟩ := bind_eq_ok.mp h
      obtain ⟨owner, howner, h⟩ := bind_eq_ok.mp h
      cases owner with
      | none => cases pure_eq_ok.mp h
      | some owner => exact ⟨owner, hk, ⟨r, receiver, hr, hreceiver, howner⟩, pure_eq_ok.mp h⟩
    · cases h
  · intro h
    obtain ⟨owner, hk, ⟨r, receiver, hr, hreceiver, howner⟩, hd⟩ := h
    rw [hk, hr]
    refine bind_eq_ok.mpr ⟨receiver, hreceiver, bind_eq_ok.mpr ⟨some owner, howner, ?_⟩⟩
    exact pure_eq_ok.mpr hd

private theorem TypeDecl.same_of_fieldNamed? {t : TypeDecl} {n : Name} {d : FieldDecl}
    (h : t.fieldNamed? n = some d) : d.name.same n = true := by
  have hfound := List.find?_some h
  exact hfound

private theorem TypeDecl.fieldNamed?_congr (t : TypeDecl) {m n : Name} (h : m.same n = true) :
    t.fieldNamed? m = t.fieldNamed? n := by
  unfold TypeDecl.fieldNamed?
  congr 1
  funext d
  rw [Bool.eq_iff_iff, Value.same_iff, Value.same_iff, Value.same_iff.mp h]

private theorem Function.rawPathFrom_field {f : Function} {i r : Int} {e : Expr}
    (he : f.expr i = .ok e) (hk : e.kind = .field) (hr : e.receiver = some r) (depth : Nat) :
    f.rawPathFrom (depth + 1) i = (do
      return (← f.rawPathFrom depth r).map (·.extend [AccessPath.stepOf e.name])) := by
  simp only [rawPathFrom, he, hk, hr, bind, Except.bind]

/-- Of one struct, two fields that are accessed under one name are one. -/
theorem Facts.Accesses.eq_of_same {f : Facts} {base : AccessPath} {owner : TypeDecl}
    {b c : FieldDecl} (hb : f.Accesses base owner b) (hc : f.Accesses base owner c)
    (h : b.name.same c.name = true) :
    b = c := by
  obtain ⟨l, _, ⟨_, _, hfind⟩, _⟩ := hb
  obtain ⟨l', _, ⟨_, _, hfind'⟩, _⟩ := hc
  rw [← owner.fieldNamed?_congr (TypeDecl.same_of_fieldNamed? hfind), owner.fieldNamed?_congr h,
    owner.fieldNamed?_congr (TypeDecl.same_of_fieldNamed? hfind'), hfind'] at hfind
  exact (Option.some.inj hfind).symm

/-- The place of an access to a field is below that of its receiver. -/
theorem Facts.pathOf_field {p : Program} {fn : Function} {f : Facts} (hf : Facts.build p fn = .ok f)
    (hnames : ∀ e ∈ fn.exprs, e.kind = .field → e.name ≠ some AccessPath.derefStep)
    {l : Int × Expr} (hl : l ∈ f.located) (hk : l.2.kind = .field) {path : AccessPath}
    (h : f.pathOf (some l.2.id) = .ok (some path)) :
    ∃ parent : AccessPath, path = parent.extend [AccessPath.stepOf l.2.name] := by
  obtain ⟨hv, _, _, _, ha, _, _⟩ := Facts.build_eq_ok hf
  obtain ⟨he, _⟩ := ((Facts.located_spec hf).2 l.1 l.2).mp hl
  have hexpr := ((Function.Valid.of_validate hv).expr_id he).2
  have hstep : AccessPath.stepOf l.2.name ≠ AccessPath.derefStep := fun heq =>
    hnames _ he hk (stepOf_eq_derefStep heq)
  obtain ⟨raw, hraw, h⟩ := bind_eq_ok.mp h
  obtain ⟨raw, rfl, rfl⟩ := Option.map_eq_some_iff.mp (pure_eq_ok.mp h)
  rw [(Aliases.Tracks.of_eq_ok ha).function] at hraw
  cases hr : l.2.receiver with
  | none =>
    unfold Function.rawPath Function.rawPathFrom at hraw
    simp [hexpr, hk, hr, bind, Except.bind, pure, Except.pure] at hraw
  | some r =>
    rw [Function.rawPath, Function.rawPathFrom_field hexpr hk hr] at hraw
    obtain ⟨below, _, hraw⟩ := bind_eq_ok.mp hraw
    obtain ⟨below, _, rfl⟩ := Option.map_eq_some_iff.mp (pure_eq_ok.mp hraw)
    refine ⟨f.aliases.canonical below, ?_⟩
    rw [Aliases.canonical_extend]
    simp [hstep]

private theorem mem_sortedSet {xs ys : List Value} (h : sortedSet xs = .ok ys) {v : Value} :
    v ∈ ys ↔ v ∈ xs := by
  unfold sortedSet at h
  split at h
  · rw [← Except.ok.inj h, mem_sortBy]
  · cases h

namespace GuardPattern

variable {q : GuardPattern} {f : Facts} {c : Category} {l : Int × Expr}

/-- A guard of a field that must differ from others covers the field and the others. -/
theorem distinctConstraint_eq_some {g : Guard} (h : q.distinctConstraint f c l = .ok (some g)) :
    ∃ d path parent, f.declaredField l.2 = .ok (some d) ∧
      f.pathOf (some l.2.id) = .ok (some path) ∧ path.parent? = some parent ∧
      ∀ r, (∃ s ∈ g.paths, s.same r = true) ↔
        path.same r = true ∨ ∃ m ∈ d.distinctFrom, (parent.extend [m]).same r = true := by
  obtain ⟨d, hd, h⟩ := bind_eq_ok.mp h
  cases d with
  | none => cases pure_eq_ok.mp h
  | some d =>
    dsimp only at h
    split at h
    · cases pure_eq_ok.mp h
    · obtain ⟨path, hpath, h⟩ := bind_eq_ok.mp h
      cases path with
      | none => cases pure_eq_ok.mp h
      | some path =>
        dsimp only at h
        cases hparent : path.parent? with
        | none =>
          rw [hparent] at h
          cases pure_eq_ok.mp h
        | some parent =>
          rw [hparent] at h
          obtain ⟨names, hnames, h⟩ := bind_eq_ok.mp h
          obtain ⟨g', hg', h⟩ := bind_eq_ok.mp h
          obtain rfl := Option.some.inj (pure_eq_ok.mp h)
          obtain ⟨ps, hps, hg'⟩ := bind_eq_ok.mp hg'
          obtain rfl := pure_eq_ok.mp hg'
          refine ⟨d, path, parent, hd, hpath, hparent, fun r => ?_⟩
          rw [AccessPath.exists_same_setOf hps]
          simp [mem_sortedSet hnames]

/-- An access to a field that must differ from others is a guard. -/
theorem distinctConstraint_isSome {z : Option Guard} {d : FieldDecl} {path parent : AccessPath}
    (h : q.distinctConstraint f c l = .ok z) (hd : f.declaredField l.2 = .ok (some d))
    (hne : d.distinctFrom ≠ []) (hpath : f.pathOf (some l.2.id) = .ok (some path))
    (hparent : path.parent? = some parent) : z.isSome = true := by
  unfold distinctConstraint at h
  rw [hd] at h
  obtain ⟨d', hd', h⟩ := bind_eq_ok.mp h
  obtain rfl := Except.ok.inj hd'
  dsimp only at h
  rw [if_neg (by simpa using hne), hpath] at h
  obtain ⟨path', hpath', h⟩ := bind_eq_ok.mp h
  obtain rfl := Except.ok.inj hpath'
  dsimp only at h
  rw [hparent] at h
  obtain ⟨names, _, h⟩ := bind_eq_ok.mp h
  obtain ⟨g, _, h⟩ := bind_eq_ok.mp h
  rw [← pure_eq_ok.mp h]
  rfl

/-- The places that a guard of a field is about are those of the names that its declaration
concerns. -/
theorem same_or_avoids_iff {p : Program} {fn : Function} (hf : Facts.build p fn = .ok f)
    (hnames : ∀ e ∈ fn.exprs, e.kind = .field → e.name ≠ some AccessPath.derefStep)
    (hl : l ∈ f.located) {owner : TypeDecl} {d : FieldDecl} (hreads : f.ReadsField l.2 owner d)
    {path parent : AccessPath} (hpath : f.pathOf (some l.2.id) = .ok (some path))
    (hparent : path.parent? = some parent) (base : AccessPath) (n : Name) :
    (path.same (base.extend [n]) = true ∨
      ∃ m ∈ d.distinctFrom, (parent.extend [m]).same (base.extend [n]) = true) ↔
    path.same (base.extend [d.name]) = true ∧ d.Concerns n := by
  obtain ⟨parent', rfl⟩ := Facts.pathOf_field hf hnames hl hreads.1 hpath
  rw [AccessPath.parent?_extend] at hparent
  obtain rfl := Option.some.inj hparent
  have hname := Value.same_iff.mp (TypeDecl.same_of_fieldNamed? hreads.2.2)
  simp only [AccessPath.same_extend_iff, FieldDecl.Concerns, FieldDecl.Avoids, Value.same_iff, hname,
    and_true]
  constructor
  · intro h
    rcases h with ⟨hbase, hn⟩ | ⟨m, hm, hbase, hn⟩
    · exact ⟨hbase, Or.inl hn⟩
    · exact ⟨hbase, Or.inr ⟨m, hm, hn⟩⟩
  · intro h
    obtain ⟨hbase, hn | ⟨m, hm, hn⟩⟩ := h
    · exact Or.inl ⟨hbase, hn⟩
    · exact Or.inr ⟨m, hm, hbase, hn⟩

/-- Two fields of a place are covered if the declaration of some field of the place, which is
accessed, concerns both. -/
theorem exists_covering_fields_iff {p : Program} {fn : Function} {gs : List Guard}
    (hf : Facts.build p fn = .ok f)
    (hnames : ∀ e ∈ fn.exprs, e.kind = .field → e.name ≠ some AccessPath.derefStep)
    (h : collectM (q.distinctConstraint f c) f.located = .ok gs) {base : AccessPath} {m n : Name}
    (hmn : m.same n = false) :
    (∃ g ∈ gs, g.covers [base.extend [m], base.extend [n]] = true) ↔
      ∃ owner d, f.Accesses base owner d ∧ d.Concerns m ∧ d.Concerns n := by
  constructor
  · intro hg
    obtain ⟨g, hg, hcovers⟩ := hg
    obtain ⟨l, hl, hstep⟩ := (mem_collectM h).mp hg
    obtain ⟨d, path, parent, hd, hpath, hparent, hplaces⟩ := distinctConstraint_eq_some hstep
    obtain ⟨owner, hreads⟩ := Facts.declaredField_eq_some_iff.mp hd
    have hplace := same_or_avoids_iff hf hnames hl hreads hpath hparent base
    rw [Guard.covers_eq_true_iff] at hcovers
    have hm := (hplace m).mp ((hplaces _).mp (hcovers _ (by simp)))
    have hn := (hplace n).mp ((hplaces _).mp (hcovers _ (by simp)))
    exact ⟨owner, d, ⟨l, hl, hreads, path, hpath, hm.1⟩, hm.2, hn.2⟩
  · intro hd
    obtain ⟨owner, d, ⟨l, hl, hreads, path, hpath, hsame⟩, hm, hn⟩ := hd
    have hd := Facts.declaredField_eq_some_iff.mpr ⟨owner, hreads⟩
    obtain ⟨parent, hparent⟩ := Facts.pathOf_field hf hnames hl hreads.1 hpath
    replace hparent : path.parent? = some parent := by rw [hparent, AccessPath.parent?_extend]
    have hne : d.distinctFrom ≠ [] := by
      intro hnil
      have hnone : ∀ k, ¬d.Avoids k := fun k hk => by simp [FieldDecl.Avoids, hnil] at hk
      have hdm := Value.same_iff.mp (hm.resolve_right (hnone m))
      have hdn := Value.same_iff.mp (hn.resolve_right (hnone n))
      rw [Value.same_iff.mpr (hdm.symm.trans hdn)] at hmn
      cases hmn
    obtain ⟨z, hz⟩ := collectM_ok_of_mem h hl
    obtain ⟨g, rfl⟩ := Option.isSome_iff_exists.mp (distinctConstraint_isSome hz hd hne hpath hparent)
    obtain ⟨d', path', parent', hd', hpath', hparent', hplaces⟩ := distinctConstraint_eq_some hz
    obtain rfl := Option.some.inj (Except.ok.inj (hd'.symm.trans hd))
    obtain rfl := Option.some.inj (Except.ok.inj (hpath'.symm.trans hpath))
    have hplace := same_or_avoids_iff hf hnames hl hreads hpath hparent' base
    refine ⟨g, (mem_collectM h).mpr ⟨l, hl, hz⟩, Guard.covers_eq_true_iff.mpr fun r hr => ?_⟩
    rcases List.mem_cons.mp hr with rfl | hr
    · exact (hplaces _).mpr ((hplace m).mpr ⟨hsame, hm⟩)
    · rw [List.mem_singleton.mp hr]
      exact (hplaces _).mpr ((hplace n).mpr ⟨hsame, hn⟩)

/-- A guard is of the kind of its pattern, and no place that it is about has a list in it. -/
def Makes (q : GuardPattern) (g : Guard) : Prop := g.kind = q.kind ∧ ∀ p ∈ g.paths, p.isKey = true

private theorem guard_makes (q : GuardPattern) (c : Category) (b : Int) (paths : List AccessPath)
    (location : Location) : Yields (fun _ => True) q.Makes (q.guard c b paths location) := by
  unfold guard
  cases hps : AccessPath.setOf paths with
  | error e => trivial
  | ok ps => exact ⟨rfl, AccessPath.isKey_of_setOf hps⟩

def MayFind (q : GuardPattern) (x : Except Fault (Option Guard)) : Prop :=
  Yields (fun _ => True) (fun z => ∀ g, z = some g → q.Makes g) x

private theorem mayFind_none (q : GuardPattern) : q.MayFind (pure none) := fun g hg => (by cases hg)

private theorem mayFind_guard (q : GuardPattern) (c : Category) (b : Int) (paths : List AccessPath)
    (location : Location) : q.MayFind (do return some (← q.guard c b paths location)) := by
  refine (q.guard_makes c b paths location).bind fun g hg => ?_
  intro g' hg'
  rwa [← Option.some.inj hg']

private theorem fieldRead_makes (q : GuardPattern) (f : Facts) (c : Category) (l : Int × Expr) :
    q.MayFind (q.fieldRead f c l) := by
  unfold fieldRead
  dsimp only
  split
  · exact q.mayFind_none
  · refine (Yields.safe_any _).bind fun named _ => ?_
    split
    · exact q.mayFind_none
    · exact (Yields.safe_any _).bind fun path _ => q.mayFind_guard ..

private theorem comparison_makes (q : GuardPattern) (f : Facts) (c : Category) (l : Int × Expr) :
    q.MayFind (q.comparison f c l) := by
  refine (Yields.safe_any _).bind fun operands _ => ?_
  split
  · exact q.mayFind_none
  · exact (Yields.safe_any _).bind fun paths _ => q.mayFind_guard ..

private theorem signerMarker_makes (q : GuardPattern) (f : Facts) (c : Category) (param : Param) :
    Yields (fun _ => True) (fun gs => ∀ g ∈ gs, q.Makes g) (q.signerMarker f c param) := by
  refine (Yields.safe_any _).bind fun t _ => (Yields.safe_any _).bind fun signs _ => ?_
  split
  · refine (q.guard_makes ..).bind fun g hg => ?_
    intro g' hg'
    rwa [List.mem_singleton.mp hg']
  · refine (Yields.safe_any _).bind fun accounts _ => ?_
    split
    · exact fun g hg => (by cases hg)
    · refine Yields.collectM fun d _ => (Yields.safe_any _).bind fun signs _ => ?_
      split
      · exact q.mayFind_guard ..
      · exact q.mayFind_none

private theorem declaredConstraint_makes (q : GuardPattern) (f : Facts) (c : Category)
    (l : Int × Expr) :
    q.MayFind (q.declaredConstraint f c l) := by
  refine (Yields.safe_any _).bind fun d _ => ?_
  split
  · exact q.mayFind_none
  · split
    · exact q.mayFind_none
    · exact (Yields.safe_any _).bind fun path _ => q.mayFind_guard ..

private theorem distinctConstraint_makes (q : GuardPattern) (f : Facts) (c : Category)
    (l : Int × Expr) :
    q.MayFind (q.distinctConstraint f c l) := by
  refine (Yields.safe_any _).bind fun d _ => ?_
  split
  · exact q.mayFind_none
  · split
    · exact q.mayFind_none
    · refine (Yields.safe_any _).bind fun path _ => ?_
      split
      · exact q.mayFind_none
      · split
        · exact q.mayFind_none
        · exact (Yields.safe_any _).bind fun names _ => q.mayFind_guard ..

private theorem clearingStore_makes (q : GuardPattern) (f : Facts) (loops : List Int) (c : Category)
    (root : Int × Stmt) : q.MayFind (q.clearingStore f loops c root) := by
  unfold clearingStore
  dsimp only
  split
  · split
    · exact q.mayFind_none
    · refine (Yields.safe_any _).bind fun zero _ => ?_
      split
      · exact q.mayFind_none
      · refine (Yields.safe_any _).bind fun path _ => (Yields.safe_any _).bind fun account _ => ?_
        split
        · exact q.mayFind_none
        · exact q.mayFind_guard ..
  · exact q.mayFind_none

private theorem clearingCall_makes (q : GuardPattern) (f : Facts) (c : Category) (l : Int × Expr) :
    q.MayFind (q.clearingCall f c l) := by
  unfold clearingCall
  dsimp only
  split
  · exact q.mayFind_none
  · refine (Yields.safe_any _).bind fun named _ => ?_
    split
    · exact q.mayFind_none
    · refine (Yields.safe_any _).bind fun path _ => (Yields.safe_any _).bind fun account _ => ?_
      split
      · exact q.mayFind_none
      · exact q.mayFind_guard ..

private theorem guards_makes (q : GuardPattern) (f : Facts) (c : Category) :
    Yields (fun _ => True) (fun gs => ∀ g ∈ gs, q.Makes g) (q.guards f c) := by
  unfold guards
  split
  · exact Yields.collectM fun l _ => q.fieldRead_makes f c l
  · exact Yields.collectM fun l _ => q.comparison_makes f c l
  · exact Yields.concatM fun param _ => q.signerMarker_makes f c param
  · exact Yields.collectM fun l _ => q.declaredConstraint_makes f c l
  · exact Yields.collectM fun l _ => q.distinctConstraint_makes f c l
  · refine (Yields.collectM fun root _ => q.clearingStore_makes f _ c root).bind fun gs hgs => ?_
    refine (Yields.collectM fun l _ => q.clearingCall_makes f c l).bind fun gs' hgs' => ?_
    intro g hg
    rcases List.mem_append.mp hg with hg | hg
    · exact hgs g hg
    · exact hgs' g hg

end GuardPattern

namespace Rule

/-- Two fields whose declarations are accepted: one is declared to differ from the other. -/
theorem avoids_of_areDistinct {b c : FieldDecl} (h : areDistinct b c = .ok true) :
    b.Avoids c.name ∨ c.Avoids b.name := by
  obtain ⟨first, hfirst, h⟩ := bind_eq_ok.mp h
  cases first with
  | true => exact Or.inl (Value.exists_same_of_isIn hfirst)
  | false => exact Or.inr (Value.exists_same_of_isIn h)

private theorem areDistinct_of_avoids {b c : FieldDecl} (hb : b.name.isKey = true)
    (hc : c.name.isKey = true) (h : b.Avoids c.name ∨ c.Avoids b.name) :
    areDistinct b c = .ok true := by
  unfold areDistinct
  rw [Value.isIn_eq_ok hb, Value.isIn_eq_ok hc]
  by_cases hbc : b.Avoids c.name
  · exact if_pos (decide_eq_true hbc)
  · have hcb := h.resolve_left hbc
    refine (if_neg fun hd => hbc (of_decide_eq_true hd)).trans ?_
    exact congrArg Except.ok (decide_eq_true hcb)

/-- The guards of a rule that are of the kind of distinct fields, and cover two fields of a place.
-/
theorem exists_distinctConstraint_iff {r : Rule} {p : Program} {fn : Function} {f : Facts}
    {gs : List Guard} (hf : Facts.build p fn = .ok f) (hg : r.guardsIn f = .ok gs)
    (hr : ∃ q ∈ r.guards, q.kind = .distinctConstraint)
    (hnames : ∀ e ∈ fn.exprs, e.kind = .field → e.name ≠ some AccessPath.derefStep)
    (base : AccessPath) {m n : Name} (hmn : m.same n = false) :
    (∃ g ∈ gs, g.kind = .distinctConstraint ∧
        g.covers [base.extend [m], base.extend [n]] = true) ↔
      ∃ owner d, f.Accesses base owner d ∧ d.Concerns m ∧ d.Concerns n := by
  constructor
  · intro h
    obtain ⟨g, hmem, hkind, hcovers⟩ := h
    obtain ⟨q, hq, gs', hgs', hmem'⟩ := (mem_concatM hg).mp hmem
    have hmakes := q.guards_makes f r.category
    rw [hgs'] at hmakes
    have hqkind : q.kind = .distinctConstraint := (hmakes g hmem').1.symm.trans hkind
    simp only [GuardPattern.guards, hqkind] at hgs'
    exact (GuardPattern.exists_covering_fields_iff hf hnames hgs' hmn).mp ⟨g, hmem', hcovers⟩
  · intro h
    obtain ⟨q, hq, hqkind⟩ := hr
    obtain ⟨gs', hgs'⟩ := concatM_ok_of_mem hg hq
    have hmakes := q.guards_makes f r.category
    rw [hgs'] at hmakes
    have hcollect := hgs'
    simp only [GuardPattern.guards, hqkind] at hcollect
    obtain ⟨g, hmem, hcovers⟩ :=
      (GuardPattern.exists_covering_fields_iff hf hnames hcollect hmn).mpr h
    refine ⟨g, (mem_concatM hg).mpr ⟨q, hq, gs', hgs', hmem⟩, ?_, hcovers⟩
    exact (hmakes g hmem).1.trans hqkind

private theorem isKey_of_covers {r : Rule} {f : Facts} {gs : List Guard}
    (hg : r.guardsIn f = .ok gs) {g : Guard} (hmem : g ∈ gs) (base : AccessPath) (n : Name)
    {paths : List AccessPath} (hcovers : g.covers paths = true) (hn : base.extend [n] ∈ paths) :
    n.isKey = true := by
  obtain ⟨q, _, gs', hgs', hmem'⟩ := (mem_concatM hg).mp hmem
  have hmakes := q.guards_makes f r.category
  rw [hgs'] at hmakes
  obtain ⟨s, hs, hsame⟩ := Guard.covers_eq_true_iff.mp hcovers _ hn
  exact AccessPath.isKey_of_same_extend ((hmakes g hmem').2 s hs) hsame

/-- Two fields of a place are covered by a guard of distinct fields if the declaration of a field of
the place, which is accessed, concerns both. Where all fields of the place are accessed as those of
one struct, they are covered just if their declarations are accepted as distinct, or a third field
is declared to differ from both. -/
theorem distinctFields_covered_iff {r : Rule} {p : Program} {fn : Function} {f : Facts}
    {gs : List Guard} (hf : Facts.build p fn = .ok f) (hg : r.guardsIn f = .ok gs)
    (hr : ∃ q ∈ r.guards, q.kind = .distinctConstraint)
    (hnames : ∀ e ∈ fn.exprs, e.kind = .field → e.name ≠ some AccessPath.derefStep)
    {base : AccessPath} {owner : TypeDecl} {b c : FieldDecl} (hb : f.Accesses base owner b)
    (hc : f.Accesses base owner c) (hbc : b ≠ c) :
    ((∃ g ∈ gs, g.kind = .distinctConstraint ∧
        g.covers [base.extend [b.name], base.extend [c.name]] = true) ↔
      ∃ owner' d, f.Accesses base owner' d ∧ d.Concerns b.name ∧ d.Concerns c.name) ∧
    ((∀ owner' d, f.Accesses base owner' d → owner' = owner) →
      ((∃ g ∈ gs, g.kind = .distinctConstraint ∧
          g.covers [base.extend [b.name], base.extend [c.name]] = true) ↔
        areDistinct b c = .ok true ∨
          ∃ d, f.Accesses base owner d ∧ d.Avoids b.name ∧ d.Avoids c.name)) := by
  have hdiffer : b.name.same c.name = false := by
    by_contra hsame
    exact hbc (hb.eq_of_same hc (by simpa using hsame))
  have hiff := exists_distinctConstraint_iff hf hg hr hnames base hdiffer
  refine ⟨hiff, fun hone => ⟨fun hcovered => ?_, fun h => hiff.mpr ?_⟩⟩
  · obtain ⟨owner', d, hd, hdb, hdc⟩ := hiff.mp hcovered
    obtain ⟨g, hmem, _, hcovers⟩ := hcovered
    obtain rfl := hone owner' d hd
    have hbkey := isKey_of_covers hg hmem base b.name hcovers (by simp)
    have hckey := isKey_of_covers hg hmem base c.name hcovers (by simp)
    -- the field whose declaration concerns both is one of the two, or a third
    rcases hdb with hdb | hdb
    · obtain rfl := hd.eq_of_same hb hdb
      rcases hdc with hdc | hdc
      · rw [hdc] at hdiffer
        cases hdiffer
      · exact Or.inl (areDistinct_of_avoids hbkey hckey (Or.inl hdc))
    · rcases hdc with hdc | hdc
      · obtain rfl := hd.eq_of_same hc hdc
        exact Or.inl (areDistinct_of_avoids hbkey hckey (Or.inr hdb))
      · exact Or.inr ⟨d, hd, hdb, hdc⟩
  · rcases h with hdistinct | ⟨d, hd, hdb, hdc⟩
    · rcases avoids_of_areDistinct hdistinct with hav | hav
      · exact ⟨owner, b, hb, Or.inl (Value.same_iff.mpr rfl), Or.inr hav⟩
      · exact ⟨owner, c, hc, Or.inr hav, Or.inl (Value.same_iff.mpr rfl)⟩
    · exact ⟨owner, d, hd, Or.inr hdb, Or.inr hdc⟩

end Rule

/-- A struct with a field that must differ from two others, which may be equal. -/
def TypeDecl.rivals : TypeDecl :=
  { id := 0
    path := .text "Rivals"
    kind := .struct
    fields := [
      { name := .text "a", distinctFrom := [.text "b", .text "c"] },
      { name := .text "b" },
      { name := .text "c" }] }

/-- A function that reads all fields of a parameter, the last one through another variable. -/
def Function.readingRivals : Function :=
  { name := "read"
    params := [{ name := .text "rivals", type := some (.index 0) }]
    exprs := [
      { id := 0, kind := .localVar, localName := "rivals", type := some (.index 0) },
      { id := 1, kind := .field, name := some (.text "a"), receiver := some 0 },
      { id := 2, kind := .field, name := some (.text "b"), receiver := some 0 },
      { id := 3, kind := .localVar, localName := "same", type := some (.index 0) },
      { id := 4, kind := .field, name := some (.text "c"), receiver := some 3 }]
    blocks := [
      { id := 0
        stmts := [
          { kind := .assign, target := some (.expr 3), value := 0 },
          { kind := .eval, value := 1 },
          { kind := .eval, value := 2 },
          { kind := .eval, value := 4 }] }] }

/-- The function accesses all fields of its parameter, as those of the struct only. -/
theorem Facts.accesses_readingRivals {f : Facts}
    (h : Facts.build { types := [.rivals] } .readingRivals = .ok f) :
    (∀ d ∈ TypeDecl.rivals.fields, f.Accesses (.ofLocal "rivals") .rivals d) ∧
      ∀ owner d, f.Accesses (.ofLocal "rivals") owner d → owner = .rivals := by
  have hvalue : (Facts.build { types := [.rivals] } .readingRivals).toOption.map (fun f =>
      (f.located, [1, 2, 4].map fun i => (f.pathOf (some i)).toOption.join)) =
      some (Function.readingRivals.exprs.map (fun e => (0, e)),
        [some ⟨.text "rivals", [.text "a"]⟩, some ⟨.text "rivals", [.text "b"]⟩,
          some ⟨.text "rivals", [.text "c"]⟩]) := by
    decide +kernel
  have hstruct : Program.structBehind { types := [.rivals] } (some (.index 0)) =
      .ok (some .rivals) := ok_of_toOption (by decide +kernel)
  obtain ⟨_, _, _, _, _, hp, hfn⟩ := Facts.build_eq_ok h
  rw [h] at hvalue
  obtain ⟨hlocated, hpaths⟩ := Prod.mk.inj (Option.some.inj hvalue)
  simp only [List.map_cons, List.map_nil, List.cons.injEq, and_true, Option.join_eq_some_iff] at hpaths
  obtain ⟨ha, hb, hc⟩ := hpaths
  have htypes : ∀ e ∈ Function.readingRivals.exprs, e.kind = .field →
      (e.receiver.bind fun r => (Function.readingRivals.expr r).toOption.map (·.type)) =
        some (some (.index 0)) := by
    decide
  constructor
  · have haccess : ∀ e ∈ Function.readingRivals.exprs, ∀ d, e.kind = .field →
        TypeDecl.rivals.fieldNamed? (AccessPath.stepOf e.name) = some d →
        (f.pathOf (some e.id)).toOption = some (some ⟨.text "rivals", [d.name]⟩) →
        f.Accesses (.ofLocal "rivals") .rivals d := by
      intro e he d hk hd hpath
      obtain ⟨r, hr, hreceiver⟩ := Option.bind_eq_some_iff.mp (htypes e he hk)
      obtain ⟨receiver, hreceiver, htype⟩ := Option.map_eq_some_iff.mp hreceiver
      refine ⟨(0, e), ?_, ⟨hk, ⟨r, receiver, hr, ?_, ?_⟩, hd⟩, _, ok_of_toOption hpath, ?_⟩
      · rw [hlocated]
        exact List.mem_map.mpr ⟨e, he, rfl⟩
      · rw [hfn, ok_of_toOption hreceiver]
      · rw [hp, htype, hstruct]
      · exact AccessPath.same_refl _
    intro d hd
    simp only [TypeDecl.rivals, List.mem_cons, List.not_mem_nil, or_false] at hd
    rcases hd with rfl | rfl | rfl
    · exact haccess (Function.readingRivals.exprs.get ⟨1, by decide⟩) (by decide) _ rfl rfl ha
    · exact haccess (Function.readingRivals.exprs.get ⟨2, by decide⟩) (by decide) _ rfl rfl hb
    · exact haccess (Function.readingRivals.exprs.get ⟨4, by decide⟩) (by decide) _ rfl rfl hc
  · intro owner d hd
    obtain ⟨l, hl, ⟨hk, ⟨r, receiver, hr, hreceiver, howner⟩, _⟩, _⟩ := hd
    rw [hlocated] at hl
    obtain ⟨e, he, rfl⟩ := List.mem_map.mp hl
    have hfound := htypes e he hk
    rw [hr, Option.bind_some, ← hfn, hreceiver] at hfound
    have htype : receiver.type = some (.index 0) := Option.some.inj hfound
    rw [hp, htype, hstruct] at howner
    exact (Option.some.inj (Except.ok.inj howner)).symm

/-- The rule finds the guard of all three fields. -/
theorem Rule.guardsIn_readingRivals :
    ∃ f gs, Facts.build { types := [.rivals] } .readingRivals = .ok f ∧
      duplicateMutableAccounts.guardsIn f = .ok gs ∧ ∃ g ∈ gs, g.kind = .distinctConstraint ∧
        g.covers [⟨.text "rivals", [.text "b"]⟩, ⟨.text "rivals", [.text "c"]⟩] = true := by
  have hvalue : (Facts.build { types := [.rivals] } .readingRivals).toOption.bind (fun f =>
      (duplicateMutableAccounts.guardsIn f).toOption.map fun gs => gs.any fun g =>
        decide (g.kind = .distinctConstraint ∧
          g.covers [⟨.text "rivals", [.text "b"]⟩, ⟨.text "rivals", [.text "c"]⟩] = true)) =
      some true := by
    decide +kernel
  obtain ⟨f, hf, hvalue⟩ := Option.bind_eq_some_iff.mp hvalue
  obtain ⟨gs, hgs, hany⟩ := Option.map_eq_some_iff.mp hvalue
  obtain ⟨g, hg, hcovers⟩ := List.any_eq_true.mp hany
  exact ⟨f, gs, ok_of_toOption hf, ok_of_toOption hgs, g, hg, of_decide_eq_true hcovers⟩

theorem Rule.distinctFields_covered_iff_rivals :
    ∃ f gs b c, Facts.build { types := [.rivals] } .readingRivals = .ok f ∧
      duplicateMutableAccounts.guardsIn f = .ok gs ∧ b ≠ c ∧
      f.Accesses (.ofLocal "rivals") .rivals b ∧ f.Accesses (.ofLocal "rivals") .rivals c ∧
      (∀ owner d, f.Accesses (.ofLocal "rivals") owner d → owner = .rivals) ∧
      areDistinct b c ≠ .ok true ∧
      ∃ d, f.Accesses (.ofLocal "rivals") .rivals d ∧ d.Avoids b.name ∧ d.Avoids c.name := by
  obtain ⟨f, gs, hf, hgs, hcovered⟩ := guardsIn_readingRivals
  obtain ⟨haccess, hone⟩ := Facts.accesses_readingRivals hf
  have hb := haccess { name := .text "b" } (by decide)
  have hc := haccess { name := .text "c" } (by decide)
  have hdistinct : areDistinct { name := .text "b" } { name := .text "c" } ≠ .ok true := by
    intro h
    cases Except.ok.inj h
  have hiff := (distinctFields_covered_iff hf hgs ⟨{ kind := .distinctConstraint }, by decide, rfl⟩
    (by decide) hb hc (by decide)).2 hone
  exact ⟨f, gs, _, _, hf, hgs, by decide, hb, hc, hone, hdistinct,
    (hiff.mp hcovered).resolve_left hdistinct⟩

/-- A guard covers two fields, neither of which is declared to differ from the other. -/
theorem Rule.distinctFields_covered_rivals :
    ∃ f gs b c, Facts.build { types := [.rivals] } .readingRivals = .ok f ∧
      duplicateMutableAccounts.guardsIn f = .ok gs ∧
      f.Accesses (.ofLocal "rivals") .rivals b ∧ f.Accesses (.ofLocal "rivals") .rivals c ∧
      (∃ g ∈ gs, g.kind = .distinctConstraint ∧
        g.covers [⟨.text "rivals", [b.name]⟩, ⟨.text "rivals", [c.name]⟩] = true) ∧
      areDistinct b c = .ok false ∧ ¬b.Avoids c.name ∧ ¬c.Avoids b.name := by
  obtain ⟨f, gs, hf, hgs, hcovered⟩ := guardsIn_readingRivals
  obtain ⟨haccess, _⟩ := Facts.accesses_readingRivals hf
  exact ⟨f, gs, { name := .text "b" }, { name := .text "c" }, hf, hgs, haccess _ (by decide),
    haccess _ (by decide), hcovered, rfl, by decide, by decide⟩

end AccountLint

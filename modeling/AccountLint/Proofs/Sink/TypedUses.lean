import AccountLint.Proofs.Alias.Places
import AccountLint.Proofs.Facts.Location
import AccountLint.Proofs.Sink.Exemption
import AccountLint.Proofs.Sink.Operands
import AccountLint.Proofs.Total.Run
import AccountLint.Rule.Defaults

/-! Uses of values of a type as sinks. Only the first use of a place counts, and only afterwards are
the exempt ones left out: whether a place is reported depends on its first use alone. -/
namespace AccountLint

/-- The sink for a use, with the place that is used as its only one. -/
structure Sink.Marks (s : Sink) (l : Int × Expr) (place : Option AccessPath) : Prop where
  block : s.block = l.1
  expr : s.expr = some l.2.id
  location : s.location = l.2.location
  paths : s.paths = place.toList

namespace SinkPattern

variable {p : SinkPattern} {f : Facts} {c : Category} {e : Expr} {l : Int × Expr}

/-- A type, if there is one, is one that a pattern is about. -/
def Aims (p : SinkPattern) (type : Except Fault (Option TypeDecl)) : Prop :=
  ∃ t s, type = .ok (some t) ∧ t.path = .text s ∧ ∃ target ∈ p.targets, Text.nameMatches target s = true

/-- An expression uses a value of a type that a pattern is about. It does not merely name, borrow or
dereference it, nor convert one such value into another. -/
structure Uses (p : SinkPattern) (f : Facts) (e : Expr) : Prop where
  kind : e.kind ≠ .localVar ∧ e.kind ≠ .ref ∧ e.kind ≠ .deref
  type : p.Aims (f.program.type? e.type)
  conversion : e.isMethodCall = true → (∃ s ∈ safeConversions, e.name = some (.text s)) →
    ¬p.Aims (f.typeOf e.receiver)

/-- A use in a function, and the place that is used, if it has one. -/
structure UsedAt (p : SinkPattern) (f : Facts) (l : Int × Expr) (place : Option AccessPath) : Prop where
  located : l ∈ f.located
  uses : p.Uses f l.2
  path : f.pathOf (some l.2.id) = .ok place

/-- A use with no other use of the same place before it. -/
structure FirstUse (p : SinkPattern) (f : Facts) (l : Int × Expr) (place : Option AccessPath) : Prop
    extends p.UsedAt f l place where
  first : ∀ q, place = some q → ∀ l' q', p.UsedAt f l' (some q') → q'.same q = true → l.2.id ≤ l'.2.id

/-- A search for a use finds the sink that marks it, or nothing if there is no use. -/
inductive Finds (p : SinkPattern) (f : Facts) (l : Int × Expr) : Option Sink → Prop where
  | nothing (h : ¬p.Uses f l.2) : Finds p f l none
  | use {s : Sink} {place : Option AccessPath} (huses : p.Uses f l.2)
      (hpath : f.pathOf (some l.2.id) = .ok place) (hmarks : s.Marks l place) : Finds p f l (some s)

private theorem isConversion_eq_ok {b : Bool} (h : p.isConversion f e = .ok b) :
    b = true ↔ e.isMethodCall = true ∧ (∃ s ∈ safeConversions, e.name = some (.text s)) ∧
      p.Aims (f.typeOf e.receiver) := by
  unfold isConversion at h
  split at h
  · rename_i hm
    obtain rfl := pure_eq_ok.mp h
    simp_all
  · rename_i hm
    obtain ⟨named, hn, h⟩ := bind_eq_ok.mp h
    have hnamed := Expr.nameIn_eq_ok hn
    cases named with
    | false =>
      obtain rfl := pure_eq_ok.mp h
      simp [← hnamed]
    | true =>
      obtain ⟨t, ht, h⟩ := bind_eq_ok.mp h
      have haims : b = true ↔ p.Aims (f.typeOf e.receiver) := by
        unfold Aims
        rw [ht]
        cases t with
        | none =>
          obtain rfl := pure_eq_ok.mp h
          simp
        | some t =>
          rw [matchesAny_eq_ok h]
          simp
      rw [haims, ← hnamed]
      simp_all

private theorem useSink_finds {z : Option Sink} (h : p.useSink f c l = .ok z) : Finds p f l z := by
  obtain ⟨b, e⟩ := l
  unfold useSink at h
  simp only at h
  split at h
  · rename_i hk
    obtain rfl := pure_eq_ok.mp h
    refine .nothing fun hu => ?_
    have := hu.kind
    simp_all
  · rename_i hk
    obtain ⟨aimed, ha, h⟩ := bind_eq_ok.mp h
    have haims := aims_eq_ok ha
    cases aimed with
    | false =>
      obtain rfl := pure_eq_ok.mp h
      exact .nothing fun hu => Bool.noConfusion (haims.mpr hu.type)
    | true =>
      obtain ⟨converts, hc, h⟩ := bind_eq_ok.mp h
      have hconv := isConversion_eq_ok hc
      cases converts with
      | true =>
        obtain rfl := pure_eq_ok.mp h
        obtain ⟨hm, hn, hr⟩ := hconv.mp rfl
        exact .nothing fun hu => hu.conversion hm hn hr
      | false =>
        obtain ⟨path, hpath, h⟩ := bind_eq_ok.mp h
        obtain ⟨paths, hpaths, h⟩ := bind_eq_ok.mp h
        obtain ⟨text, _, h⟩ := bind_eq_ok.mp h
        obtain rfl := pure_eq_ok.mp h
        have huses : p.Uses f e := by
          constructor
          · simpa [not_or, and_assoc] using hk
          · exact haims.mp rfl
          · intro hm hn hr
            exact Bool.noConfusion (hconv.mpr ⟨hm, hn, hr⟩)
        exact .use huses hpath ⟨rfl, rfl, rfl, AccessPath.setOf_toList hpaths⟩

section Firsts

variable {seen : List AccessPath} {xs : List (Except Fault (Option Sink))} {s : Sink}

private theorem error_mem_firstUses {fault : Fault} (h : .error fault ∈ xs) :
    .error fault ∈ firstUses seen xs := by
  fun_induction firstUses seen xs with
  | case1 => exact h
  | case2 seen s rest _ ih =>
    rcases List.mem_cons.mp h with heq | h
    · cases heq
    · exact ih h
  | case3 seen s rest _ ih =>
    rcases List.mem_cons.mp h with heq | h
    · cases heq
    · exact List.mem_cons_of_mem _ (ih h)
  | case4 seen other rest _ ih =>
    rcases List.mem_cons.mp h with heq | h
    · rw [heq]
      exact List.mem_cons_self
    · exact List.mem_cons_of_mem _ (ih h)

/-- One of some places is a place of a sink. -/
def Overlaps (places : List AccessPath) (s : Sink) : Prop :=
  ∃ q ∈ places, ∃ q' ∈ s.paths, q.same q' = true

private theorem any_seen_iff :
    (s.paths.any fun q' => seen.any (·.same q')) = true ↔ Overlaps seen s := by
  unfold Overlaps
  simp only [List.any_eq_true]
  constructor
  · intro h
    obtain ⟨q', hq', q, hq, hsame⟩ := h
    exact ⟨q, hq, q', hq', hsame⟩
  · intro h
    obtain ⟨q, hq, q', hq', hsame⟩ := h
    exact ⟨q', hq', q, hq, hsame⟩

private theorem overlaps_append {ps qs : List AccessPath} :
    Overlaps (ps ++ qs) s ↔ Overlaps ps s ∨ Overlaps qs s := by
  unfold Overlaps
  simp only [List.mem_append, or_and_right, exists_or]

/-- A sink is among some candidates, and none before it is at a place of it. -/
def FirstIn (xs : List (Except Fault (Option Sink))) (s : Sink) : Prop :=
  ∃ before after, xs = before ++ .ok (some s) :: after ∧
    ∀ s', .ok (some s') ∈ before → ¬Overlaps s'.paths s

private theorem FirstIn.cons {x : Except Fault (Option Sink)} (h : FirstIn xs s)
    (hx : ∀ s', x = .ok (some s') → ¬Overlaps s'.paths s) : FirstIn (x :: xs) s := by
  obtain ⟨before, after, rfl, hbefore⟩ := h
  refine ⟨x :: before, after, rfl, ?_⟩
  intro s' hs'
  rcases List.mem_cons.mp hs' with heq | hs'
  · exact hx s' heq.symm
  · exact hbefore s' hs'

/-- A sink is kept if none of its places was seen before, be it at an earlier sink or at the start.
-/
theorem mem_firstUses_of_firstIn (hseen : ¬Overlaps seen s) (h : FirstIn xs s) :
    .ok (some s) ∈ firstUses seen xs := by
  obtain ⟨before, after, rfl, hbefore⟩ := h
  induction before generalizing seen with
  | nil =>
    rw [List.nil_append, firstUses, if_neg fun h => hseen (any_seen_iff.mp h)]
    exact List.mem_cons_self
  | cons x before ih =>
    have hrest : ∀ s', .ok (some s') ∈ before → ¬Overlaps s'.paths s := fun s' hs' =>
      hbefore s' (List.mem_cons_of_mem _ hs')
    rw [List.cons_append]
    cases x with
    | error fault => exact List.mem_cons_of_mem _ (ih hseen hrest)
    | ok z =>
      cases z with
      | none => exact List.mem_cons_of_mem _ (ih hseen hrest)
      | some s' =>
        rw [firstUses]
        split
        · exact ih hseen hrest
        · apply List.mem_cons_of_mem
          refine ih (fun h => ?_) hrest
          rcases overlaps_append.mp h with h | h
          · exact hbefore s' List.mem_cons_self h
          · exact hseen h

/-- Where the sinks have one place each, none of the places of a sink that is kept was seen before.
An earlier sink that was dropped has its place from one before it, and then that would be seen
again. -/
theorem firstIn_of_mem_firstUses
    (hone : ∀ s', .ok (some s') ∈ xs → ∀ q ∈ s'.paths, ∀ q' ∈ s'.paths, q = q')
    (h : .ok (some s) ∈ firstUses seen xs) : ¬Overlaps seen s ∧ FirstIn xs s := by
  fun_induction firstUses seen xs with
  | case1 => cases h
  | case2 seen s' rest hs' ih =>
    obtain ⟨hseen, hfirst⟩ := ih (fun t ht => hone t (List.mem_cons_of_mem _ ht)) h
    refine ⟨hseen, hfirst.cons ?_⟩
    intro t ht hoverlap
    cases ht
    obtain ⟨q, hq, q', hq', hsame⟩ := hoverlap
    -- the sink was dropped for a place seen before, which is its only one
    obtain ⟨r, hr, r', hr', hdropped⟩ := any_seen_iff.mp hs'
    rw [hone s' List.mem_cons_self r' hr' q hq] at hdropped
    exact hseen ⟨r, hr, q', hq', AccessPath.same_trans hdropped hsame⟩
  | case3 seen s' rest hs' ih =>
    rcases List.mem_cons.mp h with heq | h
    · cases heq
      exact ⟨fun ho => hs' (any_seen_iff.mpr ho), [], rest, rfl, fun t ht => (by cases ht)⟩
    · obtain ⟨hseen, hfirst⟩ := ih (fun t ht => hone t (List.mem_cons_of_mem _ ht)) h
      rw [overlaps_append, not_or] at hseen
      refine ⟨hseen.2, hfirst.cons ?_⟩
      intro t ht
      cases ht
      exact hseen.1
  | case4 seen other rest hother ih =>
    rcases List.mem_cons.mp h with heq | h
    · exact absurd heq.symm (hother s)
    · obtain ⟨hseen, hfirst⟩ := ih (fun t ht => hone t (List.mem_cons_of_mem _ ht)) h
      exact ⟨hseen, hfirst.cons fun t ht => absurd ht (hother t)⟩

end Firsts

private theorem UsedAt.exists_sink {place : Option AccessPath} (h : p.UsedAt f l place)
    (hok : ∃ z, p.useSink f c l = .ok z) : ∃ s, p.useSink f c l = .ok (some s) ∧ s.Marks l place := by
  obtain ⟨z, hz⟩ := hok
  cases useSink_finds hz with
  | nothing hnot => exact absurd h.uses hnot
  | use _ hpath hmarks =>
    obtain rfl := Except.ok.inj (hpath.symm.trans h.path)
    exact ⟨_, hz, hmarks⟩

private theorem usedAt_of_sink {s : Sink} (hl : l ∈ f.located)
    (h : p.useSink f c l = .ok (some s)) :
    ∃ place, p.UsedAt f l place ∧ s.Marks l place := by
  cases useSink_finds h with
  | use huses hpath hmarks => exact ⟨_, ⟨hl, huses, hpath⟩, hmarks⟩

/-- In increasing order, what stands before an expression are those with lower ids. -/
theorem mem_before_iff {located before after : List (Int × Expr)} {l' : Int × Expr}
    (hsorted : located.Pairwise fun k l => k.2.id < l.2.id) (heq : located = before ++ l :: after)
    (hl' : l' ∈ located) : l' ∈ before ↔ l'.2.id < l.2.id := by
  rw [heq] at hl' hsorted
  obtain ⟨_, hrest, hcross⟩ := List.pairwise_append.mp hsorted
  constructor
  · intro hin
    exact hcross l' hin l List.mem_cons_self
  · intro hlt
    rcases List.mem_append.mp hl' with hin | hin
    · exact hin
    · rcases List.mem_cons.mp hin with rfl | hin
      · exact absurd hlt (lt_irrefl _)
      · exact absurd hlt ((List.pairwise_cons.mp hrest).1 l' hin).asymm

section Sorted

variable (hsorted : f.located.Pairwise fun k l => k.2.id < l.2.id)

include hsorted

private theorem UsedAt.exists_first {q : AccessPath} (h : p.UsedAt f l (some q)) :
    ∃ first q', p.FirstUse f first (some q') ∧ q'.same q = true := by
  classical
  let atPlace (k : Int × Expr) : Prop := ∃ q', p.UsedAt f k (some q') ∧ q'.same q = true
  have hfind : (f.located.find? fun k => decide (atPlace k)).isSome = true :=
    List.find?_isSome.mpr ⟨l, h.located, decide_eq_true ⟨q, h, AccessPath.same_refl q⟩⟩
  obtain ⟨first, hfirst⟩ := Option.isSome_iff_exists.mp hfind
  obtain ⟨hat, before, after, heq, hbefore⟩ := List.find?_eq_some_iff_append.mp hfirst
  obtain ⟨q', hused, hsame⟩ := of_decide_eq_true hat
  refine ⟨first, q', ⟨hused, ?_⟩, hsame⟩
  intro r hr l' r' hl' hsame'
  obtain rfl := Option.some.inj hr
  by_contra hlt
  have hin := (mem_before_iff hsorted heq hl'.located).mpr (not_le.mp hlt)
  have hnot : ¬atPlace l' := by simpa using hbefore l' hin
  exact hnot ⟨r', hl', AccessPath.same_trans hsame' hsame⟩

/-- The first uses are those whose sinks are not left out as repeated ones. -/
theorem mem_firstUses_iff (hall : ∀ l ∈ f.located, ∃ z, p.useSink f c l = .ok z) {s : Sink} :
    .ok (some s) ∈ firstUses [] (f.located.map (p.useSink f c)) ↔
      ∃ l place, p.FirstUse f l place ∧ p.useSink f c l = .ok (some s) := by
  constructor
  · intro h
    have hone : ∀ s', .ok (some s') ∈ f.located.map (p.useSink f c) →
        ∀ q ∈ s'.paths, ∀ q' ∈ s'.paths, q = q' := by
      intro s' hs'
      obtain ⟨l, hl, hsink⟩ := List.mem_map.mp hs'
      obtain ⟨place, _, hmarks⟩ := usedAt_of_sink hl hsink
      rw [hmarks.paths]
      cases place <;> simp
    obtain ⟨_, _, _, heq, hapart⟩ := firstIn_of_mem_firstUses hone h
    obtain ⟨before, _, hlocated, rfl, hrest⟩ := List.map_eq_append_iff.mp heq
    obtain ⟨l, after, rfl, hsink, rfl⟩ := List.map_eq_cons_iff.mp hrest
    have hl : l ∈ f.located := by
      rw [hlocated]
      exact List.mem_append_right _ List.mem_cons_self
    obtain ⟨place, hused, hmarks⟩ := usedAt_of_sink hl hsink
    refine ⟨l, place, ⟨hused, ?_⟩, hsink⟩
    intro q hq l' q' hused' hsame
    by_contra hlt
    have hin := (mem_before_iff hsorted hlocated hused'.located).mpr (not_le.mp hlt)
    obtain ⟨s', hsink', hmarks'⟩ := hused'.exists_sink (hall l' hused'.located)
    apply hapart s' (List.mem_map.mpr ⟨l', hin, hsink'⟩)
    exact ⟨q', by simp [hmarks'.paths], q, by simp [hmarks.paths, hq], hsame⟩
  · intro h
    obtain ⟨l, place, hfirst, hsink⟩ := h
    obtain ⟨before, after, hlocated⟩ := List.append_of_mem hfirst.located
    obtain ⟨_, hsink', hmarks⟩ := hfirst.toUsedAt.exists_sink ⟨_, hsink⟩
    obtain rfl := Option.some.inj (Except.ok.inj (hsink.symm.trans hsink'))
    apply mem_firstUses_of_firstIn
    · intro hoverlap
      obtain ⟨_, hq, _⟩ := hoverlap
      cases hq
    · refine ⟨before.map (p.useSink f c), after.map (p.useSink f c), ?_, ?_⟩
      · rw [hlocated, List.map_append, List.map_cons, hsink]
      intro s' hs' hoverlap
      obtain ⟨l', hin, hsink'⟩ := List.mem_map.mp hs'
      have hl' : l' ∈ f.located := by
        rw [hlocated]
        exact List.mem_append_left _ hin
      obtain ⟨place', hused', hmarks'⟩ := usedAt_of_sink hl' hsink'
      obtain ⟨q', hq', q, hq, hsame⟩ := hoverlap
      rw [hmarks.paths, Option.mem_toList] at hq
      rw [hmarks'.paths, Option.mem_toList] at hq'
      have hle := hfirst.first q hq l' q' (hq' ▸ hused') hsame
      have hlt := (mem_before_iff hsorted hlocated hl').mp hin
      omega

end Sorted

private theorem FirstUse.id_eq {l' : Int × Expr} {q q' : AccessPath} (h : p.FirstUse f l (some q))
    (h' : p.FirstUse f l' (some q')) (hsame : q.same q' = true) : l.2.id = l'.2.id := by
  have hle := h'.first q' rfl l q h.toUsedAt hsame
  have hge := h.first q rfl l' q' h'.toUsedAt (AccessPath.same_symm hsame)
  omega

end SinkPattern

namespace Rule

variable {r : Rule} {p : SinkPattern} {f : Facts} {sinks : List Sink}

section Collected

variable (hkind : p.kind = .typedUse)
  (h : collectM (r.keep? f) (p.candidates f r.category) = .ok sinks)

include hkind h

/-- Faults in the search for uses are never left out, so that none of them goes unnoticed. -/
theorem useSink_ok_of_collected {l : Int × Expr} (hl : l ∈ f.located) :
    ∃ z, p.useSink f r.category l = .ok z := by
  cases hz : p.useSink f r.category l with
  | ok z => exact ⟨z, rfl⟩
  | error fault =>
    have hcandidate : .error fault ∈ p.candidates f r.category := by
      unfold SinkPattern.candidates
      rw [hkind]
      exact SinkPattern.error_mem_firstUses (List.mem_map.mpr ⟨l, hl, hz⟩)
    obtain ⟨_, hkeep⟩ := collectM_ok_of_mem h hcandidate
    cases hkeep

/-- The sinks of the uses of a type are those of the first uses that are not exempt. -/
theorem mem_typedUses_iff (hsorted : f.located.Pairwise fun k l => k.2.id < l.2.id) {s : Sink} :
    s ∈ sinks ↔ ∃ l place, p.FirstUse f l place ∧ p.useSink f r.category l = .ok (some s) ∧
      ¬r.Exempts f l.2.id := by
  have hfirst : .ok (some s) ∈ p.candidates f r.category ↔
      ∃ l place, p.FirstUse f l place ∧ p.useSink f r.category l = .ok (some s) := by
    unfold SinkPattern.candidates
    rw [hkind]
    exact SinkPattern.mem_firstUses_iff hsorted fun l hl => useSink_ok_of_collected hkind h hl
  have hexpr : ∀ l place, p.FirstUse f l place → p.useSink f r.category l = .ok (some s) →
      s.expr = some l.2.id := by
    intro l place hl hsink
    obtain ⟨_, _, hmarks⟩ := SinkPattern.usedAt_of_sink hl.located hsink
    exact hmarks.expr
  rw [mem_collectM h]
  constructor
  · intro hs
    obtain ⟨candidate, hc, hkeep⟩ := hs
    rcases keep?_eq_ok hkeep with ⟨_, hz⟩ | ⟨s', hs', ⟨_, _, _, hz⟩ | ⟨hexempt, hz⟩⟩
    · cases hz
    · cases hz
    · obtain rfl := Option.some.inj hz
      rw [hs'] at hc
      obtain ⟨l, place, hl, hsink⟩ := hfirst.mp hc
      refine ⟨l, place, hl, hsink, fun hex => ?_⟩
      exact Bool.noConfusion ((exemptsExpr_eq_ok (hexempt _ (hexpr l place hl hsink))).mpr hex)
  · intro hs
    obtain ⟨l, place, hl, hsink, hnot⟩ := hs
    have hc := hfirst.mpr ⟨l, place, hl, hsink⟩
    refine ⟨_, hc, ?_⟩
    obtain ⟨z, hkeep⟩ := collectM_ok_of_mem h hc
    rw [hkeep]
    rcases keep?_eq_ok hkeep with ⟨hz, _⟩ | ⟨s', hs', ⟨i, hi, hex, _⟩ | ⟨_, hz⟩⟩
    · cases hz
    · obtain rfl := Option.some.inj (Except.ok.inj hs')
      rw [hexpr l place hl hsink] at hi
      obtain rfl := Option.some.inj hi
      exact absurd ((exemptsExpr_eq_ok hex).mp rfl) hnot
    · obtain rfl := Option.some.inj (Except.ok.inj hs')
      rw [hz]

end Collected

private theorem exists_sinksIn {program : Program} {function : Function}
    (hfacts : Facts.build program function = .ok f) (hwell : program.WellFormed)
    (hmem : function ∈ program.functions) (hargument : ∀ q ∈ r.sinks, 0 ≤ q.argument) :
    ∃ sinks, r.sinksIn f = .ok sinks := by
  have hyields := sinksIn_yields hargument (hwell.facts_fit hmem hfacts)
  obtain ⟨sinks, hsinks, _⟩ := Yields.ok_iff.mp hyields
  exact ⟨sinks, hsinks⟩

private theorem exemptsFunction_eq_false
    (hexempt : ∀ x ∈ r.exemptions, x.kind = .wrapperConversion) :
    r.exemptsFunction f = .ok false := by
  unfold exemptsFunction
  generalize r.exemptions = exemptions at hexempt ⊢
  induction exemptions with
  | nil => rfl
  | cons x rest ih =>
    rw [anyM, hexempt x List.mem_cons_self]
    exact ih fun y hy => hexempt y (List.mem_cons_of_mem _ hy)

section Sinks

variable (hsorted : f.located.Pairwise fun k l => k.2.id < l.2.id)
  (hexempt : ∀ x ∈ r.exemptions, x.kind = .wrapperConversion) (hp : p ∈ r.sinks)
  (hkind : p.kind = .typedUse) (h : r.sinksIn f = .ok sinks)

include hexempt h in
private theorem sinksIn_eq_concatM :
    concatM (fun q => collectM (r.keep? f) (q.candidates f r.category)) r.sinks = .ok sinks := by
  unfold sinksIn at h
  rw [exemptsFunction_eq_false hexempt] at h
  exact h

include hexempt hp h in
private theorem collected_of_sinksIn :
    ∃ zs, collectM (r.keep? f) (p.candidates f r.category) = .ok zs ∧ ∀ s ∈ zs, s ∈ sinks := by
  have hconcat := sinksIn_eq_concatM hexempt h
  obtain ⟨zs, hzs⟩ := concatM_ok_of_mem hconcat hp
  refine ⟨zs, hzs, ?_⟩
  intro s hs
  exact (mem_concatM hconcat).mpr ⟨p, hp, zs, hzs, hs⟩

include hsorted hexempt hp hkind h in
/-- A first use that is not exempt is a sink. -/
theorem exists_sink_of_firstUse {l : Int × Expr} {place : Option AccessPath}
    (hl : p.FirstUse f l place) (hnot : ¬r.Exempts f l.2.id) : ∃ s ∈ sinks, s.Marks l place := by
  obtain ⟨zs, hzs, hsub⟩ := collected_of_sinksIn hexempt hp h
  obtain ⟨s, hsink, hmarks⟩ :=
    hl.toUsedAt.exists_sink (useSink_ok_of_collected hkind hzs hl.located)
  have hs := (mem_typedUses_iff hkind hzs hsorted).mpr ⟨l, place, hl, hsink, hnot⟩
  exact ⟨s, hsub s hs, hmarks⟩

include hsorted hexempt hkind h in
/-- If uses of a type are all that a rule is about, its sinks are first uses that are not exempt. -/
theorem firstUse_of_mem_sinksIn (honly : r.sinks = [p]) {s : Sink} (hs : s ∈ sinks) :
    ∃ l place, p.FirstUse f l place ∧ s.Marks l place ∧ ¬r.Exempts f l.2.id := by
  have hconcat := sinksIn_eq_concatM hexempt h
  obtain ⟨q, hq, zs, hzs, hs⟩ := (mem_concatM hconcat).mp hs
  rw [honly, List.mem_singleton] at hq
  rw [hq] at hzs
  obtain ⟨l, place, hl, hsink, hnot⟩ := (mem_typedUses_iff hkind hzs hsorted).mp hs
  obtain ⟨s', hsink', hmarks⟩ := hl.toUsedAt.exists_sink ⟨_, hsink⟩
  obtain rfl := Option.some.inj (Except.ok.inj (hsink.symm.trans hsink'))
  exact ⟨l, place, hl, hmarks, hnot⟩

include hsorted hexempt hkind h in
/-- If the first use of a place is exempt, and uses are all that the rule is about, the place goes
without a sink. -/
theorem not_same_of_first_exempt (honly : r.sinks = [p]) {first : Int × Expr} {q : AccessPath}
    (hfirst : p.FirstUse f first (some q)) (hex : r.Exempts f first.2.id) {s : Sink} (hs : s ∈ sinks)
    {q' : AccessPath} (hq' : q' ∈ s.paths) : ¬q'.same q = true := by
  intro hsame
  obtain ⟨l, place, hl, hmarks, hnot⟩ := firstUse_of_mem_sinksIn hsorted hexempt hkind h honly hs
  rw [hmarks.paths, Option.mem_toList] at hq'
  rw [hq'] at hl
  rw [hl.id_eq hfirst hsame] at hnot
  exact hnot hex

end Sinks

/-- For a use that is not exempt there is a sink of its own if it has no place. If it has one, the
first use of that place decides: there is a sink at the place if that use is not exempt either, and
none from this pattern if it is. -/
theorem sinksIn_first_uses {program : Program} {function : Function} {facts : Facts}
    (hfacts : Facts.build program function = .ok facts)
    (hexempt : ∀ x ∈ r.exemptions, x.kind = .wrapperConversion) (hp : p ∈ r.sinks)
    (hkind : p.kind = .typedUse) :
    (program.WellFormed → function ∈ program.functions → (∀ q ∈ r.sinks, 0 ≤ q.argument) →
      ∃ sinks, r.sinksIn facts = .ok sinks) ∧
    ∀ sinks, r.sinksIn facts = .ok sinks → ∀ l ∈ facts.located, p.Uses facts l.2 →
      ¬r.Exempts facts l.2.id →
      (facts.pathOf (some l.2.id) = .ok none ∧ ∃ s ∈ sinks, s.Marks l none) ∨
      ∃ q, facts.pathOf (some l.2.id) = .ok (some q) ∧
        ∃ first q', p.FirstUse facts first (some q') ∧ q'.same q = true ∧
          (¬r.Exempts facts first.2.id → ∃ s ∈ sinks, s.Marks first (some q')) ∧
          (r.Exempts facts first.2.id → r.sinks = [p] →
            ∀ s ∈ sinks, ∀ q'' ∈ s.paths, q''.same q = false) := by
  refine ⟨exists_sinksIn hfacts, ?_⟩
  intro sinks hsinks l hl huses hnot
  have hsorted := Facts.located_sorted hfacts
  obtain ⟨zs, hzs, _⟩ := collected_of_sinksIn hexempt hp hsinks
  obtain ⟨z, hz⟩ := useSink_ok_of_collected hkind hzs hl
  cases SinkPattern.useSink_finds hz with
  | nothing hno => exact absurd huses hno
  | @use _ place _ hpath _ =>
    have hused : p.UsedAt facts l place := ⟨hl, huses, hpath⟩
    cases place with
    | none =>
      have hfirst : p.FirstUse facts l none := ⟨hused, fun q hq => (by cases hq)⟩
      exact Or.inl ⟨hpath, exists_sink_of_firstUse hsorted hexempt hp hkind hsinks hfirst hnot⟩
    | some q =>
      obtain ⟨first, q', hfirst, hsame⟩ := hused.exists_first hsorted
      refine Or.inr ⟨q, hpath, first, q', hfirst, hsame, ?_, ?_⟩
      · exact exists_sink_of_firstUse hsorted hexempt hp hkind hsinks hfirst
      · intro hex honly s hs q'' hq''
        have hapart :=
          not_same_of_first_exempt hsorted hexempt hkind hsinks honly hfirst hex hs hq''
        rw [Bool.eq_false_iff]
        intro hsame'
        exact hapart (AccessPath.same_trans hsame' (AccessPath.same_symm hsame))

end Rule

/-- A function that uses the account of a vault twice. The second time it goes through a variable
that was something else at first, so that the vault vouches for the first use only. -/
def Function.aliasedVault : Function :=
  { name := "inspect"
    params := [{ name := .text "vault", type := some (.index 1) }]
    exprs := [
      { id := 0, kind := .localVar, localName := "authority" },
      { id := 1, kind := .field, name := some (.text "info"), receiver := some 0
        type := some (.index 0) },
      { id := 2, kind := .localVar, localName := "vault", type := some (.index 1) },
      { id := 3, kind := .call, name := some (.text "to_account_info"), receiver := some 2
        type := some (.index 0) },
      { id := 4, kind := .localVar, localName := "info" },
      { id := 5, kind := .call, name := some (.text "load") },
      { id := 6, kind := .localVar, localName := "info" },
      { id := 7, kind := .localVar, localName := "vault", type := some (.index 1) },
      { id := 8, kind := .localVar, localName := "info" },
      { id := 9, kind := .call, name := some (.text "to_account_info"), receiver := some 8
        type := some (.index 0) },
      { id := 10, kind := .call, name := some (.text "fetch"), type := some (.index 0) }]
    blocks := [
      { id := 0, stmts := [
          { kind := .eval, value := 1 }, { kind := .eval, value := 3 },
          { kind := .assign, target := some (.expr 4), value := 5 },
          { kind := .assign, target := some (.expr 6), value := 7 },
          { kind := .eval, value := 9 }, { kind := .eval, value := 10 }] }] }

def Program.aliasedVault : Program :=
  { types := [{ id := 0, path := .text Paths.accountInfo }, { id := 1, path := .text Paths.account }]
    functions := [.aliasedVault] }

def Facts.aliasedVault : Facts :=
  { program := .aliasedVault
    function := .aliasedVault
    aliases := { function := .aliasedVault, sources := [("info", .ofLocal "vault")]
                 definitions := [("info", 5)] }
    located := Function.aliasedVault.exprs.map fun e => (0, e) }

private theorem Facts.build_aliasedVault :
    Facts.build .aliasedVault .aliasedVault = .ok .aliasedVault :=
  build_of_parts rfl (by decide +kernel) (by decide +kernel)

private theorem Program.wellFormed_aliasedVault : Program.aliasedVault.WellFormed := by
  have hin : ∀ i : Int, 0 ≤ i → i < 2 → Program.aliasedVault.InTable (some (.index i)) := by
    intro i h0 hlt t ht
    exact ⟨i, (Option.some.inj ht).symm, h0, hlt⟩
  have htypes : ∀ e ∈ Function.aliasedVault.exprs,
      e.type = none ∨ e.type = some (.index 0) ∨ e.type = some (.index 1) := by decide
  constructor
  case typeId =>
    intro i t h
    match i with
    | 0 | 1 =>
      rw [← Option.some.inj h]
      rfl
    | i + 2 => cases h
  case paramType =>
    simpa [Program.aliasedVault, Function.aliasedVault] using hin 1 (by decide) (by decide)
  case exprType =>
    intro f hf e he
    obtain rfl := List.mem_singleton.mp hf
    rcases htypes e he with ht | ht | ht
    · rw [ht]
      exact fun t h => (by cases h)
    · rw [ht]
      exact hin 0 (by decide) (by decide)
    · rw [ht]
      exact hin 1 (by decide) (by decide)
  all_goals simp [Program.aliasedVault, Function.aliasedVault]

def SinkPattern.accountUse : SinkPattern := { kind := .typedUse, targets := [Paths.accountInfo] }

/-- The uses in `Function.aliasedVault`: those of the field, of the vault and of what is fetched. -/
theorem SinkPattern.usedAt_aliasedVault {i : Int} {place : Option AccessPath}
    (h : (i, place) ∈ [((1 : Int), some (AccessPath.mk (.text "authority") [.text "info"])),
      (3, some (.ofLocal "vault")), (9, some (.ofLocal "vault")), (10, none)]) :
    ∃ l, l.2.id = i ∧ accountUse.UsedAt .aliasedVault l place := by
  -- evaluated once for all expressions
  have hfound : Facts.aliasedVault.located.filterMap (fun l => do
      let _ ← (accountUse.useSink .aliasedVault .missingOwnerCheck l).toOption.join
      return (l.2.id, ← (Facts.aliasedVault.pathOf (some l.2.id)).toOption)) =
      [(1, some ⟨.text "authority", [.text "info"]⟩), (3, some (.ofLocal "vault")),
        (9, some (.ofLocal "vault")), (10, none)] := by
    decide +kernel
  rw [← hfound] at h
  obtain ⟨l, hl, hstep⟩ := List.mem_filterMap.mp h
  obtain ⟨s, hs, hstep⟩ := Option.bind_eq_some_iff.mp hstep
  obtain ⟨place', hplace, hstep⟩ := Option.bind_eq_some_iff.mp hstep
  cases hstep
  obtain ⟨place', hused, _⟩ := usedAt_of_sink hl (ok_of_toOption (Option.join_eq_some_iff.mp hs))
  obtain rfl := Except.ok.inj (hused.path.symm.trans (ok_of_toOption hplace))
  exact ⟨l, rfl, hused⟩

namespace Rule

private theorem exempts_aliasedVault_iff {i : Int} (hi : i ∈ [1, 3, 9, 10]) :
    missingOwnerCheck.Exempts .aliasedVault i ↔ i = 3 := by
  have hall : ∀ i ∈ ([1, 3, 9, 10] : List Int),
      (missingOwnerCheck.exemptsExpr .aliasedVault i).toOption = some (decide (i = 3)) := by
    decide +kernel
  rw [← exemptsExpr_eq_ok (ok_of_toOption (hall i hi))]
  exact decide_eq_true_iff

theorem sinksIn_first_uses_aliasedVault :
    Program.aliasedVault.WellFormed ∧ ∃ facts, Facts.build .aliasedVault .aliasedVault = .ok facts ∧
      ∃ sinks, missingOwnerCheck.sinksIn facts = .ok sinks ∧
        (∃ s ∈ sinks, s.expr = some 10 ∧ s.paths = []) ∧
        (∃ s ∈ sinks, s.expr = some 1 ∧ s.paths = [⟨.text "authority", [.text "info"]⟩]) ∧
        ∀ s ∈ sinks, ∀ q ∈ s.paths, q.same (.ofLocal "vault") = false := by
  let UsedAt (i : Int) (place : Option AccessPath) : Prop :=
    ∃ l, l.2.id = i ∧ SinkPattern.accountUse.UsedAt .aliasedVault l place
  have hauthority : UsedAt 1 (some ⟨.text "authority", [.text "info"]⟩) :=
    SinkPattern.usedAt_aliasedVault (by simp)
  have hvault : UsedAt 3 (some (.ofLocal "vault")) := SinkPattern.usedAt_aliasedVault (by simp)
  have hagain : UsedAt 9 (some (.ofLocal "vault")) := SinkPattern.usedAt_aliasedVault (by simp)
  have hfetched : UsedAt 10 none := SinkPattern.usedAt_aliasedVault (by simp)
  have hnot : ∀ i ∈ ([1, 9, 10] : List Int), ¬missingOwnerCheck.Exempts .aliasedVault i := by
    intro i hi hex
    have hmem : i ∈ ([1, 3, 9, 10] : List Int) := by
      simp only [List.mem_cons, List.not_mem_nil, or_false] at hi ⊢
      omega
    rw [(exempts_aliasedVault_iff hmem).mp hex] at hi
    exact absurd hi (by decide)
  have hlow : ∀ l place, SinkPattern.accountUse.UsedAt .aliasedVault l place → l.2.id ≤ 3 →
      l.2.id = 1 ∨ l.2.id = 3 := by
    have hids : ∀ l ∈ Facts.aliasedVault.located, l.2.id ≤ 3 →
        l.2.kind = .localVar ∨ l.2.id = 1 ∨ l.2.id = 3 := by decide
    intro l place hl hle
    exact (hids l hl.located hle).resolve_left hl.uses.kind.1
  obtain ⟨hok, huses⟩ := sinksIn_first_uses (p := SinkPattern.accountUse) (r := missingOwnerCheck)
    Facts.build_aliasedVault (by simp [missingOwnerCheck]) List.mem_cons_self rfl
  obtain ⟨sinks, hsinks⟩ := hok Program.wellFormed_aliasedVault List.mem_cons_self
    (by simp [missingOwnerCheck])
  refine ⟨Program.wellFormed_aliasedVault, _, Facts.build_aliasedVault, sinks, hsinks, ?_, ?_, ?_⟩
  · obtain ⟨l, hid, hl⟩ := hfetched
    rcases huses sinks hsinks l hl.located hl.uses (hid ▸ hnot 10 (by decide)) with
      ⟨_, s, hs, hmarks⟩ | ⟨q, hq, _⟩
    · exact ⟨s, hs, hid ▸ hmarks.expr, hmarks.paths⟩
    · cases hl.path.symm.trans hq
  · obtain ⟨l, hid, hl⟩ := hauthority
    rcases huses sinks hsinks l hl.located hl.uses (hid ▸ hnot 1 (by decide)) with
      ⟨hq, _⟩ | ⟨q, hq, first, q', hfirst, hsame, hkept, _⟩
    · cases hl.path.symm.trans hq
    · cases hl.path.symm.trans hq
      have hle := hfirst.first q' rfl l _ hl (AccessPath.same_symm hsame)
      have hone : first.2.id = l.2.id := by
        rcases hlow first _ hfirst.toUsedAt (by omega) with h | h <;> omega
      have hpath := hfirst.path
      rw [hone, hl.path] at hpath
      cases hpath
      rw [hone, hid] at hkept
      obtain ⟨s, hs, hmarks⟩ := hkept (hnot 1 (by decide))
      exact ⟨s, hs, by rw [hmarks.expr, hone, hid], hmarks.paths⟩
  · obtain ⟨l, hid, hl⟩ := hagain
    rcases huses sinks hsinks l hl.located hl.uses (hid ▸ hnot 9 (by decide)) with
      ⟨hq, _⟩ | ⟨q, hq, first, q', hfirst, hsame, _, hlost⟩
    · cases hl.path.symm.trans hq
    · cases hl.path.symm.trans hq
      -- the first use of the vault is the one that it vouches for
      obtain ⟨k, hk, hused⟩ := hvault
      have hle := hfirst.first q' rfl k _ hused (AccessPath.same_symm hsame)
      rcases hlow first _ hfirst.toUsedAt (by omega) with h | h
      · obtain ⟨k', hk', hother⟩ := hauthority
        have hpath := hfirst.path
        rw [h, ← hk', hother.path] at hpath
        cases hpath
        exact absurd hsame (by decide)
      · exact hlost ((exempts_aliasedVault_iff (by simp [h])).mpr h) rfl

/-- A use that is not exempt goes without a sink, because the first use of its place is exempt. -/
theorem sinksIn_loses_use :
    ∃ facts, Facts.build .aliasedVault .aliasedVault = .ok facts ∧ ∃ l ∈ facts.located,
      SinkPattern.accountUse.Uses facts l.2 ∧ ¬missingOwnerCheck.Exempts facts l.2.id ∧
      facts.pathOf (some l.2.id) = .ok (some (.ofLocal "vault")) ∧
      ∃ sinks, missingOwnerCheck.sinksIn facts = .ok sinks ∧
        ∀ s ∈ sinks, ∀ q ∈ s.paths, q.same (.ofLocal "vault") = false := by
  have hused : ∃ l, l.2.id = 9 ∧
      SinkPattern.accountUse.UsedAt .aliasedVault l (some (.ofLocal "vault")) :=
    SinkPattern.usedAt_aliasedVault (by simp)
  have hplaces : (missingOwnerCheck.sinksIn .aliasedVault).toOption.map (·.flatMap (·.paths)) =
      some [⟨.text "authority", [.text "info"]⟩] := by decide +kernel
  obtain ⟨l, hid, hl⟩ := hused
  obtain ⟨sinks, hsinks, hpaths⟩ := Option.map_eq_some_iff.mp hplaces
  refine ⟨_, Facts.build_aliasedVault, l, hl.located, hl.uses, ?_, hl.path, sinks,
    ok_of_toOption hsinks, ?_⟩
  · intro hex
    rw [hid, exempts_aliasedVault_iff (by decide)] at hex
    cases hex
  · intro s hs q hq
    have hmem : q ∈ sinks.flatMap (·.paths) := List.mem_flatMap.mpr ⟨s, hs, hq⟩
    rw [hpaths] at hmem
    obtain rfl := List.mem_singleton.mp hmem
    decide

end Rule
end AccountLint

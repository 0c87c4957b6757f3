import AccountLint.Proofs.Facts.Location
import AccountLint.Proofs.Sink.Operands
import AccountLint.Proofs.Total.Run

/-! Pairs of mutable borrows. Of the borrows of one place with one argument of their types the first
one counts, and any two of these with the same argument are a pair, once. -/
namespace AccountLint

/-- Sorting references to types only moves them around. -/
theorem TypeRef.sorted_perm {ts us : List TypeRef} (h : TypeRef.sorted ts = .ok us) :
    us.Perm ts := by
  obtain ⟨keys, hkeys, h⟩ := bind_eq_ok.mp h
  obtain rfl := pure_eq_ok.mp h
  unfold sortedSet at hkeys
  split at hkeys
  · rw [← Except.ok.inj hkeys]
    refine ((sortBy_perm _ _).map _).trans (.of_eq ?_)
    rw [List.map_map]
    refine (List.map_congr_left fun t _ => ?_).trans (List.map_id ts)
    cases t <;> rfl
  · cases hkeys

namespace SinkPattern

variable {p : SinkPattern} {f : Facts} {c : Category}

/-- A mutable borrow of a value of a type that a pattern is about. -/
structure Borrows (p : SinkPattern) (f : Facts) (b : Borrow) : Prop where
  located : (b.block, b.expr) ∈ f.located
  kind : b.expr.kind = .ref
  mutable : b.expr.mutable = true
  type : ∃ t s, f.program.type? b.expr.type = .ok (some t) ∧ t.path = .text s ∧
    (∃ target ∈ p.targets, Text.nameMatches target s = true) ∧ t.args.getLast? = some (some b.inner)
  path : f.pathOf (some b.expr.id) = .ok (some b.path)

/-- A mutable borrow with no other one of the same place and with the same argument before it. -/
structure FirstBorrow (p : SinkPattern) (f : Facts) (b : Borrow) : Prop extends p.Borrows f b where
  first : ∀ b', p.Borrows f b' → b'.inner = b.inner → b'.path.same b.path = true →
    b.expr.id ≤ b'.expr.id

/-- The sink of a pair of borrows. -/
structure ReportsPair (c : Category) (pair : Borrow × Borrow) (s : Sink) : Prop where
  category : s.category = c
  block : s.block = pair.1.block
  paths : s.paths = [pair.1.path, pair.2.path]
  location : s.location = pair.1.expr.location
  secondary : s.secondary = [pair.2.expr.location]

/-- A mutable reference to a type that a pattern is about is a borrow of its place, with the last
argument of the type. -/
theorem borrows_iff {block : Int} {e : Expr} (hl : (block, e) ∈ f.located) (hkind : e.kind = .ref)
    (hmutable : e.mutable = true) (haims : p.aims f e.type = .ok true) {inner : Option TypeRef}
    (hinner : f.program.innerType e.type = .ok inner) {path : Option AccessPath}
    (hpath : f.pathOf (some e.id) = .ok path) (place : AccessPath) (argument : TypeRef) :
    p.Borrows f ⟨block, e, place, argument⟩ ↔ inner = some argument ∧ path = some place := by
  obtain ⟨t, s, ht, hs, htarget⟩ := (aims_eq_ok haims).mp rfl
  have hlast : inner = t.args.getLast?.join := by
    obtain ⟨t', ht', hinner⟩ := bind_eq_ok.mp hinner
    rw [ht] at ht'
    obtain rfl := Except.ok.inj ht'
    exact (pure_eq_ok.mp hinner).symm
  constructor
  · intro hb
    obtain ⟨t', _, ht', _, _, hargument⟩ := hb.type
    rw [ht] at ht'
    obtain rfl := Option.some.inj (Except.ok.inj ht')
    refine ⟨?_, Except.ok.inj (hpath.symm.trans hb.path)⟩
    rw [hlast, hargument]
    rfl
  · rintro ⟨rfl, rfl⟩
    exact ⟨hl, hkind, hmutable, ⟨t, s, ht, hs, htarget, Option.join_eq_some_iff.mp hlast.symm⟩, hpath⟩

private theorem borrow?_eq_ok {l : Int × Expr} (hl : l ∈ f.located) {z : Option Borrow}
    (h : p.borrow? f l = .ok z) (b : Borrow) :
    z = some b ↔ b.block = l.1 ∧ b.expr = l.2 ∧ p.Borrows f b := by
  obtain ⟨block, e⟩ := l
  unfold borrow? at h
  dsimp only at h
  split at h
  · rename_i hkind
    obtain rfl := pure_eq_ok.mp h
    refine ⟨fun h => (by cases h), ?_⟩
    rintro ⟨_, rfl, hb⟩
    simp [hb.kind, hb.mutable] at hkind
  · rename_i hkind
    obtain ⟨aimed, ha, h⟩ := bind_eq_ok.mp h
    cases aimed with
    | false =>
      obtain rfl := pure_eq_ok.mp h
      refine ⟨fun h => (by cases h), ?_⟩
      rintro ⟨_, rfl, hb⟩
      obtain ⟨t, s, ht, hs, htarget, _⟩ := hb.type
      exact Bool.noConfusion ((aims_eq_ok ha).mpr ⟨t, s, ht, hs, htarget⟩)
    | true =>
      obtain ⟨inner, hinner, h⟩ := bind_eq_ok.mp h
      obtain ⟨path, hpath, h⟩ := bind_eq_ok.mp h
      simp only [Bool.or_eq_true, not_or, bne_iff_ne, ne_eq, not_not, Bool.not_eq_true,
        Bool.not_eq_false'] at hkind
      obtain ⟨block', e', place, argument⟩ := b
      have hborrows := borrows_iff hl hkind.1 hkind.2 ha hinner hpath place argument
      have hfound : z = some ⟨block', e', place, argument⟩ ↔
          block' = block ∧ e' = e ∧ inner = some argument ∧ path = some place := by
        cases inner with
        | none =>
          obtain rfl := pure_eq_ok.mp h
          simp
        | some t =>
          cases path with
          | none =>
            obtain rfl := pure_eq_ok.mp h
            simp
          | some q =>
            obtain rfl := pure_eq_ok.mp h
            rw [Option.some.injEq, Borrow.mk.injEq, Option.some.injEq, Option.some.injEq]
            simp only [eq_comm, and_comm]
      rw [hfound, ← hborrows]
      constructor
      · rintro ⟨rfl, rfl, hb⟩
        exact ⟨rfl, rfl, hb⟩
      · rintro ⟨rfl, rfl, hb⟩
        exact ⟨rfl, rfl, hb⟩

/-- A borrow is known by the id of its expression. -/
theorem Borrows.eq_of_id (hsorted : f.located.Pairwise fun k l => k.2.id < l.2.id) {a b : Borrow}
    (ha : p.Borrows f a) (hb : p.Borrows f b) (hid : a.expr.id = b.expr.id) : a = b := by
  have hnodup : (f.located.map fun l => l.2.id).Nodup :=
    (List.pairwise_map.mpr hsorted).imp Int.ne_of_lt
  have hentry := List.inj_on_of_nodup_map hnodup ha.located hb.located hid
  obtain ⟨block, e, q, t⟩ := a
  obtain ⟨block', e', q', t'⟩ := b
  obtain ⟨rfl, rfl⟩ := Prod.mk.inj hentry
  obtain rfl := Option.some.inj (Except.ok.inj (ha.path.symm.trans hb.path))
  obtain ⟨d, _, hd, _, _, hlast⟩ := ha.type
  obtain ⟨d', _, hd', _, _, hlast'⟩ := hb.type
  obtain rfl := Option.some.inj (Except.ok.inj (hd.symm.trans hd'))
  obtain rfl := Option.some.inj (Option.some.inj (hlast.symm.trans hlast'))
  rfl

private theorem FirstBorrow.eq_of_same (hsorted : f.located.Pairwise fun k l => k.2.id < l.2.id)
    {a b : Borrow} (ha : p.FirstBorrow f a) (hb : p.FirstBorrow f b) (hinner : a.inner = b.inner)
    (hpath : a.path.same b.path = true) : a = b := by
  have hab := ha.first b hb.toBorrows hinner.symm (AccessPath.same_symm hpath)
  have hba := hb.first a ha.toBorrows hinner hpath
  exact ha.eq_of_id hsorted hb.toBorrows (by omega)

section Found

variable {found : List Borrow} (hfound : collectM (p.borrow? f) f.located = .ok found)

include hfound

private theorem mem_found_iff {b : Borrow} : b ∈ found ↔ p.Borrows f b := by
  rw [mem_collectM hfound]
  constructor
  · rintro ⟨l, hl, hstep⟩
    exact ((borrow?_eq_ok hl hstep b).mp rfl).2.2
  · intro hb
    obtain ⟨z, hz⟩ := collectM_ok_of_mem hfound hb.located
    refine ⟨_, hb.located, ?_⟩
    rw [hz, (borrow?_eq_ok hb.located hz b).mpr ⟨rfl, rfl, hb⟩]

variable (hsorted : f.located.Pairwise fun k l => k.2.id < l.2.id)

include hsorted

private theorem found_sorted : found.Pairwise fun a b => a.expr.id < b.expr.id := by
  classical
  have hall := collectM_filter (P := fun l => ∃ b, b.block = l.1 ∧ b.expr = l.2 ∧ p.Borrows f b)
    (R := fun l b => b.expr = l.2) hfound ?_ ?_
  · have hids := map_eq_of_forall₂ (f := fun l => l.2.id) (g := fun b => b.expr.id) hall
      fun l _ b hb => congrArg Expr.id hb.symm
    rw [← List.pairwise_map (R := (· < ·)) (f := fun b : Borrow => b.expr.id), ← hids,
      List.pairwise_map]
    exact hsorted.filter _
  · rintro l hl hnone ⟨b, hb⟩
    cases (borrow?_eq_ok hl hnone b).mpr hb
  · intro l hl b hstep
    have hb := (borrow?_eq_ok hl hstep b).mp rfl
    exact ⟨⟨b, hb⟩, hb.2.1⟩

private theorem mem_firstBorrows_iff {b : Borrow} : b ∈ firstBorrows found ↔ p.FirstBorrow f b := by
  have hiff : b ∈ firstBorrows found ↔ b ∈ found ∧ ∀ k ∈ found,
      (k.inner == b.inner && k.path.same b.path) = true → b.expr.id ≤ k.expr.id := by
    refine mem_distinctBy_iff ?_ ?_ (found_sorted hfound hsorted)
    · intro k
      simp [AccessPath.same_refl]
    · intro k l m hkl hlm
      simp only [Bool.and_eq_true, beq_iff_eq] at hkl hlm ⊢
      exact ⟨hkl.1.trans hlm.1, AccessPath.same_trans hkl.2 hlm.2⟩
  rw [hiff, mem_found_iff hfound]
  simp only [mem_found_iff hfound, Bool.and_eq_true, beq_iff_eq]
  constructor
  · rintro ⟨hb, hfirst⟩
    exact ⟨hb, fun k hk hinner hpath => hfirst k hk ⟨hinner, hpath⟩⟩
  · intro hb
    exact ⟨hb.toBorrows, fun k hk h => hb.first k hk h.1 h.2⟩

private theorem exists_firstBorrow {b : Borrow} (hb : p.Borrows f b) :
    ∃ k, p.FirstBorrow f k ∧ k.inner = b.inner ∧ k.path.same b.path = true := by
  have hkept : ∃ k ∈ firstBorrows found, (k.inner == b.inner && k.path.same b.path) = true :=
    exists_mem_distinctBy (by simp [AccessPath.same_refl]) ((mem_found_iff hfound).mpr hb)
  obtain ⟨k, hk, heq⟩ := hkept
  rw [Bool.and_eq_true, beq_iff_eq] at heq
  exact ⟨k, (mem_firstBorrows_iff hfound hsorted).mp hk, heq⟩

end Found

/-- The pairs of borrows are those of first borrows with the same argument, by their ids and once
each. -/
theorem borrowPairs_spec (hsorted : f.located.Pairwise fun k l => k.2.id < l.2.id)
    {pairs : List (Borrow × Borrow)} (h : p.borrowPairs f = .ok pairs) :
    pairs.Nodup ∧ ∀ a b, (a, b) ∈ pairs ↔
      p.FirstBorrow f a ∧ p.FirstBorrow f b ∧ a.inner = b.inner ∧ a.expr.id < b.expr.id := by
  obtain ⟨found, hfound, h⟩ := bind_eq_ok.mp h
  obtain ⟨inners, hinners, h⟩ := bind_eq_ok.mp h
  obtain rfl := pure_eq_ok.mp h
  have hkept : (firstBorrows found).Pairwise fun a b => a.expr.id < b.expr.id :=
    (found_sorted hfound hsorted).sublist (distinctBy_sublist _ found)
  have hmem : ∀ t a b, (a, b) ∈ AccountLint.pairs ((firstBorrows found).filter (·.inner == t)) ↔
      p.FirstBorrow f a ∧ p.FirstBorrow f b ∧ (a.inner = t ∧ b.inner = t) ∧ a.expr.id < b.expr.id := by
    intro t a b
    rw [mem_pairs_iff (hkept.filter _), List.mem_filter, List.mem_filter,
      mem_firstBorrows_iff hfound hsorted, mem_firstBorrows_iff hfound hsorted, beq_iff_eq, beq_iff_eq]
    tauto
  have hperm := TypeRef.sorted_perm hinners
  constructor
  · rw [List.nodup_flatMap]
    constructor
    · intro t _
      refine nodup_pairs ((hkept.filter _).imp ?_)
      rintro a b hab rfl
      omega
    · refine (hperm.nodup_iff.mpr (nodup_distinct _)).imp ?_
      rintro t u htu ⟨a, b⟩ hpair hpair'
      exact htu (((hmem t a b).mp hpair).2.2.1.1.symm.trans ((hmem u a b).mp hpair').2.2.1.1)
  · intro a b
    simp only [List.mem_flatMap, hmem]
    constructor
    · rintro ⟨t, _, ha, hb, ⟨rfl, hinner⟩, hlt⟩
      exact ⟨ha, hb, hinner.symm, hlt⟩
    · rintro ⟨ha, hb, hinner, hlt⟩
      refine ⟨a.inner, ?_, ha, hb, ⟨rfl, hinner.symm⟩, hlt⟩
      rw [hperm.mem_iff, mem_distinct]
      exact List.mem_map_of_mem ((mem_firstBorrows_iff hfound hsorted).mpr ha)

private theorem pairSink_eq_ok {pair : Borrow × Borrow}
    (hpath : pair.1.path.same pair.2.path = false) {z : Option Sink} (h : pairSink c pair = .ok z) :
    ∃ s, z = some s ∧ ReportsPair c pair s := by
  obtain ⟨a, b⟩ := pair
  obtain ⟨_, _, h⟩ := bind_eq_ok.mp h
  obtain ⟨_, _, h⟩ := bind_eq_ok.mp h
  obtain ⟨paths, hpaths, h⟩ := bind_eq_ok.mp h
  obtain rfl := pure_eq_ok.mp h
  have hboth : paths = [a.path, b.path] := by
    unfold AccessPath.setOf at hpaths
    split at hpaths
    · rw [← Except.ok.inj hpaths]
      simp [distinctBy, hpath]
    · cases hpaths
  exact ⟨_, rfl, rfl, rfl, hboth, rfl, rfl⟩

private theorem candidates_ne_error (hkind : p.kind = .mutableBorrowPair)
    (hfits : f.Fits fun _ => False) (e : Fault) : .error e ∉ p.candidates f c := by
  obtain ⟨pairs, hpairs, hall⟩ := Yields.ok_iff.mp (p.borrowPairs_yields hfits)
  unfold candidates
  rw [hkind, hpairs]
  intro he
  obtain ⟨pair, hpair, hsink⟩ := List.mem_map.mp he
  have hyields := pairSink_fits c (hall pair hpair).1 (hall pair hpair).2
  rw [hsink] at hyields
  exact hyields

/-- A pair of borrows is of two places, in either order. -/
def Joins (pair : Borrow × Borrow) (q q' : AccessPath) : Prop :=
  (pair.1.path.same q = true ∧ pair.2.path.same q' = true) ∨
    (pair.1.path.same q' = true ∧ pair.2.path.same q = true)

section Pairs

variable (hsorted : f.located.Pairwise fun k l => k.2.id < l.2.id)
  {pairs : List (Borrow × Borrow)} (h : p.borrowPairs f = .ok pairs)

include hsorted h

private theorem same_eq_false_of_mem_borrowPairs {pair : Borrow × Borrow} (hpair : pair ∈ pairs) :
    pair.1.path.same pair.2.path = false := by
  obtain ⟨ha, hb, hinner, hlt⟩ := ((borrowPairs_spec hsorted h).2 _ _).mp hpair
  by_contra hsame
  rw [Bool.not_eq_false] at hsame
  rw [ha.eq_of_same hsorted hb hinner hsame] at hlt
  omega

/-- Two places that are borrowed with the same argument make up one pair. -/
theorem existsUnique_borrowPair {a b : Borrow} (ha : p.Borrows f a) (hb : p.Borrows f b)
    (hinner : a.inner = b.inner) (hpath : a.path.same b.path = false) :
    ∃! pair, pair ∈ pairs ∧ pair.1.inner = a.inner ∧ Joins pair a.path b.path := by
  have hmem := (borrowPairs_spec hsorted h).2
  obtain ⟨found, hfound, _⟩ := bind_eq_ok.mp h
  obtain ⟨first, hfirst, hinner₁, hpath₁⟩ := exists_firstBorrow hfound hsorted ha
  obtain ⟨second, hsecond, hinner₂, hpath₂⟩ := exists_firstBorrow hfound hsorted hb
  have hne : first.expr.id ≠ second.expr.id := by
    intro hid
    rw [hfirst.eq_of_id hsorted hsecond.toBorrows hid] at hpath₁
    rw [AccessPath.same_trans (AccessPath.same_symm hpath₁) hpath₂] at hpath
    cases hpath
  have heq : ∀ k, p.FirstBorrow f k → k.inner = a.inner →
      (k.path.same a.path = true → k = first) ∧ (k.path.same b.path = true → k = second) := by
    intro k hk hinner'
    constructor
    · intro hsame
      exact hk.eq_of_same hsorted hfirst (hinner'.trans hinner₁.symm)
        (AccessPath.same_trans hsame (AccessPath.same_symm hpath₁))
    · intro hsame
      exact hk.eq_of_same hsorted hsecond ((hinner'.trans hinner).trans hinner₂.symm)
        (AccessPath.same_trans hsame (AccessPath.same_symm hpath₂))
  -- a pair of the two places can only be of these two borrows, and their ids tell which comes first
  have honly : ∀ pair, pair ∈ pairs ∧ pair.1.inner = a.inner ∧ Joins pair a.path b.path →
      (pair = (first, second) ∧ first.expr.id < second.expr.id) ∨
        (pair = (second, first) ∧ second.expr.id < first.expr.id) := by
    rintro ⟨k, l⟩ ⟨hpair, hk, hjoins⟩
    obtain ⟨hfirst', hsecond', hkl, hlt⟩ := (hmem k l).mp hpair
    have hl := hkl.symm.trans hk
    rcases hjoins with ⟨hka, hlb⟩ | ⟨hkb, hla⟩
    · obtain rfl := (heq k hfirst' hk).1 hka
      obtain rfl := (heq l hsecond' hl).2 hlb
      exact Or.inl ⟨rfl, hlt⟩
    · obtain rfl := (heq k hfirst' hk).2 hkb
      obtain rfl := (heq l hsecond' hl).1 hla
      exact Or.inr ⟨rfl, hlt⟩
  have hinners : first.inner = second.inner := (hinner₁.trans hinner).trans hinner₂.symm
  rcases Int.lt_or_gt_of_ne hne with hlt | hgt
  · refine ⟨(first, second), ⟨(hmem _ _).mpr ⟨hfirst, hsecond, hinners, hlt⟩, hinner₁,
      Or.inl ⟨hpath₁, hpath₂⟩⟩, ?_⟩
    intro pair hpair
    rcases honly pair hpair with ⟨hpair, _⟩ | ⟨_, horder⟩
    · exact hpair
    · omega
  · refine ⟨(second, first), ⟨(hmem _ _).mpr ⟨hsecond, hfirst, hinners.symm, hgt⟩,
      hinner₂.trans hinner.symm, Or.inr ⟨hpath₂, hpath₁⟩⟩, ?_⟩
    intro pair hpair
    rcases honly pair hpair with ⟨_, horder⟩ | ⟨hpair, _⟩
    · omega
    · exact hpair

end Pairs

/-- Where the search for pairs of mutable borrows meets no fault, as in every function of a
well-formed program, its sinks are one for each two places that are borrowed with the same argument.
A sink is at the first borrows of its two places, in the order of their ids. -/
theorem borrow_pair_sinks_once {program : Program} {function : Function}
    (hfacts : Facts.build program function = .ok f) (hkind : p.kind = .mutableBorrowPair)
    (c : Category) :
    (program.WellFormed → function ∈ program.functions → ∀ e, .error e ∉ p.candidates f c) ∧
      ((∀ e, .error e ∉ p.candidates f c) → ∃ pairs : List (Borrow × Borrow), pairs.Nodup ∧
        List.Forall₂ (fun pair z => ∃ s, z = .ok (some s) ∧ ReportsPair c pair s) pairs
          (p.candidates f c) ∧
        (∀ a b, (a, b) ∈ pairs ↔ p.FirstBorrow f a ∧ p.FirstBorrow f b ∧ a.inner = b.inner ∧
          a.expr.id < b.expr.id) ∧
        ∀ a b, p.Borrows f a → p.Borrows f b → a.inner = b.inner → a.path.same b.path = false →
          ∃! pair, pair ∈ pairs ∧ pair.1.inner = a.inner ∧ Joins pair a.path b.path) := by
  have hsorted := Facts.located_sorted hfacts
  constructor
  · intro hwell hmem
    exact candidates_ne_error hkind (hwell.facts_fit hmem hfacts)
  · intro hfree
    cases hpairs : p.borrowPairs f with
    | error e =>
      refine absurd ?_ (hfree e)
      unfold candidates
      rw [hkind, hpairs]
      exact List.mem_cons_self
    | ok pairs =>
      have hcandidates : p.candidates f c = pairs.map (pairSink c) := by
        unfold candidates
        rw [hkind, hpairs]
      obtain ⟨hnodup, hmem⟩ := borrowPairs_spec hsorted hpairs
      refine ⟨pairs, hnodup, ?_, hmem, fun a b ha hb => existsUnique_borrowPair hsorted hpairs ha hb⟩
      rw [hcandidates, List.forall₂_map_right_iff, List.forall₂_same]
      intro pair hpair
      have hpath := same_eq_false_of_mem_borrowPairs hsorted hpairs hpair
      cases hsink : pairSink c pair with
      | error e =>
        refine absurd ?_ (hfree e)
        rw [hcandidates, ← hsink]
        exact List.mem_map_of_mem hpair
      | ok z =>
        obtain ⟨s, rfl, hs⟩ := pairSink_eq_ok hpath hsink
        exact ⟨s, rfl, hs⟩

end SinkPattern

/-- Three accounts with the same argument are borrowed, the first of them again by another name. The
type of a fourth borrow is left open. -/
def Function.borrowing (fourth : Option TypeRef) : Function :=
  { name := "transfer"
    exprs := [
      { id := 0, kind := .localVar, localName := "a" },
      { id := 1, kind := .ref, receiver := some 0, type := some (.index 1), mutable := true },
      { id := 2, kind := .localVar, localName := "b" },
      { id := 3, kind := .ref, receiver := some 2, type := some (.index 1), mutable := true },
      { id := 4, kind := .localVar, localName := "again" },
      { id := 5, kind := .ref, receiver := some 4, type := some (.index 1), mutable := true },
      { id := 6, kind := .localVar, localName := "c" },
      { id := 7, kind := .ref, receiver := some 6, type := some (.index 1), mutable := true },
      { id := 8, kind := .localVar, localName := "d" },
      { id := 9, kind := .ref, receiver := some 8, type := fourth, mutable := true }]
    blocks := [
      { id := 0, stmts := [
          { kind := .assign, target := some (.expr 4), value := 0 }, { kind := .eval, value := 1 },
          { kind := .eval, value := 3 }, { kind := .eval, value := 5 }, { kind := .eval, value := 7 },
          { kind := .eval, value := 9 }] }] }

def Program.borrowing (fourth : Option TypeRef) : Program :=
  { types := [
      { id := 0, path := .text "User", kind := .struct },
      { id := 1, path := .text Paths.account, args := [some (.index 0)] }]
    functions := [.borrowing fourth] }

def Facts.borrowing (fourth : Option TypeRef) : Facts :=
  { program := .borrowing fourth
    function := .borrowing fourth
    aliases := { function := .borrowing fourth, sources := [("again", .ofLocal "a")]
                 definitions := [("again", 0)] }
    located := (Function.borrowing fourth).exprs.map fun e => (0, e) }

private theorem Facts.build_borrowing (fourth : Option TypeRef)
    (h : fourth ∈ [none, some (.index 9)]) :
    Facts.build (.borrowing fourth) (.borrowing fourth) = .ok (.borrowing fourth) := by
  rcases List.mem_pair.mp h with rfl | rfl
  · exact build_of_parts rfl (by decide +kernel) (by decide +kernel)
  · exact build_of_parts rfl (by decide +kernel) (by decide +kernel)

private theorem Program.wellFormed_borrowing : (Program.borrowing none).WellFormed := by
  have hin : ∀ i : Int, 0 ≤ i → i < 2 → (Program.borrowing none).InTable (some (.index i)) := by
    intro i h0 hlt t ht
    exact ⟨i, (Option.some.inj ht).symm, h0, hlt⟩
  have htypes : ∀ e ∈ (Function.borrowing none).exprs, e.type = none ∨ e.type = some (.index 1) := by
    decide
  constructor
  case typeId =>
    intro i t h
    match i with
    | 0 | 1 =>
      rw [← Option.some.inj h]
      rfl
    | i + 2 => cases h
  case argType => simpa [Program.borrowing] using hin 0 (by decide) (by decide)
  case exprType =>
    intro f hf e he
    obtain rfl := List.mem_singleton.mp hf
    rcases htypes e he with ht | ht
    · rw [ht]
      exact fun t h => (by cases h)
    · rw [ht]
      exact hin 1 (by decide) (by decide)
  all_goals simp [Program.borrowing, Function.borrowing]

namespace SinkPattern

def accountPair : SinkPattern := { kind := .mutableBorrowPair, targets := [Paths.account] }

def accountBorrow (id receiver : Int) (name : String) : Borrow :=
  ⟨0, { id := id, kind := .ref, receiver := some receiver, type := some (.index 1), mutable := true },
    .ofLocal name, .index 0⟩

private theorem borrows_borrowing (fourth : Option TypeRef) (h : fourth ∈ [none, some (.index 9)]) :
    accountPair.Borrows (.borrowing fourth) (accountBorrow 5 4 "a") ∧
      accountPair.Borrows (.borrowing fourth) (accountBorrow 3 2 "b") := by
  have htype : ∃ t s, (Program.borrowing fourth).type? (some (.index 1)) = .ok (some t) ∧
      t.path = .text s ∧ (∃ target ∈ accountPair.targets, Text.nameMatches target s = true) ∧
      t.args.getLast? = some (some (.index 0)) :=
    ⟨_, Paths.account, rfl, rfl, ⟨_, List.mem_cons_self, by decide +kernel⟩, rfl⟩
  have hpaths : ((Facts.borrowing fourth).pathOf (some 5)).toOption = some (some (.ofLocal "a")) ∧
      ((Facts.borrowing fourth).pathOf (some 3)).toOption = some (some (.ofLocal "b")) := by
    rcases List.mem_pair.mp h with rfl | rfl
    · decide +kernel
    · decide +kernel
  constructor
  · exact ⟨by simp [Facts.borrowing, Function.borrowing, accountBorrow], rfl, rfl, htype,
      ok_of_toOption hpaths.1⟩
  · exact ⟨by simp [Facts.borrowing, Function.borrowing, accountBorrow], rfl, rfl, htype,
      ok_of_toOption hpaths.2⟩

theorem borrow_pair_sinks_once_borrowing :
    (Program.borrowing none).WellFormed ∧
      Facts.build (.borrowing none) (.borrowing none) = .ok (.borrowing none) ∧
      (accountPair.candidates (.borrowing none) .duplicateMutableAccounts).length = 3 ∧
      ∃ pairs : List (Borrow × Borrow),
        List.Forall₂ (fun pair z => ∃ s, z = .ok (some s) ∧
          ReportsPair .duplicateMutableAccounts pair s) pairs
          (accountPair.candidates (.borrowing none) .duplicateMutableAccounts) ∧
        ∃! pair, pair ∈ pairs ∧ pair.1.inner = .index 0 ∧ Joins pair (.ofLocal "a") (.ofLocal "b") := by
  have hbuild := Facts.build_borrowing none (by decide)
  obtain ⟨hfree, hpairs⟩ := borrow_pair_sinks_once hbuild (p := accountPair) rfl
    .duplicateMutableAccounts
  obtain ⟨pairs, _, hsinks, _, honce⟩ := hpairs (hfree Program.wellFormed_borrowing List.mem_cons_self)
  obtain ⟨ha, hb⟩ := borrows_borrowing none (by decide)
  exact ⟨Program.wellFormed_borrowing, hbuild, by decide +kernel, pairs, hsinks,
    honce _ _ ha hb rfl (by decide)⟩

/-- Two accounts are borrowed with the same argument, and yet there is no sink, because the type of
another borrow is not in the table. -/
theorem borrow_pair_without_sink :
    ∃ facts a b, Facts.build (.borrowing (some (.index 9))) (.borrowing (some (.index 9))) = .ok facts ∧
      accountPair.Borrows facts a ∧ accountPair.Borrows facts b ∧ a.inner = b.inner ∧
      a.path.same b.path = false ∧
      ∀ s, .ok (some s) ∉ accountPair.candidates facts .duplicateMutableAccounts := by
  obtain ⟨ha, hb⟩ := borrows_borrowing (some (.index 9)) (by decide)
  refine ⟨_, _, _, Facts.build_borrowing _ (by decide), ha, hb, rfl, by decide, ?_⟩
  have hnone : (accountPair.candidates (.borrowing (some (.index 9))) .duplicateMutableAccounts).map
      (fun z => z.toOption.join.isSome) = [false] := by decide +kernel
  intro s hs
  have hmem := List.mem_map_of_mem (f := fun z : Except Fault (Option Sink) => z.toOption.join.isSome) hs
  rw [hnone] at hmem
  cases List.mem_singleton.mp hmem

end SinkPattern
end AccountLint

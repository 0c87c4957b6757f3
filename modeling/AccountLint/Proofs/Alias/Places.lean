import AccountLint.Alias.RawPath
import AccountLint.Proofs.Checked
import AccountLint.Proofs.Sorting

/-! Equality of names and of places, where numbers count by their value. -/
namespace AccountLint

namespace Value

theorem same_iff {a b : Value} : a.same b = true ↔ a.key = b.key := by
  unfold same
  exact beq_iff_eq

theorem key_eq_text_iff {v : Value} {s : String} : v.key = .text s ↔ v = .text s := by
  cases v with
  | float x =>
    unfold key
    cases x.toInt? <;> simp
  | _ => simp [key]

theorem same_text_iff {v : Value} {s : String} : v.same (.text s) = true ↔ v = .text s := by
  rw [same_iff]
  exact key_eq_text_iff

theorem text_same_iff {v : Value} {s : String} : Value.same (.text s) v = true ↔ v = .text s := by
  rw [same_iff, eq_comm]
  exact key_eq_text_iff

theorem keyList_eq_map (xs : List Value) : keyList xs = xs.map key := by
  induction xs with
  | nil => rfl
  | cons x xs ih => rw [keyList, ih, List.map_cons]

theorem isOneOf_eq_ok {v : Value} {texts : List String} {b : Bool} (h : v.isOneOf texts = .ok b) :
    b = true ↔ ∃ s ∈ texts, v = .text s := by
  unfold isOneOf isIn at h
  split at h
  · rw [← Except.ok.inj h, List.any_eq_true]
    constructor
    · intro h
      obtain ⟨t, ht, hs⟩ := h
      obtain ⟨s, hs', rfl⟩ := List.mem_map.mp ht
      exact ⟨s, hs', same_text_iff.mp hs⟩
    · intro h
      obtain ⟨s, hs, rfl⟩ := h
      exact ⟨.text s, List.mem_map.mpr ⟨s, hs, rfl⟩, same_text_iff.mpr rfl⟩
  · cases h

end Value

namespace AccessPath

theorem same_iff {p q : AccessPath} : p.same q = true ↔ p.key = q.key := by
  unfold same
  exact beq_iff_eq

theorem same_refl (p : AccessPath) : p.same p = true := same_iff.mpr rfl

theorem same_symm {p q : AccessPath} (h : p.same q = true) : q.same p = true :=
  same_iff.mpr (same_iff.mp h).symm

theorem same_trans {p q r : AccessPath} (h : p.same q = true) (h' : q.same r = true) :
    p.same r = true := same_iff.mpr ((same_iff.mp h).trans (same_iff.mp h'))

/-- A set of paths has a path equal to a given one if the paths that it is made of do. -/
theorem exists_same_setOf {ps qs : List AccessPath} (h : setOf ps = .ok qs) {q : AccessPath} :
    (∃ r ∈ qs, r.same q = true) ↔ ∃ r ∈ ps, r.same q = true := by
  unfold setOf at h
  split at h
  · rw [← Except.ok.inj h]
    constructor
    · intro h
      obtain ⟨r, hr, hs⟩ := h
      exact ⟨r, distinctBy_subset hr, hs⟩
    · intro h
      obtain ⟨r, hr, hs⟩ := h
      obtain ⟨t, ht, hts⟩ := exists_mem_distinctBy same_refl hr
      exact ⟨t, ht, same_trans hts hs⟩
  · cases h

theorem setOf_toList {path : Option AccessPath} {qs : List AccessPath}
    (h : setOf path.toList = .ok qs) : qs = path.toList := by
  unfold setOf at h
  split at h
  · rw [← Except.ok.inj h]
    cases path <;> rfl
  · cases h

theorem setOf_singleton {path : AccessPath} {qs : List AccessPath} (h : setOf [path] = .ok qs) :
    qs = [path] :=
  @setOf_toList (some path) qs h

/-- A path equals another one extended by a text if it ends in that text and what is before it
equals the other one. -/
theorem same_extend_text_iff {p q : AccessPath} {s : String} :
    p.same (q.extend [.text s]) = true ↔
      ∃ parent, p.parent? = some parent ∧ p.last? = some (.text s) ∧ parent.same q = true := by
  obtain ⟨root, steps⟩ := p
  rw [same_iff]
  simp only [key, extend, Value.keyList_eq_map, mk.injEq, List.map_append, List.map_cons, List.map_nil]
  rcases List.eq_nil_or_concat steps with rfl | ⟨init, step, rfl⟩
  · simp [parent?]
  · have hparent : parent? ⟨root, init ++ [step]⟩ = some ⟨root, init⟩ := by simp [parent?]
    have hlast : last? ⟨root, init ++ [step]⟩ = some step := by simp [last?]
    have htext : Value.key (.text s) = .text s := by simp [Value.key]
    rw [List.concat_eq_append, hparent, hlast, htext]
    constructor
    · intro h
      obtain ⟨hroot, hsteps⟩ := h
      rw [List.map_append, List.map_cons, List.map_nil] at hsteps
      obtain ⟨hinit, hstep⟩ := List.append_inj' hsteps rfl
      have hs := Value.key_eq_text_iff.mp (List.cons.inj hstep).1
      refine ⟨_, rfl, by rw [hs], same_iff.mpr ?_⟩
      simp only [key, Value.keyList_eq_map, hroot, hinit]
    · intro h
      obtain ⟨parent, hp, hl, hs⟩ := h
      obtain rfl := Option.some.inj hp
      obtain rfl := Option.some.inj hl
      have hk := same_iff.mp hs
      simp only [key, Value.keyList_eq_map, mk.injEq] at hk
      rw [List.map_append, hk.1, hk.2, List.map_cons, htext, List.map_nil]
      exact ⟨rfl, rfl⟩

end AccessPath

theorem Expr.nameIn_eq_ok {e : Expr} {texts : List String} {b : Bool}
    (h : e.nameIn texts = .ok b) : b = true ↔ ∃ s ∈ texts, e.name = some (.text s) := by
  unfold Expr.nameIn at h
  split at h
  · rename_i hn
    rw [← Except.ok.inj h, hn]
    simp
  · rename_i n hn
    rw [Value.isOneOf_eq_ok h, hn]
    simp

end AccountLint

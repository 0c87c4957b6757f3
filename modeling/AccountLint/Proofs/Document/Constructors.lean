import Mathlib.Data.Set.List
import AccountLint.Proofs.Alias.Places
import AccountLint.Proofs.Document.Retention

/-! The fields of constructors. A field that is set again keeps its place and gets the new value. -/
namespace AccountLint.Document

def putFields (sofar added : List (Value × Int)) : List (Value × Int) :=
  added.foldl (fun fields f => putField fields f.1 f.2) sofar

private theorem putFields_cons (sofar added : List (Value × Int)) (f : Value × Int) :
    putFields sofar (f :: added) = putFields (putField sofar f.1 f.2) added := rfl

theorem mem_putField {fields : List (Value × Int)} {name : Value} {i : Int} {f : Value × Int}
    (h : f ∈ putField fields name i) : f.2 = i ∨ f ∈ fields := by
  unfold putField at h
  split at h
  · obtain ⟨g, hg, rfl⟩ := List.mem_map.mp h
    split
    · exact Or.inl rfl
    · exact Or.inr hg
  · rcases List.mem_append.mp h with h | h
    · exact Or.inr h
    · rw [List.mem_singleton.mp h]
      exact Or.inl rfl

private theorem exists_putField (fields : List (Value × Int)) (name : Value) (i : Int) :
    (∃ f ∈ putField fields name i, f.1.same name = true) ∧
      ∀ g ∈ fields, ∃ f ∈ putField fields name i, f.1 = g.1 := by
  unfold putField
  split
  · rename_i hany
    have hkeep : ∀ g ∈ fields, ∃ f ∈ fields.map (fun f => if f.1.same name then (f.1, i) else f),
        f.1 = g.1 := by
      intro g hg
      refine ⟨_, List.mem_map.mpr ⟨g, hg, rfl⟩, ?_⟩
      split <;> rfl
    obtain ⟨g, hg, hsame⟩ := List.any_eq_true.mp hany
    obtain ⟨f, hf, heq⟩ := hkeep g hg
    exact ⟨⟨f, hf, heq ▸ hsame⟩, hkeep⟩
  · refine ⟨⟨(name, i), ?_, Value.same_iff.mpr rfl⟩, fun g hg => ⟨g, ?_, rfl⟩⟩
    · exact List.mem_append_right _ List.mem_cons_self
    · exact List.mem_append_left _ hg

/-- Every name that is set is the name of a field. -/
theorem exists_putFields (sofar added : List (Value × Int)) :
    (∀ g ∈ added, ∃ f ∈ putFields sofar added, f.1.same g.1 = true) ∧
      ∀ g ∈ sofar, ∃ f ∈ putFields sofar added, f.1 = g.1 := by
  induction added generalizing sofar with
  | nil => exact ⟨fun g hg => (by cases hg), fun g hg => ⟨g, hg, rfl⟩⟩
  | cons a added ih =>
    obtain ⟨hset, hkept⟩ := exists_putField sofar a.1 a.2
    obtain ⟨hadded, hsofar⟩ := ih (putField sofar a.1 a.2)
    constructor
    · intro g hg
      rcases List.mem_cons.mp hg with rfl | hg
      · obtain ⟨f, hf, hsame⟩ := hset
        obtain ⟨f', hf', heq⟩ := hsofar f hf
        exact ⟨f', hf', heq ▸ hsame⟩
      · exact hadded g hg
    · intro g hg
      obtain ⟨f, hf, heq⟩ := hkept g hg
      obtain ⟨f', hf', heq'⟩ := hsofar f hf
      exact ⟨f', hf', heq'.trans heq⟩

/-- The names of fields that are accepted are texts. -/
theorem fieldNames_eq_ok {fields : List (Value × Int)} {named : List (String × Int)}
    (h : fieldNames fields = .ok named) : fields = named.map fun f => (.text f.1, f.2) := by
  have hall := mapM_eq_ok.mp h
  have hmap := map_eq_of_forall₂ (f := id) (g := fun f => (Value.text f.1, f.2)) hall ?_
  · rw [List.map_id] at hmap
    exact hmap
  · intro x _ y hxy
    obtain ⟨name, i⟩ := x
    dsimp only at hxy
    split at hxy
    · split at hxy
      · cases hxy
      · rw [← Except.ok.inj hxy]
        rfl
    · cases hxy

variable {ids : List Int} {named : List (String × Int)}

/-- If the fields are accepted, all names that were set are texts. -/
theorem exists_texts {names : List Value} (hlength : ids.length = names.length)
    (h : fieldNames (putFields [] (names.zip ids)) = .ok named) :
    ∃ texts : List String, texts.map Value.text = names := by
  rw [← Set.mem_range, Set.range_list_map]
  intro name hname
  rw [← List.map_fst_zip (Nat.le_of_eq hlength.symm)] at hname
  obtain ⟨g, hg, rfl⟩ := List.mem_map.mp hname
  obtain ⟨f, hf, hsame⟩ := (exists_putFields [] _).1 g hg
  rw [fieldNames_eq_ok h] at hf
  obtain ⟨n, _, rfl⟩ := List.mem_map.mp hf
  exact ⟨n.1, (Value.text_same_iff.mp hsame).symm⟩

private theorem any_same_text {seen : List String} {val : String → Int} {t : String} :
    ((seen.map fun u => (Value.text u, val u)).any (·.1.same (.text t))) = seen.contains t := by
  rw [List.any_map, List.contains_eq_any_beq]
  refine congrArg (List.any seen) (funext fun u => ?_)
  rw [Bool.eq_iff_iff, Function.comp_apply, Value.same_text_iff, Value.text.injEq, beq_iff_eq, eq_comm]

private theorem putField_text (seen : List String) (val : String → Int) (t : String) (i : Int) :
    putField (seen.map fun u => (.text u, val u)) (.text t) i =
      (addNew seen t).map fun u => (.text u, if t = u then i else val u) := by
  unfold putField addNew
  rw [any_same_text]
  split
  · rw [List.map_map]
    refine List.map_congr_left fun u _ => ?_
    rw [Function.comp_apply]
    simp only [Value.same_text_iff, Value.text.injEq, eq_comm (a := u)]
    split
    · rfl
    · rfl
  · rename_i hnew
    rw [List.map_append]
    congr 1
    · refine List.map_congr_left fun u hu => ?_
      have hne : t ≠ u := fun heq => hnew (List.contains_iff_mem.mpr (heq ▸ hu))
      rw [if_neg hne]
    · simp

/-- Every name keeps its first place and gets its last value. -/
theorem putFields_texts {texts : List String} (hlength : ids.length = texts.length)
    (seen : List String) (val : String → Int) :
    putFields (seen.map fun u => (.text u, val u)) ((texts.map Value.text).zip ids) =
      (texts.foldl addNew seen).map fun u => (.text u, (lastFor u texts ids).getD (val u)) := by
  induction texts generalizing ids seen val with
  | nil => rfl
  | cons t texts ih =>
    obtain ⟨i, ids, rfl⟩ := List.exists_cons_of_length_eq_add_one hlength
    rw [List.map_cons, List.zip_cons_cons, putFields_cons, putField_text,
      ih (by simpa using hlength), List.foldl_cons]
    refine List.map_congr_left fun u _ => ?_
    rw [lastFor]
    cases lastFor u texts ids with
    | some j => rfl
    | none =>
      rw [Option.none_or]
      split
      · rfl
      · rfl

private theorem isSome_lastFor {α : Type} {name : String} {names : List String} {xs : List α}
    (hlength : xs.length = names.length) (h : name ∈ names) : (lastFor name names xs).isSome := by
  induction names generalizing xs with
  | nil => cases h
  | cons n names ih =>
    obtain ⟨x, xs, rfl⟩ := List.exists_cons_of_length_eq_add_one hlength
    rw [lastFor, Option.isSome_or]
    rcases List.mem_cons.mp h with rfl | h
    · simp
    · rw [ih (by simpa using hlength) h]
      rfl

/-- The fields have each name once, at its first place and with its last value. -/
theorem named_settled {texts : List String} (hlength : ids.length = texts.length)
    (h : fieldNames (putFields [] ((texts.map Value.text).zip ids)) = .ok named) :
    named.map Prod.fst = distinct texts ∧ named.map Prod.snd = settle texts ids := by
  have hput := putFields_texts hlength [] fun _ => 0
  rw [List.map_nil, fieldNames_eq_ok h] at hput
  constructor
  · have hinj : Function.Injective (List.map Value.text) :=
      List.map_injective_iff.mpr fun a b => Value.text.inj
    have hnames := congrArg (List.map Prod.fst) hput
    rw [List.map_map, List.map_map] at hnames
    refine hinj ?_
    rw [List.map_map]
    exact hnames
  · have hvalues := congrArg (List.map Prod.snd) hput
    rw [List.map_map, List.map_map] at hvalues
    refine hvalues.trans ?_
    unfold settle
    rw [← List.filterMap_eq_map]
    refine List.filterMap_congr fun u hu => ?_
    obtain ⟨i, hi⟩ := Option.isSome_iff_exists.mp (isSome_lastFor hlength (mem_distinct.mp hu))
    rw [Function.comp_apply, Function.comp_apply, hi]
    rfl

end AccountLint.Document

import Mathlib.Data.List.Infix
import Mathlib.Data.List.TakeWhile
import AccountLint.Proofs.Lists
import AccountLint.Rule.Paths

/-! Qualified names and patterns. Names are compared as texts, by their lengths and endings; for
names that are made of segments this compares whole segments from the last one on. -/
namespace AccountLint.Text

/-- A segment of a name: there is something in it, but nothing that parts segments or opens generic
arguments. -/
def IsSegment (s : String) : Prop := s ≠ "" ∧ ':' ∉ s.toList ∧ '<' ∉ s.toList

instance (s : String) : Decidable (IsSegment s) := inferInstanceAs (Decidable (_ ∧ _ ∧ _))

/-- A name that is made of segments, of one at least. -/
structure QualifiedName where
  segments : List String
  ne_nil : segments ≠ []
  isSegment : ∀ s ∈ segments, IsSegment s

/-- The segments with `::` between them. -/
def QualifiedName.text (n : QualifiedName) : String := "::".intercalate n.segments

def marked (segments : List String) : List Char := segments.flatMap fun s => ':' :: ':' :: s.toList

@[simp] theorem marked_nil : marked [] = [] := rfl

@[simp] theorem marked_cons (s : String) (ss : List String) :
    marked (s :: ss) = ':' :: ':' :: (s.toList ++ marked ss) := rfl

theorem marked_append (ss ts : List String) : marked (ss ++ ts) = marked ss ++ marked ts :=
  List.flatMap_append

theorem cons_cons_toList_intercalate {ss : List String} (h : ss ≠ []) :
    ':' :: ':' :: ("::".intercalate ss).toList = marked ss := by
  rw [String.toList_intercalate]
  induction ss with
  | nil => exact absurd rfl h
  | cons s ss ih =>
    cases ss with
    | nil => simp
    | cons t ss =>
      rw [List.map_cons, List.intercalate_cons_of_ne_nil (by simp), marked_cons, ← ih (by simp)]
      simp

section Suffixes

/-- What begins with a colon cannot begin inside a segment. -/
theorem suffix_of_suffix_append {segment rest cs : List Char} (hs : ':' ∉ segment)
    (h : ':' :: cs <:+ segment ++ rest) : ':' :: cs <:+ rest := by
  induction segment with
  | nil => exact h
  | cons c segment ih =>
    rw [List.mem_cons, not_or] at hs
    rcases List.suffix_cons_iff.mp h with h | h
    · exact absurd (List.cons.inj h).1 hs.1
    · exact ih hs.2 h

private theorem takeWhile_append_marked {segment : List Char} (hs : ':' ∉ segment)
    (ss : List String) :
    (segment ++ marked ss).takeWhile (· != ':') = segment := by
  rw [List.takeWhile_append_of_pos fun c hc => by simpa using ne_of_mem_of_not_mem hc hs]
  cases ss <;> simp

private theorem append_marked_inj {s t : List Char} {ss ts : List String} (hs : ':' ∉ s)
    (ht : ':' ∉ t) (h : s ++ marked ss = t ++ marked ts) : s = t ∧ marked ss = marked ts := by
  have heq : s = t := by
    rw [← takeWhile_append_marked hs ss, h, takeWhile_append_marked ht ts]
  subst heq
  exact ⟨rfl, List.append_cancel_left h⟩

variable {ss ts : List String}

private theorem marked_inj (hs : ∀ s ∈ ss, ':' ∉ s.toList) (ht : ∀ t ∈ ts, ':' ∉ t.toList)
    (h : marked ss = marked ts) : ss = ts := by
  induction ss generalizing ts with
  | nil =>
    cases ts with
    | nil => rfl
    | cons t ts => cases h
  | cons s ss ih =>
    cases ts with
    | nil => cases h
    | cons t ts =>
      rw [List.forall_mem_cons] at hs ht
      simp only [marked_cons, List.cons.injEq, true_and] at h
      obtain ⟨heq, hrest⟩ := append_marked_inj hs.1 ht.1 h
      rw [String.toList_inj.mp heq, ih hs.2 ht.2 hrest]

/-- An ending of a text that begins with `::` is made of its last segments. -/
theorem marked_suffix_iff (hs : ∀ s ∈ ss, ':' ∉ s.toList) (ht : ∀ t ∈ ts, t ≠ "" ∧ ':' ∉ t.toList) :
    marked ss <:+ marked ts ↔ ss <:+ ts := by
  constructor
  · intro h
    induction ts with
    | nil =>
      have hnil : marked ss = marked [] := List.suffix_nil.mp h
      rw [marked_inj hs (by simp) hnil]
    | cons t ts ih =>
      rw [List.forall_mem_cons] at ht
      obtain ⟨⟨hne, hcolon⟩, ht⟩ := ht
      cases ss with
      | nil => exact List.nil_suffix
      | cons s ss =>
        -- the ending begins at the first colon, at the second, inside the segment or behind it
        simp only [marked_cons] at h
        rcases List.suffix_cons_iff.mp h with h | h
        · have heq : marked (s :: ss) = marked (t :: ts) := h
          rw [marked_inj hs (List.forall_mem_cons.mpr ⟨hcolon, fun u hu => (ht u hu).2⟩) heq]
        · rcases List.suffix_cons_iff.mp h with h | h
          · have hhead : ':' :: (s.toList ++ marked ss) = t.toList ++ marked ts := (List.cons.inj h).2
            cases hchars : t.toList with
            | nil => exact absurd (String.toList_eq_nil_iff.mp hchars) hne
            | cons c cs =>
              rw [hchars] at hhead hcolon
              exact absurd (List.cons.inj hhead).1 fun heq => hcolon (heq ▸ List.mem_cons_self)
          · exact (ih ht (suffix_of_suffix_append hcolon h)).trans (List.suffix_cons t ts)
  · rintro ⟨before, rfl⟩
    rw [marked_append]
    exact List.suffix_append _ _

end Suffixes

theorem withoutGenerics_eq_self {name : String} (h : '<' ∉ name.toList) :
    withoutGenerics name = name := by
  unfold withoutGenerics
  rw [List.takeWhile_eq_self_iff.mpr fun c hc => by simpa using ne_of_mem_of_not_mem hc h,
    String.ofList_toList]

namespace QualifiedName

theorem marked_segments (n : QualifiedName) : marked n.segments = ':' :: ':' :: n.text.toList :=
  (cons_cons_toList_intercalate n.ne_nil).symm

private theorem length_marked (n : QualifiedName) :
    (marked n.segments).length = n.text.length + 2 := by
  rw [marked_segments, List.length_cons, List.length_cons, String.length_toList]

private theorem suffix_iff (a b : QualifiedName) :
    marked a.segments <:+ marked b.segments ↔ a.segments <:+ b.segments :=
  marked_suffix_iff (fun s hs => (a.isSegment s hs).2.1)
    fun s hs => ⟨(b.isSegment s hs).1, (b.isSegment s hs).2.1⟩

theorem segments_eq_iff (a b : QualifiedName) : a.segments = b.segments ↔ a.text = b.text := by
  constructor
  · intro h
    unfold text
    rw [h]
  · intro h
    refine marked_inj (fun s hs => (a.isSegment s hs).2.1) (fun s hs => (b.isSegment s hs).2.1) ?_
    rw [marked_segments, marked_segments, h]

private theorem length_le_of_suffix {a b : QualifiedName} (h : a.segments <:+ b.segments) :
    a.text.length ≤ b.text.length := by
  have hle := ((suffix_iff a b).mpr h).length_le
  rw [length_marked, length_marked] at hle
  omega

/-- A name ends another one, behind a `::`, just if its segments are the last ones there and there
are others before them. -/
theorem cons_cons_suffix_iff (a b : QualifiedName) :
    ':' :: ':' :: a.text.toList <:+ b.text.toList ↔
      a.segments <:+ b.segments ∧ a.text ≠ b.text := by
  have hb : b.text.toList <:+ marked b.segments := by
    rw [marked_segments]
    exact (List.suffix_cons _ _).trans (List.suffix_cons _ _)
  rw [← marked_segments]
  constructor
  · intro h
    refine ⟨(suffix_iff a b).mp (h.trans hb), fun heq => ?_⟩
    have hle := h.length_le
    rw [length_marked, heq, String.length_toList] at hle
    omega
  · rintro ⟨h, hne⟩
    refine List.suffix_of_suffix_length_le ((suffix_iff a b).mpr h) hb ?_
    obtain ⟨before, hsplit⟩ := h
    cases before with
    | nil => exact absurd ((segments_eq_iff a b).mp hsplit) hne
    | cons s before =>
      have hlength := length_marked b
      rw [← hsplit, marked_append, List.length_append, marked_cons] at hlength
      simp only [List.length_cons, List.length_append] at hlength
      rw [String.length_toList]
      omega

theorem not_mem_text (n : QualifiedName) : '<' ∉ n.text.toList := by
  intro h
  have hmem : '<' ∈ marked n.segments := by
    rw [marked_segments]
    exact List.mem_cons_of_mem _ (List.mem_cons_of_mem _ h)
  obtain ⟨s, hs, hc⟩ := List.mem_flatMap.mp hmem
  exact (n.isSegment s hs).2.2 (by simpa using hc)

theorem text_ne_empty (n : QualifiedName) : n.text ≠ "" := by
  intro h
  have hlength := length_marked n
  rw [h] at hlength
  cases hs : n.segments with
  | nil => exact n.ne_nil hs
  | cons s ss =>
    have hne := (n.isSegment s (by rw [hs]; exact List.mem_cons_self)).1
    have hpos : s.length ≠ 0 := fun h0 => hne (String.length_eq_zero_iff.mp h0)
    rw [hs, marked_cons] at hlength
    simp only [List.length_cons, List.length_append, String.length_toList, String.length_empty] at hlength
    omega

/-- A pattern and a name agree just if the segments of one of them end those of the other. -/
theorem nameMatches_iff (pattern name : QualifiedName) :
    nameMatches pattern.text name.text = true ↔
      pattern.segments <:+ name.segments ∨ name.segments <:+ pattern.segments := by
  unfold nameMatches
  rw [if_neg (by simpa using name.text_ne_empty), withoutGenerics_eq_self name.not_mem_text]
  dsimp only
  split
  · rename_i heq
    rw [(segments_eq_iff name pattern).mpr (eq_of_beq heq)]
    simp
  · rename_i hne
    have hne : name.text ≠ pattern.text := by simpa using hne
    split
    · rename_i hlt
      rw [List.isSuffixOf_iff_suffix, cons_cons_suffix_iff]
      constructor
      · exact fun h => Or.inr h.1
      · rintro (h | h)
        · exact absurd (length_le_of_suffix h) (by omega)
        · exact ⟨h, hne⟩
    · rename_i hge
      rw [List.isSuffixOf_iff_suffix, cons_cons_suffix_iff]
      constructor
      · exact fun h => Or.inl h.1
      · rintro (h | h)
        · exact ⟨h, hne.symm⟩
        · -- an ending that is no shorter is the whole
          have hle := length_le_of_suffix h
          have hmarked := ((suffix_iff name pattern).mpr h).eq_of_length (by
            rw [length_marked, length_marked]
            omega)
          rw [marked_segments, marked_segments] at hmarked
          simp only [List.cons.injEq, true_and, String.toList_inj] at hmarked
          exact absurd hmarked hne

/-- A name that ends another one and agrees with no further patterns is the same: with a segment
less, it would agree with a pattern that has another segment in its place. -/
theorem segments_eq_of_suffix {a b : QualifiedName} (hsuffix : a.segments <:+ b.segments)
    (h : ∀ pattern : QualifiedName,
      nameMatches pattern.text a.text = true → nameMatches pattern.text b.text = true) :
    a.segments = b.segments := by
  obtain ⟨before, hsplit⟩ := hsuffix
  rcases List.eq_nil_or_concat before with rfl | ⟨before, s, rfl⟩
  · exact hsplit
  have hs : IsSegment s := b.isSegment s (by rw [← hsplit]; simp)
  let pattern : QualifiedName :=
    { segments := (s ++ "x") :: a.segments
      ne_nil := List.cons_ne_nil _ _
      isSegment := List.forall_mem_cons.mpr
        ⟨⟨by simp, by simpa using hs.2.1, by simpa using hs.2.2⟩, a.isSegment⟩ }
  have hmatch := (nameMatches_iff pattern b).mp
    (h pattern ((nameMatches_iff pattern a).mpr (Or.inr (List.suffix_cons _ _))))
  have hlength : a.segments.length < b.segments.length := by
    rw [← hsplit, List.length_append, List.length_concat]
    omega
  have hat : pattern.segments.reverse[a.segments.length]? = b.segments.reverse[a.segments.length]? := by
    rcases hmatch with hmatch | hmatch
    · exact (getElem?_reverse_of_suffix hmatch (by simp [pattern])).symm
    · exact getElem?_reverse_of_suffix hmatch hlength
  have hlast : b.segments.reverse[a.segments.length]? = some s := by
    rw [← hsplit]
    simp
  rw [hlast] at hat
  simp [pattern, String.append_eq_left_iff] at hat

/-- A name that agrees with the same patterns as another one is the same. -/
theorem segments_eq_of_nameMatches {a b : QualifiedName}
    (h : ∀ pattern : QualifiedName, nameMatches pattern.text a.text = nameMatches pattern.text b.text) :
    a.segments = b.segments := by
  have hself : nameMatches a.text b.text = true := by
    rw [← h, nameMatches_iff]
    exact Or.inl List.suffix_rfl
  rcases (nameMatches_iff a b).mp hself with hsuffix | hsuffix
  · exact segments_eq_of_suffix hsuffix fun pattern hp => h pattern ▸ hp
  · exact (segments_eq_of_suffix hsuffix fun pattern hp => (h pattern).symm ▸ hp).symm

/-- Patterns and names that are made of segments are compared segment by segment from the last one
on: they agree just if the segments of one of them end those of the other. So every name agrees with
itself, pattern and name may be exchanged, and no segment agrees with a part of another. -/
theorem pathMatches_eq_suffix (pattern name : QualifiedName) :
    pathMatches pattern.text (some (.text name.text)) =
        .ok (decide (pattern.segments <:+ name.segments ∨ name.segments <:+ pattern.segments)) ∧
      pathMatches name.text (some (.text name.text)) = .ok true ∧
      pathMatches name.text (some (.text pattern.text)) =
        pathMatches pattern.text (some (.text name.text)) ∧
      (pathMatches pattern.text (some (.text name.text)) = .ok true →
        ∀ i, i < pattern.segments.length → i < name.segments.length →
          pattern.segments.reverse[i]? = name.segments.reverse[i]?) := by
  have hmatches : ∀ a b : QualifiedName, pathMatches a.text (some (.text b.text)) =
      .ok (decide (a.segments <:+ b.segments ∨ b.segments <:+ a.segments)) := by
    intro a b
    rw [← Bool.eq_iff_iff.mpr ((nameMatches_iff a b).trans decide_eq_true_iff.symm)]
    rfl
  refine ⟨hmatches pattern name, ?_, ?_, ?_⟩
  · rw [hmatches, decide_eq_true (Or.inl List.suffix_rfl)]
  · rw [hmatches, hmatches]
    simp only [or_comm]
  · intro h i hp hn
    rw [hmatches] at h
    rcases of_decide_eq_true (Except.ok.inj h) with h | h
    · exact (getElem?_reverse_of_suffix h hp).symm
    · exact getElem?_reverse_of_suffix h hn

example : nameMatches "pubkey::Pubkey" "my_pubkey::Pubkey" = false := by decide +kernel

end QualifiedName
end AccountLint.Text

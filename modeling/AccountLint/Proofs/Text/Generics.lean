import AccountLint.Proofs.Program.Behind
import AccountLint.Proofs.Text.Segments

/-! Generic arguments that are spelled out in names. A pattern is compared with a name up to the
first of them only, so that those of the last segment are ignored and others hide the segments
behind them. The name of a type is what stands behind the last `::`, and keeps the arguments that
end it. -/
namespace AccountLint
namespace Text

/-- Text in which every `<` is closed by a `>`. -/
inductive Balanced : List Char → Prop where
  | nil : Balanced []
  | char {c : Char} {cs : List Char} (hc : c ≠ '<' ∧ c ≠ '>') (hcs : Balanced cs) : Balanced (c :: cs)
  | group {inner cs : List Char} (hinner : Balanced inner) (hcs : Balanced cs) :
      Balanced ('<' :: inner ++ '>' :: cs)

/-- Generic arguments in angle brackets, or none. -/
def IsArguments (s : String) : Prop :=
  s = "" ∨ ∃ inner, Balanced inner ∧ s.toList = '<' :: inner ++ ['>']

/-- A name that is made of segments, each with its generic arguments. -/
structure GenericName where
  parts : List (String × String)
  ne_nil : parts ≠ []
  isSegment : ∀ x ∈ parts, IsSegment x.1
  isArguments : ∀ x ∈ parts, IsArguments x.2

/-- The segments up to the first one with arguments. -/
def leading : List (String × String) → List String
  | [] => []
  | x :: parts => if x.2 = "" then x.1 :: leading parts else [x.1]

private theorem leading_begins (parts : List (String × String)) :
    leading parts <+: parts.map Prod.fst := by
  induction parts with
  | nil => exact List.prefix_rfl
  | cons x parts ih =>
    rw [leading, List.map_cons]
    split
    · exact List.cons_prefix_cons.mpr ⟨rfl, ih⟩
    · exact List.cons_prefix_cons.mpr ⟨rfl, List.nil_prefix⟩

private theorem leading_eq_iff (parts : List (String × String)) :
    leading parts = parts.map Prod.fst ↔ ∀ x ∈ parts.dropLast, x.2 = "" := by
  induction parts with
  | nil => simp [leading]
  | cons x parts ih =>
    cases parts with
    | nil => simp [leading]
    | cons y parts =>
      rw [leading, List.dropLast_cons_cons, List.forall_mem_cons, ← ih]
      by_cases hx : x.2 = ""
      · simp [hx]
      · simp [hx]

namespace GenericName

def text (n : GenericName) : String := "::".intercalate (n.parts.map fun x => x.1 ++ x.2)

def bare (n : GenericName) : QualifiedName where
  segments := n.parts.map Prod.fst
  ne_nil := by simpa using n.ne_nil
  isSegment := List.forall_mem_map.mpr n.isSegment

/-- The name up to the first segment with arguments. -/
def cut (n : GenericName) : QualifiedName where
  segments := leading n.parts
  ne_nil := by
    cases h : n.parts with
    | nil => exact absurd h n.ne_nil
    | cons x parts =>
      rw [leading]
      split <;> simp
  isSegment s hs := n.bare.isSegment s ((leading_begins n.parts).subset hs)

def last (n : GenericName) : String × String := n.parts.getLast n.ne_nil

end GenericName

private theorem takeWhile_marked {parts : List (String × String)} (hs : ∀ x ∈ parts, IsSegment x.1)
    (ha : ∀ x ∈ parts, IsArguments x.2) :
    (marked (parts.map fun x => x.1 ++ x.2)).takeWhile (· != '<') = marked (leading parts) := by
  induction parts with
  | nil => rfl
  | cons x parts ih =>
    rw [List.forall_mem_cons] at hs ha
    have hsegment : ∀ c ∈ x.1.toList, (c != '<') = true := fun c hc => by
      simpa using ne_of_mem_of_not_mem hc hs.1.2.2
    rw [List.map_cons, marked_cons, String.toList_append, List.append_assoc,
      List.takeWhile_cons_of_pos rfl, List.takeWhile_cons_of_pos rfl,
      List.takeWhile_append_of_pos hsegment, leading]
    rcases ha.1 with hnone | ⟨inner, _, harguments⟩
    · rw [hnone, if_pos rfl, String.toList_empty, List.nil_append, ih hs.2 ha.2, marked_cons]
    · have hne : x.2 ≠ "" := by
        intro h
        rw [h] at harguments
        cases harguments
      rw [harguments, if_neg hne, List.cons_append, List.cons_append,
        List.takeWhile_cons_of_neg (by simp)]
      simp

/-- Names are compared as far as their generic arguments. -/
theorem nameMatches_of_withoutGenerics {a b : String} (ha : a ≠ "") (hb : b ≠ "")
    (h : withoutGenerics a = withoutGenerics b) (pattern : String) :
    nameMatches pattern a = nameMatches pattern b := by
  have hempty : a.isEmpty = b.isEmpty := Bool.eq_iff_iff.mpr (by simp [String.isEmpty_iff, ha, hb])
  unfold nameMatches
  rw [hempty, h]

section LastSegment

private theorem splitColons_ne_nil (cs : List Char) : splitColons cs ≠ [] := by
  fun_cases splitColons cs <;> simp

private theorem splitColons_cons {c : Char} (hc : c ≠ ':') {cs s : List Char}
    {ss : List (List Char)} (h : splitColons cs = s :: ss) :
    splitColons (c :: cs) = (c :: s) :: ss := by
  rw [splitColons]
  · rw [h]
  · simp [hc]

/-- Splitting begins with what stands before the first `::`, or with the whole. -/
theorem splitColons_append {s : List Char} (hs : ':' ∉ s) {cs : List Char}
    (hcs : cs = [] ∨ ∃ rest, cs = ':' :: ':' :: rest) : ∃ ss, splitColons (s ++ cs) = s :: ss := by
  induction s with
  | nil =>
    rcases hcs with rfl | ⟨rest, rfl⟩
    · exact ⟨[], rfl⟩
    · exact ⟨splitColons rest, by rw [List.nil_append, splitColons]⟩
  | cons c s ih =>
    rw [List.mem_cons, not_or] at hs
    obtain ⟨ss, h⟩ := ih hs.2
    exact ⟨ss, splitColons_cons (Ne.symm hs.1) h⟩

private theorem lastSegment_of_splitColons {name : String} {s : List Char} {ss : List (List Char)}
    (h : splitColons name.toList.reverse = s :: ss) : lastSegment name = String.ofList s.reverse := by
  unfold lastSegment segmentsFromEnd
  rw [h]
  rfl

/-- A joined name ends with its last segment, before which there is nothing or `::`. -/
theorem toList_intercalate_concat (ss : List String) (s : String) :
    ∃ cs, ("::".intercalate (ss ++ [s])).toList = cs ++ s.toList ∧
      (cs = [] ∨ ∃ rest, cs = rest ++ [':', ':']) := by
  by_cases hss : ss = []
  · subst hss
    exact ⟨[], by simp, Or.inl rfl⟩
  · have hmarked := cons_cons_toList_intercalate
      (List.append_ne_nil_of_right_ne_nil ss (List.cons_ne_nil s []))
    rw [marked_append, ← cons_cons_toList_intercalate hss] at hmarked
    simp only [List.cons_append, List.cons.injEq, true_and] at hmarked
    refine ⟨("::".intercalate ss).toList ++ [':', ':'], ?_, Or.inr ⟨_, rfl⟩⟩
    rw [hmarked, marked_cons, marked_nil, List.append_nil, List.append_assoc]
    rfl

private theorem lastSegment_intercalate {s : String} (hs : ':' ∉ s.toList) (ss : List String) :
    lastSegment ("::".intercalate (ss ++ [s])) = s := by
  obtain ⟨cs, heq, hcs⟩ := toList_intercalate_concat ss s
  have hreverse : cs.reverse = [] ∨ ∃ rest, cs.reverse = ':' :: ':' :: rest := by
    rcases hcs with rfl | ⟨rest, rfl⟩
    · exact Or.inl rfl
    · exact Or.inr ⟨rest.reverse, by simp⟩
  obtain ⟨rest, hsplit⟩ := splitColons_append (List.mem_reverse.not.mpr hs) hreverse
  rw [← List.reverse_append, ← heq] at hsplit
  rw [lastSegment_of_splitColons hsplit, List.reverse_reverse, String.ofList_toList]

/-- A name that is closed by `>` has a last segment that is. -/
theorem lastSegment_of_closed {name : String} {cs : List Char} (h : name.toList = cs ++ ['>']) :
    ∃ s, lastSegment name = s ++ ">" := by
  obtain ⟨s, ss, hsplit⟩ := List.exists_cons_of_ne_nil (splitColons_ne_nil cs.reverse)
  have hcons := splitColons_cons (by decide : '>' ≠ ':') hsplit
  rw [← List.reverse_concat, ← h] at hcons
  refine ⟨String.ofList s.reverse, ?_⟩
  rw [lastSegment_of_splitColons hcons, List.reverse_cons, String.ofList_append]

end LastSegment

namespace GenericName

private theorem marked_text (n : GenericName) :
    ':' :: ':' :: n.text.toList = marked (n.parts.map fun x => x.1 ++ x.2) :=
  cons_cons_toList_intercalate (by simpa using n.ne_nil)

private theorem withoutGenerics_text (n : GenericName) : withoutGenerics n.text = n.cut.text := by
  have h := takeWhile_marked n.isSegment n.isArguments
  rw [← marked_text, List.takeWhile_cons_of_pos rfl, List.takeWhile_cons_of_pos rfl,
    show leading n.parts = n.cut.segments from rfl, QualifiedName.marked_segments] at h
  simp only [List.cons.injEq, true_and] at h
  unfold withoutGenerics
  rw [h, String.ofList_toList]

private theorem text_ne_empty (n : GenericName) : n.text ≠ "" := by
  intro h
  have hcut := n.withoutGenerics_text
  rw [h] at hcut
  exact n.cut.text_ne_empty hcut.symm

private theorem nameMatches_text (n : GenericName) (pattern : String) :
    nameMatches pattern n.text = nameMatches pattern n.cut.text :=
  nameMatches_of_withoutGenerics n.text_ne_empty n.cut.text_ne_empty
    (by rw [withoutGenerics_text, withoutGenerics_eq_self n.cut.not_mem_text]) pattern

/-- All patterns agree with a name as they do without its arguments just if no arguments stand
before the last segment. -/
theorem nameMatches_eq_bare_iff (n : GenericName) :
    (∀ pattern, nameMatches pattern n.text = nameMatches pattern n.bare.text) ↔
      ∀ x ∈ n.parts.dropLast, x.2 = "" := by
  rw [← leading_eq_iff]
  constructor
  · intro h
    have heq : n.cut.segments = n.bare.segments :=
      QualifiedName.segments_eq_of_nameMatches fun pattern => by rw [← nameMatches_text, h]
    exact heq
  · intro h pattern
    rw [nameMatches_text, (QualifiedName.segments_eq_iff n.cut n.bare).mp h]

private theorem parts_eq (n : GenericName) : n.parts = n.parts.dropLast ++ [n.last] :=
  (List.dropLast_append_getLast n.ne_nil).symm

private theorem lastSegment_bare (n : GenericName) : lastSegment n.bare.text = n.last.1 := by
  have hlast := n.isSegment n.last (List.getLast_mem n.ne_nil)
  have hsegments : n.bare.segments = n.parts.dropLast.map Prod.fst ++ [n.last.1] := by
    change n.parts.map Prod.fst = _
    rw [parts_eq n, List.map_append, List.dropLast_concat, List.map_singleton]
  unfold QualifiedName.text
  rw [hsegments]
  exact lastSegment_intercalate hlast.2.1 _

private theorem text_eq (n : GenericName) :
    n.text = "::".intercalate (n.parts.dropLast.map (fun x => x.1 ++ x.2) ++ [n.last.1 ++ n.last.2]) := by
  unfold text
  rw [parts_eq n, List.map_append, List.dropLast_concat, List.map_singleton]

private theorem lastSegment_text_of_none (n : GenericName) (h : n.last.2 = "") :
    lastSegment n.text = n.last.1 := by
  rw [text_eq, h, String.append_empty]
  exact lastSegment_intercalate (n.isSegment n.last (List.getLast_mem n.ne_nil)).2.1 _

private theorem lastSegment_text_of_some (n : GenericName) (h : n.last.2 ≠ "") :
    ∃ s, lastSegment n.text = s ++ ">" := by
  obtain ⟨inner, _, harguments⟩ :=
    (n.isArguments n.last (List.getLast_mem n.ne_nil)).resolve_left h
  rw [text_eq]
  obtain ⟨cs, heq, _⟩ := toList_intercalate_concat
    (n.parts.dropLast.map fun x => x.1 ++ x.2) (n.last.1 ++ n.last.2)
  rw [String.toList_append, harguments, ← List.append_assoc, ← List.append_assoc] at heq
  exact lastSegment_of_closed heq

end GenericName
end Text

def TypeDecl.withPath (t : TypeDecl) (path : String) : TypeDecl := { t with path := .text path }

def Program.withPath (p : Program) (k : Nat) (path : String) : Program :=
  { p with types := p.types.modify k (·.withPath path) }

namespace Program

variable {p : Program} {k : Nat} {t : TypeDecl} {path : String}

private theorem typeAt?_withPath_of_ne {i : Int} (hi : i ≠ k) :
    typeAt? (p.withPath k path).types i = typeAt? p.types i := by
  unfold typeAt? withPath
  split
  · exact List.getElem?_modify_ne _ _ (by omega)
  · rfl

private theorem typeAt?_withPath (hk : p.types[k]? = some t) :
    typeAt? (p.withPath k path).types k = some (t.withPath path) := by
  simp [typeAt?, withPath, hk]

private theorem unwrap_withPath (hk : p.types[k]? = some t)
    (hname : (t.withPath path).name = t.name) (wrappers : List String) (type : Option TypeRef) :
    (p.withPath k path).unwrap wrappers type = p.unwrap wrappers type := by
  refine unwrapFrom_congr (fun i => ?_) wrappers [] type
  by_cases hi : i = k
  · have hat : typeAt? p.types k = some t := by simpa [typeAt?] using hk
    rw [hi, typeAt?_withPath hk, hat, Option.map_some, Option.map_some, hname]
    rfl
  · rw [typeAt?_withPath_of_ne hi]

private theorem unwrap_of_name {i : Int} {name : String} (hi : typeAt? p.types i = some t)
    (hname : t.name = .ok name) {wrappers : List String} (h : name ∉ wrappers) :
    p.unwrap wrappers (some (.index i)) = .ok (some (.index i)) := by
  unfold unwrap
  rw [unwrapFrom_of_some rfl hi, hname]
  refine bind_eq_ok.mpr ⟨name, rfl, ?_⟩
  rw [if_neg (by simpa using h)]
  rfl

end Program

namespace Text.GenericName

/-- Generic arguments in a name are not passed over. A name is compared up to the first of them, so
that all patterns agree with it as they do without arguments just if none stand before the last
segment. The name of a type is the last segment of its path if no arguments stand there; otherwise
it ends in `>`, and the type is not taken for a wrapper. -/
theorem spelled_arguments (n : GenericName) :
    (∀ pattern, pathMatches pattern (some (.text n.text)) =
        pathMatches pattern (some (.text n.cut.text))) ∧
      ((∀ pattern, pathMatches pattern (some (.text n.text)) =
          pathMatches pattern (some (.text n.bare.text))) ↔ ∀ x ∈ n.parts.dropLast, x.2 = "") ∧
      ∀ (p : Program) (k : Nat) (t : TypeDecl), p.types[k]? = some t → t.path = .text n.bare.text →
        t.name = .ok n.last.1 ∧
        (n.last.2 = "" → (t.withPath n.text).name = t.name ∧
          ∀ wrappers type, (p.withPath k n.text).unwrap wrappers type = p.unwrap wrappers type) ∧
        (n.last.2 ≠ "" → (∃ s, (t.withPath n.text).name = .ok (s ++ ">")) ∧
          ∀ wrappers, (∀ s, s ++ ">" ∉ wrappers) →
            (p.withPath k n.text).unwrap wrappers (some (.index k)) = .ok (some (.index k))) := by
  refine ⟨fun pattern => congrArg Except.ok (n.nameMatches_text pattern), ?_, ?_⟩
  · rw [← nameMatches_eq_bare_iff]
    exact forall_congr' fun pattern => ⟨Except.ok.inj, congrArg Except.ok⟩
  · intro p k t hk hpath
    have hname : t.name = .ok n.last.1 := by
      unfold TypeDecl.name
      rw [hpath, ← lastSegment_bare]
    refine ⟨hname, fun h => ?_, fun h => ?_⟩
    · have hsame : (t.withPath n.text).name = t.name := by
        rw [hname, ← n.lastSegment_text_of_none h]
        rfl
      exact ⟨hsame, Program.unwrap_withPath hk hsame⟩
    · obtain ⟨s, hs⟩ := n.lastSegment_text_of_some h
      have hclosed : (t.withPath n.text).name = .ok (s ++ ">") := congrArg Except.ok hs
      exact ⟨⟨s, hclosed⟩, fun wrappers hw =>
        Program.unwrap_of_name (Program.typeAt?_withPath hk) hclosed (hw s)⟩

private theorem isArguments_of_plain {s : String} (inner : List Char)
    (h : s.toList = '<' :: inner ++ ['>']) (hinner : ∀ c ∈ inner, c ≠ '<' ∧ c ≠ '>') :
    IsArguments s := by
  refine Or.inr ⟨inner, ?_, h⟩
  clear h
  induction inner with
  | nil => exact .nil
  | cons c cs ih =>
    rw [List.forall_mem_cons] at hinner
    exact .char hinner.1 (ih hinner.2)

def vecNew : GenericName where
  parts := [("Vec", "<u8>"), ("new", "")]
  ne_nil := by decide
  isSegment := by decide
  isArguments := List.forall_mem_cons.mpr ⟨isArguments_of_plain ['u', '8'] rfl (by simp),
    List.forall_mem_singleton.mpr (Or.inl rfl)⟩

def result : GenericName where
  parts := [("core", ""), ("Result", "<T>")]
  ne_nil := by decide
  isSegment := by decide
  isArguments := List.forall_mem_cons.mpr ⟨Or.inl rfl,
    List.forall_mem_singleton.mpr (isArguments_of_plain ['T'] rfl (by simp))⟩

/-- A type, and a wrapper of it with a path. -/
def wrapping (path : String) : Program :=
  { types := [{ id := 0, path := .text "T", kind := .struct },
      { id := 1, path := .text path, args := [some (.index 0)] }] }

private theorem append_not_mem_resultWrappers (s : String) : s ++ ">" ∉ resultWrappers := by
  intro h
  have hlast : ∀ w ∈ resultWrappers, w.toList.getLast? ≠ some '>' := by decide
  exact hlast _ h (by simp)

theorem spelled_arguments_result :
    (wrapping result.bare.text).types[1]? =
        some { id := 1, path := .text result.bare.text, args := [some (.index 0)] } ∧
      result.last.2 ≠ "" ∧ (∀ s, s ++ ">" ∉ resultWrappers) ∧
      pathMatches "std::core::Result" (some (.text result.text)) = .ok true ∧
      ((wrapping result.bare.text).withPath 1 result.text).unwrap resultWrappers (some (.index 1)) =
        .ok (some (.index 1)) := by
  have hlast : result.last.2 ≠ "" := by decide
  have hmatches : pathMatches "std::core::Result" (some (.text result.bare.text)) = .ok true :=
    ok_of_toOption (by decide +kernel)
  obtain ⟨_, hbare, htype⟩ := spelled_arguments result
  have hall := hbare.mpr (by decide)
  exact ⟨rfl, hlast, append_not_mem_resultWrappers, (hall _).trans hmatches,
    ((htype _ 1 _ rfl rfl).2.2 hlast).2 _ append_not_mem_resultWrappers⟩

/-- Arguments that matter: those in the middle of a name keep it from agreeing with a pattern, and
those at its end keep a type from being taken for a wrapper. -/
theorem spelled_arguments_matter :
    pathMatches "alloc::vec::Vec::new" (some (.text vecNew.bare.text)) = .ok true ∧
      pathMatches "alloc::vec::Vec::new" (some (.text vecNew.text)) = .ok false ∧
      lastSegment result.bare.text = "Result" ∧ lastSegment result.text = "Result<T>" ∧
      (wrapping result.bare.text).unwrap resultWrappers (some (.index 1)) = .ok (some (.index 0)) ∧
      (wrapping result.text).unwrap resultWrappers (some (.index 1)) = .ok (some (.index 1)) :=
  ⟨ok_of_toOption (by decide +kernel), ok_of_toOption (by decide +kernel), by decide +kernel,
    by decide +kernel, ok_of_toOption (by decide +kernel), ok_of_toOption (by decide +kernel)⟩

end Text.GenericName
end AccountLint

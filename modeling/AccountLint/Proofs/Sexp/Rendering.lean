import Mathlib.Tactic.Common
import AccountLint.Document.Load
import AccountLint.Proofs.Sexp.Integers

/-! Written S-expressions. A value that is made of integers, texts and lists can be written in many
ways: texts with or without quotes, and with blanks and comments between the items. However it is
written, it is read as itself. -/
namespace AccountLint

namespace Sexp

/-- What may stand between expressions: blanks, and comments up to the end of their line. -/
inductive Gap : List Char → Prop where
  | nil : Gap []
  | blank {c : Char} {cs : List Char} (hc : Text.isSpace c = true) (hcs : Gap cs) : Gap (c :: cs)
  | comment {body cs : List Char} (hbody : '\n' ∉ body) (hcs : Gap cs) :
      Gap (';' :: body ++ '\n' :: cs)

/-- A character that has no meaning of its own: no blank, bracket, quote, apostrophe, semicolon or
backslash. -/
def isOrdinary (c : Char) : Bool :=
  !(Text.isSpace c || ['(', ')', '[', ']', '"', '\'', ';', '\\'].contains c)

/-- A text that stands for itself without quotes. -/
structure Bare (s : String) : Prop where
  ne_empty : s ≠ ""
  ordinary : ∀ c ∈ s.toList, isOrdinary c = true
  not_int : Numeral.int? s.toList = none
  not_float : Numeral.float? s.toList = none

def escape (c : Char) : List Char := if c == '\\' || c == '"' then ['\\', c] else [c]

end Sexp

namespace Value

mutual

inductive Written : Value → List Char → Prop where
  | int (i : Int) : Written (.int i) (toString i).toList
  | quoted (s : String) : Written (.text s) ('"' :: s.toList.flatMap Sexp.escape ++ ['"'])
  | bare {s : String} (hs : Sexp.Bare s) : Written (.text s) s.toList
  | list {vs : List Value} {gap cs : List Char} (hgap : Sexp.Gap gap) (hcs : WrittenItems vs cs) :
      Written (.list vs) ('(' :: gap ++ cs ++ [')'])

/-- A way to write the items of a list: there is something between two of them. -/
inductive WrittenItems : List Value → List Char → Prop where
  | nil : WrittenItems [] []
  | last {v : Value} {cs gap : List Char} (hcs : Written v cs) (hgap : Sexp.Gap gap) :
      WrittenItems [v] (cs ++ gap)
  | cons {v w : Value} {vs : List Value} {cs gap rest : List Char} (hcs : Written v cs)
      (hgap : Sexp.Gap gap) (hne : gap ≠ []) (hrest : WrittenItems (w :: vs) rest) :
      WrittenItems (v :: w :: vs) (cs ++ gap ++ rest)

end

/-- The values that can be written: those that are made of integers, texts and lists. -/
inductive Form : Value → Prop where
  | int (i : Int) : Form (.int i)
  | text (s : String) : Form (.text s)
  | list {vs : List Value} (h : ∀ v ∈ vs, Form v) : Form (.list vs)

/-- A text that holds a value, with a gap before and behind it. -/
def Renders (v : Value) (text : String) : Prop :=
  ∃ before cs behind, Sexp.Gap before ∧ v.Written cs ∧ Sexp.Gap behind ∧
    text.toList = before ++ cs ++ behind

end Value

namespace Sexp

/-- What may follow an atom. -/
def Stops : List Char → Prop
  | [] => True
  | c :: _ => endsAtom c = true

/-- The expressions in a text are pushed onto a stack, whatever comes before and behind them. -/
def Pushes (cs : List Char) (xs : List Sexp) : Prop :=
  ∀ (s : Stack) (n : Nat) (rest : List Char), Stops rest →
    (scan .between n (cs ++ rest)).foldlM take s =
      (scan .between (n + cs.length) rest).foldlM take ⟨xs.reverse ++ s.current, s.outer⟩

private theorem scan_between_cons (n : Nat) (c : Char) (cs : List Char) :
    scan .between n (c :: cs) = (begin n c cs).1 ++ scan (begin n c cs).2 (n + 1) cs :=
  rfl

private theorem scan_comment_cons (n : Nat) (c : Char) (cs : List Char) :
    scan .comment n (c :: cs) = scan (if c == '\n' then .between else .comment) (n + 1) cs :=
  rfl

private theorem scan_string_cons (sofar : List Char) (n : Nat) (c : Char) (cs : List Char) :
    scan (.string sofar false) n (c :: cs) =
      if c == '"' then .string (ofReversed sofar) :: scan .between (n + 1) cs
      else if c == '\\' then scan (.string sofar true) (n + 1) cs
      else scan (.string (c :: sofar) false) (n + 1) cs :=
  rfl

private theorem scan_string_escaped_cons (sofar : List Char) (n : Nat) (c : Char) (cs : List Char) :
    scan (.string sofar true) n (c :: cs) = scan (.string (stringEscape c ++ sofar) false) (n + 1) cs :=
  rfl

private theorem scan_atom_cons (sofar : List Char) (n : Nat) (c : Char) (cs : List Char) :
    scan (.atom sofar false) n (c :: cs) =
      if endsAtom c then
        .atom (ofReversed sofar) n :: (begin n c cs).1 ++ scan (begin n c cs).2 (n + 1) cs
      else if c == '\\' then scan (.atom sofar true) (n + 1) cs
      else scan (.atom (c :: sofar) false) (n + 1) cs :=
  rfl

private theorem scan_comment {body : List Char} (h : '\n' ∉ body) (n : Nat) (rest : List Char) :
    scan .comment n (body ++ '\n' :: rest) = scan .between (n + (body.length + 1)) rest := by
  induction body generalizing n with
  | nil => rfl
  | cons c body ih =>
    have hc : c ≠ '\n' := fun heq => h (heq ▸ List.mem_cons_self)
    have hbody : '\n' ∉ body := fun hm => h (List.mem_cons_of_mem _ hm)
    rw [List.cons_append, scan_comment_cons, if_neg (by simpa using hc), ih hbody, List.length_cons]
    congr 1
    omega

namespace Gap

variable {gap : List Char}

/-- Gaps are passed over. -/
theorem scan_between (h : Gap gap) (n : Nat) (rest : List Char) :
    scan .between n (gap ++ rest) = scan .between (n + gap.length) rest := by
  induction h generalizing n with
  | nil => rfl
  | blank hc _ ih =>
    rw [List.cons_append, scan_between_cons, List.length_cons]
    simp only [begin, hc, if_true, List.nil_append]
    rw [ih]
    congr 1
    omega
  | @comment body cs hbody _ ih =>
    have hbegin : ∀ rest, begin n ';' rest = ([], .comment) := fun _ => rfl
    rw [List.append_assoc, List.cons_append, scan_between_cons, hbegin, List.nil_append,
      List.cons_append, scan_comment hbody, ih]
    congr 1
    simp only [List.length_append, List.length_cons]
    omega

private theorem stops_append (h : Gap gap) {rest : List Char} (hrest : gap ≠ [] ∨ Stops rest) :
    Stops (gap ++ rest) := by
  cases h with
  | nil => exact hrest.resolve_left fun hne => hne rfl
  | blank hc _ =>
    unfold Stops
    simp [endsAtom, hc]
  | comment => rfl

end Gap

private theorem isOrdinary_iff {c : Char} :
    isOrdinary c = true ↔ Text.isSpace c = false ∧ c ≠ '(' ∧ c ≠ ')' ∧
    c ≠ '[' ∧ c ≠ ']' ∧ c ≠ '"' ∧ c ≠ '\'' ∧ c ≠ ';' ∧ c ≠ '\\' := by
  simp [isOrdinary]

private theorem scan_atom_stops {rest : List Char} (h : Stops rest) (sofar : List Char) (n : Nat) :
    scan (.atom sofar false) n rest = .atom (ofReversed sofar) n :: scan .between n rest := by
  cases rest with
  | nil => rfl
  | cons c rest =>
    have hc : endsAtom c = true := h
    rw [scan_atom_cons, if_pos hc, scan_between_cons, List.cons_append]

private theorem scan_atom {cs : List Char} (h : ∀ c ∈ cs, isOrdinary c = true) (sofar : List Char)
    (n : Nat) {rest : List Char} (hrest : Stops rest) :
    scan (.atom sofar false) n (cs ++ rest) =
      .atom (ofReversed (cs.reverse ++ sofar)) (n + cs.length) ::
        scan .between (n + cs.length) rest := by
  induction cs generalizing sofar n with
  | nil => exact scan_atom_stops hrest sofar n
  | cons c cs ih =>
    have hc := isOrdinary_iff.mp (h c List.mem_cons_self)
    rw [List.cons_append, scan_atom_cons, if_neg (by simp [endsAtom, isOpening, isClosing, hc]),
      if_neg (by simp [hc]),
      ih fun d hd => h d (List.mem_cons_of_mem _ hd)]
    rw [List.reverse_cons, List.append_assoc, List.length_cons, Nat.add_assoc, Nat.add_comm 1]
    rfl

private theorem begin_ordinary {c : Char} (h : isOrdinary c = true) (n : Nat) (rest : List Char) :
    begin n c rest = ([], .atom [c] false) := by
  have hc := isOrdinary_iff.mp h
  simp [begin, isOpening, isClosing, hc]

private theorem scan_escape (c : Char) (sofar : List Char) (n : Nat) (rest : List Char) :
    scan (.string sofar false) n (escape c ++ rest) =
      scan (.string (c :: sofar) false) (n + (escape c).length) rest := by
  unfold escape
  split
  · rename_i hc
    have hescape : stringEscape c = [c] := by simp [stringEscape, hc]
    rw [List.cons_append, scan_string_cons, if_neg (by decide), if_pos (by decide), List.cons_append,
      scan_string_escaped_cons, hescape]
    rfl
  · rename_i hc
    rw [Bool.or_eq_true_iff, not_or] at hc
    rw [List.cons_append, scan_string_cons, if_neg hc.2, if_neg hc.1]
    rfl

private theorem scan_quoted (text sofar : List Char) (n : Nat) (rest : List Char) :
    scan (.string sofar false) n (text.flatMap escape ++ '"' :: rest) =
      .string (ofReversed (text.reverse ++ sofar)) ::
        scan .between (n + (text.flatMap escape).length + 1) rest := by
  induction text generalizing sofar n with
  | nil => rfl
  | cons c text ih =>
    rw [List.flatMap_cons, List.append_assoc, scan_escape, ih, List.length_append, List.reverse_cons,
      List.append_assoc, Nat.add_assoc n]
    rfl

private theorem ofReversed_reverse (cs : List Char) :
    ofReversed (cs.reverse ++ []) = String.ofList cs := by
  rw [ofReversed, List.append_nil, List.reverse_reverse]

private theorem pushes_quoted (s : String) :
    Pushes ('"' :: s.toList.flatMap escape ++ ['"']) [.string s] := by
  intro stack n rest _
  have hbegin : ∀ rest, begin n '"' rest = ([], .string [] false) := fun _ => rfl
  rw [List.append_assoc, List.cons_append, scan_between_cons, hbegin, List.nil_append,
    List.singleton_append, scan_quoted, ofReversed_reverse, String.ofList_toList, List.foldlM_cons]
  simp only [List.length_append, List.length_cons, List.length_nil]
  change List.foldlM take _ _ = _
  congr 2
  omega

/-- An atom is pushed as what it is read as. -/
theorem pushes_atom {cs : List Char} {x : Sexp} (hne : cs ≠ [])
    (h : ∀ c ∈ cs, isOrdinary c = true) (hx : ∀ behind, ofAtom (String.ofList cs) behind = x) :
    Pushes cs [x] := by
  intro stack n rest hrest
  cases cs with
  | nil => exact absurd rfl hne
  | cons c cs =>
    have hordinary : ∀ d ∈ cs, isOrdinary d = true := fun d hd => h d (List.mem_cons_of_mem _ hd)
    rw [List.cons_append, scan_between_cons, begin_ordinary (h c List.mem_cons_self), List.nil_append,
      scan_atom hordinary [c] _ hrest, List.foldlM_cons]
    have htext : ofReversed (cs.reverse ++ [c]) = String.ofList (c :: cs) := by
      simp [ofReversed]
    rw [htext, take, hx, List.length_cons, Nat.add_assoc, Nat.add_comm 1]
    rfl

private theorem pushes_nil : Pushes [] [] := fun _ _ _ _ => rfl

/-- What is behind a gap is pushed later. -/
theorem Pushes.append {cs gap cs' : List Char} {xs xs' : List Sexp} (h : Pushes cs xs)
    (hgap : Gap gap) (h' : Pushes cs' xs') (hne : gap ≠ [] ∨ cs' = []) :
    Pushes (cs ++ gap ++ cs') (xs ++ xs') := by
  intro stack n rest hrest
  have hstops : Stops (gap ++ (cs' ++ rest)) := by
    refine hgap.stops_append (hne.imp_right fun hnil => ?_)
    rw [hnil]
    exact hrest
  rw [List.append_assoc, List.append_assoc, h _ _ _ hstops, hgap.scan_between, h' _ _ _ hrest,
    List.reverse_append, List.append_assoc, List.length_append, List.length_append]
  congr 2
  omega

/-- What is between brackets is pushed as a list. -/
theorem Pushes.list {gap cs : List Char} {xs : List Sexp} (hgap : Gap gap) (h : Pushes cs xs) :
    Pushes ('(' :: gap ++ cs ++ [')']) [.list xs] := by
  intro stack n rest _
  have hopening : ∀ rest, begin n '(' rest = ([.opening '('], .between) := fun _ => rfl
  have hclosing : ∀ n rest, begin n ')' rest = ([.closing ')' (')' :: rest)], .between) :=
    fun _ _ => rfl
  rw [List.append_assoc, List.append_assoc, List.cons_append, scan_between_cons, hopening,
    List.singleton_append, List.foldlM_cons]
  change List.foldlM take ⟨[], (.paren, stack.current) :: stack.outer⟩ _ = _
  rw [hgap.scan_between, List.singleton_append, h _ _ (')' :: rest) rfl, scan_between_cons, hclosing,
    List.singleton_append, List.foldlM_cons]
  simp only [List.append_nil, List.length_append, List.length_cons, List.length_nil]
  change List.foldlM take ⟨.list xs.reverse.reverse :: stack.current, stack.outer⟩ _ = _
  rw [List.reverse_reverse]
  congr 2
  omega

private theorem isOrdinary_of_mem_toString {i : Int} {c : Char} (h : c ∈ (toString i).toList) :
    isOrdinary c = true := by
  rcases Numeral.isDigit_or_eq_of_mem_toString h with rfl | h
  · decide
  · have hne : ∀ d : Char, d.isDigit = false → c ≠ d := fun d hd => Text.ne_of_isDigit h hd
    simp [isOrdinary, Text.isSpace_of_isDigit h, hne]

private theorem pushes_int (i : Int) : Pushes (toString i).toList [.int i] := by
  refine pushes_atom ?_ (fun c hc => isOrdinary_of_mem_toString hc) fun behind => ?_
  · rw [Numeral.toList_toString]
    exact fun hnil => Nat.toDigits_ne_nil (List.append_eq_nil_iff.mp hnil).2
  · rw [String.ofList_toList, ofAtom, Numeral.int?_toString]

private theorem Bare.pushes {s : String} (h : Bare s) : Pushes s.toList [.symbol s] := by
  refine pushes_atom ?_ h.ordinary fun behind => ?_
  · exact fun hnil => h.ne_empty (String.toList_eq_nil_iff.mp hnil)
  · rw [String.ofList_toList, ofAtom, h.not_int]
    dsimp only
    rw [h.not_float]

end Sexp

namespace Value

mutual

/-- A value that is written is pushed as an expression of that value. -/
theorem Written.pushes {v : Value} {cs : List Char} (h : v.Written cs) :
    ∃ x : Sexp, x.value = .ok v ∧ Sexp.Pushes cs [x] := by
  cases h with
  | int i => exact ⟨.int i, rfl, Sexp.pushes_int i⟩
  | quoted s => exact ⟨.string s, rfl, Sexp.pushes_quoted s⟩
  | bare hs => exact ⟨.symbol _, rfl, hs.pushes⟩
  | list hgap hcs =>
    obtain ⟨xs, hxs, hpushes⟩ := WrittenItems.pushes hcs
    refine ⟨.list xs, ?_, hpushes.list hgap⟩
    rw [Sexp.value, hxs]
    rfl

theorem WrittenItems.pushes {vs : List Value} {cs : List Char} (h : WrittenItems vs cs) :
    ∃ xs : List Sexp, Sexp.values xs = .ok vs ∧ Sexp.Pushes cs xs := by
  cases h with
  | nil => exact ⟨[], rfl, Sexp.pushes_nil⟩
  | last hcs hgap =>
    obtain ⟨x, hx, hpushes⟩ := hcs.pushes
    refine ⟨[x], ?_, ?_⟩
    · rw [Sexp.values, hx]
      rfl
    · have hall := hpushes.append hgap Sexp.pushes_nil (Or.inr rfl)
      rwa [List.append_nil] at hall
  | cons hcs hgap hne hrest =>
    obtain ⟨x, hx, hpushes⟩ := hcs.pushes
    obtain ⟨xs, hxs, hrest⟩ := hrest.pushes
    refine ⟨x :: xs, ?_, hpushes.append hgap hrest (Or.inl hne)⟩
    rw [Sexp.values, hx, hxs]
    rfl

end

private theorem Renders.read {v : Value} {text : String} (h : v.Renders text) :
    ∃ x : Sexp, x.value = .ok v ∧ Sexp.read text = .ok x := by
  obtain ⟨before, cs, behind, hbefore, hcs, hbehind, htext⟩ := h
  obtain ⟨x, hx, hpushes⟩ := hcs.pushes
  have hstops : Sexp.Stops (behind ++ []) := hbehind.stops_append (Or.inr trivial)
  have hscan : (Sexp.tokens text).foldlM Sexp.take ⟨[], []⟩ = .ok ⟨[x], []⟩ := by
    rw [Sexp.tokens, htext, List.append_assoc, hbefore.scan_between, ← List.append_nil behind,
      hpushes _ _ _ hstops, hbehind.scan_between]
    rfl
  refine ⟨x, hx, ?_⟩
  rw [Sexp.read, hscan]
  rfl

/-- A space is enough between two items. -/
theorem exists_writtenItems {vs : List Value} (h : ∀ v ∈ vs, ∃ cs, v.Written cs) :
    ∃ cs, WrittenItems vs cs := by
  induction vs with
  | nil => exact ⟨[], .nil⟩
  | cons v vs ih =>
    obtain ⟨cs, hcs⟩ := h v List.mem_cons_self
    obtain ⟨rest, hrest⟩ := ih fun w hw => h w (List.mem_cons_of_mem _ hw)
    cases vs with
    | nil => exact ⟨_, .last hcs .nil⟩
    | cons w vs => exact ⟨_, .cons hcs (.blank (by decide) .nil) (List.cons_ne_nil ' ' []) hrest⟩

private theorem Form.exists_written {v : Value} (h : v.Form) : ∃ cs, v.Written cs := by
  induction h with
  | int i => exact ⟨_, .int i⟩
  | text s => exact ⟨_, .quoted s⟩
  | list _ ih =>
    obtain ⟨cs, hcs⟩ := exists_writtenItems ih
    exact ⟨_, .list .nil hcs⟩

/-- Reading undoes writing: whichever way a value is written, it is read as itself; and every value
that is made of integers, texts and lists can be written. -/
theorem ofSexp_of_renders (v : Value) :
    (∀ text, v.Renders text → Value.ofSexp text = .ok v) ∧ (v.Form → ∃ text, v.Renders text) := by
  constructor
  · intro text h
    obtain ⟨x, hx, hread⟩ := h.read
    rw [Value.ofSexp, hread]
    dsimp only
    rw [hx]
  · intro h
    obtain ⟨cs, hcs⟩ := h.exists_written
    refine ⟨String.ofList cs, [], cs, [], .nil, hcs, .nil, ?_⟩
    rw [String.toList_ofList, List.nil_append, List.append_nil]

theorem ofSexp_of_renders_nested :
    Renders (.list [.text "seeds", .list [.text "-7", .int (-7)], .list []])
      "; forms\n(seeds (\"-7\" ;first\n-7) ( ))" ∧
    Value.ofSexp "; forms\n(seeds (\"-7\" ;first\n-7) ( ))" =
      .ok (.list [.text "seeds", .list [.text "-7", .int (-7)], .list []]) := by
  have hforms : Sexp.Gap (';' :: " forms".toList ++ '\n' :: []) := .comment (by decide) .nil
  have hfirst : Sexp.Gap (';' :: "first".toList ++ '\n' :: []) := .comment (by decide) .nil
  have hspace : Sexp.Gap [' '] := .blank (by decide) .nil
  have hseeds : Written (.text "seeds") "seeds".toList :=
    .bare ⟨by decide, List.all_eq_true.1 (by decide), by decide, by decide⟩
  have hpair : WrittenItems [.text "-7", .int (-7)] _ :=
    .cons (.quoted "-7") (.blank (c := ' ') (by decide) hfirst) (by decide) (.last (.int (-7)) .nil)
  have hitems : WrittenItems [.text "seeds", .list [.text "-7", .int (-7)], .list []] _ :=
    .cons hseeds hspace (by decide)
      (.cons (.list .nil hpair) hspace (by decide) (.last (.list hspace .nil) .nil))
  have hrenders : Renders (.list [.text "seeds", .list [.text "-7", .int (-7)], .list []])
      "; forms\n(seeds (\"-7\" ;first\n-7) ( ))" :=
    ⟨_, _, _, hforms, .list .nil hitems, .nil, by decide +kernel⟩
  exact ⟨hrenders, (ofSexp_of_renders _).1 _ hrenders⟩

end Value
end AccountLint

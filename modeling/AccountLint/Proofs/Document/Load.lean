import AccountLint.Proofs.Document.Types

/-! Loading a document gives the program that the document spells. -/
namespace AccountLint.Document

/-- What loading a document consists of. -/
theorem load_eq_ok {text : String} {p : Program} (h : load text = .ok p) :
    ∃ forms names table, Value.ofSexp text = .ok (.list (.text "program" :: forms)) ∧
      typeNames (forms.filter (hasHead "type")) = .ok names ∧
      typeTable names (forms.filter (hasHead "type")) = .ok table ∧ p.types = table.types ∧
      List.Forall₂ (fun form f => ∃ d, functionDraft ⟨names, table⟩ form = .ok d ∧
        d.function.validate = .ok () ∧ f = d.function)
        (forms.filter (hasHead "function")) p.functions := by
  unfold load at h
  obtain ⟨v, hv, h⟩ := bind_eq_ok.mp h
  split at h
  · rename_i forms
    unfold program at h
    dsimp only at h
    split at h
    · cases h
    · obtain ⟨names, hnames, h⟩ := bind_eq_ok.mp h
      obtain ⟨table, htable, h⟩ := bind_eq_ok.mp h
      obtain ⟨fns, hfns, h⟩ := bind_eq_ok.mp h
      obtain rfl := pure_eq_ok.mp h
      refine ⟨forms, names, table, hv, hnames, htable, rfl, (mapM_eq_ok.mp hfns).imp ?_⟩
      intro form f hf
      obtain ⟨d, hd, hf⟩ := bind_eq_ok.mp hf
      obtain ⟨_, hvalid, hf⟩ := bind_eq_ok.mp hf
      exact ⟨d, hd, hvalid, (pure_eq_ok.mp hf).symm⟩
  · cases h

/-- A document that loads is a list of forms. If its statements declare texts and set no field
twice, the program is what the forms spell. -/
theorem load_depicts {text : String} {p : Program} (h : load text = .ok p) :
    ∃ forms, Value.ofSexp text = .ok (.list (.text "program" :: forms)) ∧
      ((∀ form ∈ forms.filter (hasHead "function"), FunctionRegular form) → ProgramDepicts forms p) := by
  obtain ⟨forms, names, table, hforms, hnames, htable, htypes, hfunctions⟩ := load_eq_ok h
  have hheads : ∀ form ∈ forms.filter (hasHead "type"), hasHead "type" form = true :=
    fun form hform => (List.mem_filter.mp hform).2
  have hof := typeNames_of hheads hnames
  refine ⟨forms, hforms, fun hregular => ⟨?_, ?_⟩⟩
  · rw [htypes]
    exact typeTable_depicts hof hheads htable
  · refine (forall₂_with_mem hfunctions).imp ?_
    rintro form f ⟨hform, d, hd, -, rfl⟩
    exact functionDraft_depicts hof (hregular form hform) hd

/-- The form of a value that is built from a field of a parameter. -/
def copyForm : Value :=
  .list [.text "new", .text "T", .list [.text "a", .list [.text "field", .text "x", .text "a"]]]

/-- The form of a variable for the value, inside a form that says where it is. -/
def copyLetForm : Value := .list [.text "at", .int 3, .list [.text "let", .text "y", copyForm]]

/-- The form of a function with one block, which is its own successor. -/
def copyFunctionForm : Value :=
  .list [.text "function", .text "f", .list [.text "params", .list [.text "x", .text "T"]],
    .list [.text "block", .text "e", .list [.text "succ", .text "e"], copyLetForm]]

def copyForms : List Value :=
  [.list [.text "type", .text "T", .text "struct", .list [.text "fields", .list [.text "a", .text "_"]]],
    copyFunctionForm]

def copyText : String :=
  "(program (type T struct (fields (a _)))
    (function f (params (x T)) (block e (succ e) (at 3 (let y (new T (a (field x a))))))))"

private theorem setsOnce_of_within_copyForm {w : Value} (h : Within w copyForm) : SetsOnce w := by
  intro type fields hnew
  cases h with
  | self =>
    cases hnew
    decide
  | part hpart h =>
    obtain rfl := List.mem_singleton.mp hpart
    cases h with
    | self => simp at hnew
    | part hpart h =>
      obtain rfl := List.mem_singleton.mp hpart
      cases h with
      | self => cases hnew
      | part hpart _ => cases hpart

private theorem copyLetForm_regular : StmtRegular copyLetForm := by
  have hplaced : ∀ inner, Placed copyLetForm inner →
      inner = copyLetForm ∨ inner = .list [.text "let", .text "y", copyForm] := by
    intro inner h
    cases h with
    | here => exact Or.inl rfl
    | place hlast h =>
      cases hlast
      exact Or.inr (h.eq_of_head (by decide))
  constructor
  case letName =>
    intro name rest h
    rcases hplaced _ h with h | h
    · simp [copyLetForm] at h
    · cases h
      exact ⟨"y", rfl⟩
  case setsOnce =>
    intro inner h x hx w hw
    rcases hplaced _ h with rfl | rfl
    · cases hx
    · obtain rfl := List.mem_singleton.mp hx
      exact setsOnce_of_within_copyForm hw

theorem load_depicts_copy : ∃ p, load copyText = .ok p ∧ ProgramDepicts copyForms p := by
  have hloads : (load copyText).toOption.isSome = true := by decide +kernel
  obtain ⟨p, hp⟩ := Option.isSome_iff_exists.mp hloads
  have hload := ok_of_toOption hp
  have hread : Value.ofSexp copyText = .ok (.list (.text "program" :: copyForms)) :=
    ok_of_toOption (by decide +kernel)
  obtain ⟨forms, hforms, hdepicts⟩ := load_depicts hload
  obtain rfl : copyForms = forms := by simpa using hread.symm.trans hforms
  refine ⟨p, hload, hdepicts fun form hform => ?_⟩
  have hfunctions : copyForms.filter (hasHead "function") = [copyFunctionForm] := by decide
  rw [hfunctions] at hform
  obtain rfl := List.mem_singleton.mp hform
  intro label successors stmts hblock s hs
  have hblocks : blockForms copyFunctionForm =
      [.list [.text "block", .text "e", .list [.text "succ", .text "e"], copyLetForm]] := by decide
  rw [hblocks] at hblock
  cases List.mem_singleton.mp hblock
  obtain rfl := List.mem_singleton.mp hs
  exact copyLetForm_regular

/-- A function without block forms still has a block, and an underscore stands for no type even
where a type of that name is declared. -/
theorem load_beyond_forms :
    (load "(program (function f (unmodeled)))").toOption.map (fun p => p.functions.map (·.blocks)) =
      some [[{ id := 0 }]] ∧
    (load "(program (type _ struct (fields (a _))))").toOption.map
      (fun p => p.types.map fun t => t.fields.map (·.type)) = some [[none]] := by
  constructor
  · decide +kernel
  · decide +kernel

end AccountLint.Document

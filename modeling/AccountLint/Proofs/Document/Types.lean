import AccountLint.Proofs.Document.Functions

/-! The types of a document: the names that are declared, and the table of the declarations. -/
namespace AccountLint.Document

/-- The last of several options with one word is found. -/
theorem options_lookup {forms : List Value} {o : Options} (h : options forms = .ok o)
    (word : String) :
    o.lookup word = lastOption? word forms := by
  refine foldlM_invariant (fun past found => found.lookup word = lastOption? word past) rfl ?_ h
  intro past form rest found found' _ hfound hstep
  have hsnoc : lastOption? word (past ++ [form]) =
      if hasHead word form then some (arguments form) else lastOption? word past := by
    unfold lastOption?
    rw [List.reverse_append, List.reverse_singleton, List.singleton_append, List.find?_cons]
    cases hasHead word form with
    | true => rfl
    | false => rfl
  split at hstep
  · rename_i head hhead
    obtain rfl := Except.ok.inj hstep
    rw [hsnoc, List.lookup_cons, hfound]
    unfold hasHead
    rw [hhead]
    by_cases hword : word = head
    · simp [hword]
    · rw [beq_false_of_ne hword, if_neg (by simpa using Ne.symm hword)]
  · cases hstep

theorem options_items {forms : List Value} {o : Options} (h : options forms = .ok o)
    (word : String) :
    o.items word = (lastOption? word forms).getD [] := by
  unfold Options.items
  rw [options_lookup h word]

/-- A declared name is the second item of its declaration, and stands for the position of that. -/
def Declares (form : Value × Nat) (entry : Value × Int) : Prop :=
  (∃ first kind rest, form.1 = .list (first :: entry.1 :: kind :: rest)) ∧ entry.2 = form.2

private theorem typeNames_declares {forms : List Value} {names : TypeNames}
    (h : typeNames forms = .ok names) :
    List.Forall₂ Declares forms.zipIdx names := by
  refine foldlM_invariant (fun past names => List.Forall₂ Declares past.zipIdx names) .nil ?_ h
  intro past form rest names names' _ hnames hstep
  rw [zipIdx_snoc]
  split at hstep
  · split at hstep
    · cases hstep
    · split at hstep
      · cases hstep
      · obtain rfl := Except.ok.inj hstep
        have hlength := hnames.length_eq
        rw [List.length_zipIdx] at hlength
        exact List.rel_append hnames (.cons ⟨⟨_, _, _, rfl⟩, by rw [hlength]⟩ .nil)
  · cases hstep

/-- The names of declarations stand for their positions. -/
theorem typeNames_of {forms : List Value} {names : TypeNames}
    (hheads : ∀ form ∈ forms, hasHead "type" form = true) (h : typeNames forms = .ok names) :
    names.Of forms := by
  intro name type hresolve
  unfold TypeNames.resolve at hresolve
  split at hresolve
  · rename_i hname
    obtain rfl := Except.ok.inj hresolve
    rw [beq_iff_eq.mp hname]
    exact .unknown
  · rename_i hname
    split at hresolve
    · rename_i i hi
      obtain rfl := Except.ok.inj hresolve
      obtain ⟨entry, hentry, rfl⟩ := Option.map_eq_some_iff.mp hi
      obtain ⟨⟨form, k⟩, hform, ⟨first, kind, rest, hparts⟩, hk⟩ :=
        exists_of_forall₂_right (typeNames_declares h) (List.mem_of_find?_eq_some hentry)
      have hat := List.mem_zipIdx_iff_getElem?.mp hform
      have hhead := hheads form (List.mem_of_getElem? hat)
      dsimp only at hparts hk
      rw [hparts] at hat hhead
      rw [hasHead_list_iff.mp hhead] at hat
      have hsame : entry.1.same name = true := by simpa using List.find?_some hentry
      rw [hk]
      exact .declared (fun heq => hname (beq_iff_eq.mpr heq)) hat hsame
    · cases hresolve

variable {names : TypeNames} {declarations : List Value}

private theorem field_depicts {form : Value} {d : FieldDecl} (hnames : names.Of declarations)
    (h : field names form = .ok d) : FieldDepicts declarations form d := by
  unfold field at h
  split at h
  · rename_i name type forms
    obtain ⟨_, _, h⟩ := bind_eq_ok.mp h
    obtain ⟨r, hr, h⟩ := bind_eq_ok.mp h
    obtain ⟨_, _, h⟩ := bind_eq_ok.mp h
    obtain ⟨_, _, h⟩ := bind_eq_ok.mp h
    obtain ⟨_, _, h⟩ := bind_eq_ok.mp h
    obtain rfl := pure_eq_ok.mp h
    exact ⟨type, forms, rfl, hnames type r hr⟩
  · cases h

private theorem typePath_eq_ok {name path : Value} {forms : List Value} {o : Options}
    (ho : options forms = .ok o) (h : typePath name o = .ok path) :
    ((lastOption? "path" forms).getD [name]).head? = some path := by
  unfold typePath at h
  rw [options_lookup ho] at h
  split at h
  · rename_i hnone
    obtain rfl := Except.ok.inj h
    rw [hnone]
    rfl
  · rename_i hsome
    obtain rfl := Except.ok.inj h
    rw [hsome]
    rfl
  · cases h

/-- A declaration is read with the parts that it spells. -/
theorem typeDecl_depicts {form name kind : Value} {forms : List Value} {d : TypeDecl} {i : Nat}
    (hnames : names.Of declarations) (h : typeDecl names form name kind forms = .ok d) :
    TypeDepicts declarations (.list (.text "type" :: name :: kind :: forms), i) { d with id := i } := by
  unfold typeDecl at h
  dsimp only at h
  split at h
  · cases h
  split at h
  · cases h
  · rename_i k hkind
    obtain ⟨o, ho, h⟩ := bind_eq_ok.mp h
    obtain ⟨length, _, h⟩ := bind_eq_ok.mp h
    obtain ⟨path, hpath, h⟩ := bind_eq_ok.mp h
    obtain ⟨fields, hfields, h⟩ := bind_eq_ok.mp h
    obtain ⟨variants, _, h⟩ := bind_eq_ok.mp h
    obtain ⟨args, hargs, h⟩ := bind_eq_ok.mp h
    obtain ⟨_, _, h⟩ := bind_eq_ok.mp h
    obtain ⟨_, _, h⟩ := bind_eq_ok.mp h
    obtain ⟨_, _, h⟩ := bind_eq_ok.mp h
    obtain rfl := pure_eq_ok.mp h
    rw [options_items ho] at hfields hargs
    refine ⟨rfl, name, kind, forms, rfl, hkind, typePath_eq_ok ho hpath, ?_, ?_⟩
    · exact (mapM_eq_ok.mp hfields).imp fun item d hd => field_depicts hnames hd
    · exact (mapM_eq_ok.mp hargs).imp fun item r hr => hnames item r hr

theorem addType_eq_ok {t t' : TypeTable} {form : Value} (hhead : hasHead "type" form = true)
    (h : addType names t form = .ok t') :
    ∃ name kind forms d, form = .list (.text "type" :: name :: kind :: forms) ∧
      typeDecl names form name kind forms = .ok d ∧ (t.add d).1 = t' := by
  unfold addType at h
  split at h
  · rename_i first name kind forms
    obtain ⟨d, hd, h⟩ := bind_eq_ok.mp h
    obtain ⟨_, _, h⟩ := bind_eq_ok.mp h
    obtain rfl := pure_eq_ok.mp h
    rw [hasHead_list_iff.mp hhead] at hd ⊢
    exact ⟨name, kind, forms, d, rfl, hd, rfl⟩
  · cases h

/-- The types of a table are what the declarations spell, in their order. -/
theorem typeTable_depicts {forms : List Value} {t : TypeTable} (hnames : names.Of declarations)
    (hheads : ∀ form ∈ forms, hasHead "type" form = true) (h : typeTable names forms = .ok t) :
    List.Forall₂ (TypeDepicts declarations) forms.zipIdx t.types := by
  refine foldlM_invariant (fun past t => List.Forall₂ (TypeDepicts declarations) past.zipIdx t.types)
    .nil ?_ h
  intro past form rest t t' hsplit ht hstep
  have hform : form ∈ forms := hsplit ▸ List.mem_append_right _ List.mem_cons_self
  obtain ⟨name, kind, items, d, rfl, hd, rfl⟩ := addType_eq_ok (hheads form hform) hstep
  have hlength := ht.length_eq
  rw [List.length_zipIdx] at hlength
  rw [zipIdx_snoc, TypeTable.add_types, ← hlength]
  exact List.rel_append ht (.cons (typeDecl_depicts hnames hd) .nil)

end AccountLint.Document

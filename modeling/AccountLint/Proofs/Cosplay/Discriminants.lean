import AccountLint.Proofs.Cosplay.Verdict

/-! A declaration that is given a discriminant is no longer reported. Marking it as one that has a
discriminant leaves the verdict on all other types as it is. A leading tag can also clear others,
where it is of an enum that tells them all apart. -/
namespace AccountLint

namespace TypeDecl

/-- A declaration that is marked further as one with a discriminant, by an attribute or by a trait.
-/
inductive Marks (s : TypeDecl) : TypeDecl → Prop where
  | byAttribute (before after : List Value) (h : s.attributes = before ++ after) :
      Marks s { s with attributes := before ++ .text TypeFact.discriminant :: after }
  | byTrait (before after : List Value) (name : String) (h : s.traits = before ++ after)
      (hname : Text.nameMatches Paths.discriminator name = true) :
      Marks s { s with traits := before ++ .text name :: after }

/-- A declaration with a further field in front. -/
def leading (s : TypeDecl) (d : FieldDecl) : TypeDecl := { s with fields := d :: s.fields }

variable {s s' : TypeDecl}

private theorem Marks.kind (h : s.Marks s') : s'.kind = s.kind := by
  cases h <;> rfl

private theorem Marks.fields (h : s.Marks s') : s'.fields = s.fields := by
  cases h <;> rfl

private theorem Marks.marked (h : s.Marks s') : s'.Marked := by
  cases h with
  | byAttribute before after => exact Or.inl (by simp)
  | byTrait before after name _ hname =>
    exact Or.inr (Or.inl ⟨.text name, by simp, name, rfl, hname⟩)

/-- Among the facts that traits establish, there is one way to a discriminant. -/
theorem anyM_impliedByTrait (t : TypeDecl) :
    anyM (fun w => if w.2 == TypeFact.discriminant then
        anyM (fun tr => pathMatches w.1 (some tr)) t.traits else .ok false) TypeFact.impliedByTrait =
      anyM (fun tr => pathMatches Paths.discriminator (some tr)) t.traits := by
  unfold TypeFact.impliedByTrait
  rcases hany : anyM (fun tr => pathMatches Paths.discriminator (some tr)) t.traits with e | _ | _
  · simp [anyM, hany, bind, Except.bind]
  · simp [anyM, hany, bind, Except.bind, TypeFact.accountsStruct, TypeFact.discriminant]
  · simp [anyM, hany, bind, Except.bind, pure, Except.pure]

/-- The search for a discriminant still ends if there is one more mark to be found. -/
theorem Marks.hasFact (h : s.Marks s') (hends : ∃ b, s.hasFact TypeFact.discriminant = .ok b) :
    s'.hasFact TypeFact.discriminant = .ok true := by
  obtain ⟨b, hb⟩ := hends
  unfold TypeDecl.hasFact at hb ⊢
  cases h with
  | byAttribute before after =>
    rw [if_pos (by simp [Value.text_same_iff])]
    rfl
  | byTrait before after name htraits hname =>
    split at hb
    · rename_i hattribute
      rw [if_pos hattribute]
      rfl
    · rename_i hattribute
      rw [if_neg hattribute]
      obtain ⟨byPath, hpath, hb⟩ := bind_eq_ok.mp hb
      refine bind_eq_ok.mpr ⟨byPath, hpath, ?_⟩
      cases byPath with
      | true => rfl
      | false =>
        have hscan : anyM (fun tr => pathMatches Paths.discriminator (some tr)) (before ++ after) =
            .ok b := by
          rw [← htraits, ← anyM_impliedByTrait]
          exact hb
        refine (anyM_impliedByTrait _).trans ?_
        exact anyM_insert ⟨b, hscan⟩ (pathMatches_eq_true_iff.mpr ⟨name, rfl, hname⟩)

variable {p p' : Program} {tags : List Value}

private theorem Marks.hasDiscriminant (h : s.Marks s')
    (hends : ∃ b, s.hasDiscriminant p tags = .ok b) :
    s'.hasDiscriminant p' tags = .ok true := by
  obtain ⟨b, hb⟩ := hends
  obtain ⟨marked, hmarked, _⟩ := bind_eq_ok.mp hb
  exact bind_eq_ok.mpr ⟨true, h.hasFact ⟨marked, hmarked⟩, rfl⟩

private theorem hasDiscriminant_leading {d : FieldDecl} (hstruct : s.kind = .struct)
    {z : Option TypeDecl} (hz : p'.type? d.type = .ok z)
    (htag : p'.IsEnum d.type ∨ d.name.isIn tags = .ok true)
    (hends : ∃ b, s.hasDiscriminant p tags = .ok b) :
    (s.leading d).hasDiscriminant p' tags = .ok true := by
  obtain ⟨b, hb⟩ := hends
  obtain ⟨marked, hmarked, _⟩ := bind_eq_ok.mp hb
  refine bind_eq_ok.mpr ⟨marked, hmarked, ?_⟩
  cases marked with
  | true => rfl
  | false =>
    have hkind : (s.leading d).isStruct = true := isStruct_iff.mpr hstruct
    have hfields : (s.leading d).fields = d :: s.fields := rfl
    simp only [Bool.false_eq_true, if_false, hkind, hfields]
    refine bind_eq_ok.mpr ⟨z, hz, ?_⟩
    unfold Program.IsEnum at htag
    rw [hz] at htag
    rcases z with _ | t
    · simpa using htag
    · dsimp only
      split
      · rfl
      · rename_i henum
        rw [isEnum_iff] at henum
        simpa [henum] using htag

private theorem leadsWithTag_leading {d : FieldDecl} (hstruct : s.kind = .struct)
    (htag : p.IsEnum d.type ∨ d.name.isIn tags = .ok true) : (s.leading d).LeadsWithTag p tags := by
  refine ⟨hstruct, d, rfl, htag.imp_right fun hin => ?_⟩
  exact (Value.isIn_iff hin).mp rfl

end TypeDecl

/-- One declaration of a table is exchanged for another one of its kind, and neither is an enum. -/
structure Program.Redeclares (p p' : Program) (k : Nat) (s s' : TypeDecl) : Prop where
  old : typeAt? p.types k = some s
  new : typeAt? p'.types k = some s'
  other : ∀ i : Int, i ≠ k → typeAt? p'.types i = typeAt? p.types i
  kind : s'.kind = s.kind
  notEnum : s.kind ≠ .enum

def Program.withType (p : Program) (k : Nat) (s : TypeDecl) : Program :=
  { p with types := p.types.set k s }

namespace Program.Redeclares

variable {p p' : Program} {k : Nat} {s s' : TypeDecl} {tags : List Value}

private theorem withType (hk : p.types[k]? = some s) (hkind : s'.kind = s.kind)
    (hs : s.kind ≠ .enum) :
    p.Redeclares (p.withType k s') k s s' where
  old := by simpa [typeAt?] using hk
  new := by
    have hlt : k < p.types.length := (List.getElem?_eq_some_iff.mp hk).1
    simp [typeAt?, Program.withType, hlt]
  other i hi := by
    unfold typeAt? Program.withType
    split
    · exact List.getElem?_set_ne (by omega)
    · rfl
  kind := hkind
  notEnum := hs

private theorem symm (h : p.Redeclares p' k s s') : p'.Redeclares p k s' s where
  old := h.new
  new := h.old
  other i hi := (h.other i hi).symm
  kind := h.kind.symm
  notEnum := h.kind ▸ h.notEnum

private theorem mem_types (h : p.Redeclares p' k s s') {e : TypeDecl} (he : e ∈ p.types)
    (henum : e.kind = .enum) : e ∈ p'.types := by
  obtain ⟨j, hj⟩ := List.mem_iff_getElem?.mp he
  have hat : typeAt? p.types j = some e := by simpa [typeAt?] using hj
  -- No enum is exchanged, so this one is at another position.
  have hne : (j : Int) ≠ k := by
    intro heq
    rw [heq, h.old] at hat
    exact h.notEnum (Option.some.inj hat ▸ henum)
  rw [← h.other j hne] at hat
  exact List.mem_of_getElem? (i := j) (by simpa [typeAt?] using hat)

private theorem type?_cases (h : p.Redeclares p' k s s') (r : Option TypeRef) :
    p'.type? r = p.type? r ∨ p.type? r = .ok (some s) ∧ p'.type? r = .ok (some s') := by
  rcases r with _ | i | name
  · exact Or.inl rfl
  · by_cases hi : i = k
    · exact Or.inr ⟨by simp [Program.type?, hi, h.old], by simp [Program.type?, hi, h.new]⟩
    · exact Or.inl (by simp [Program.type?, h.other i hi])
  · exact Or.inl rfl

private theorem isEnum_iff (h : p.Redeclares p' k s s') (r : Option TypeRef) :
    p'.IsEnum r ↔ p.IsEnum r := by
  unfold IsEnum
  rcases h.type?_cases r with heq | ⟨hold, hnew⟩
  · rw [heq]
  · simp [hold, hnew, h.notEnum, h.kind]

private theorem hasDiscriminant (h : p.Redeclares p' k s s') (t : TypeDecl) (tags : List Value) :
    t.hasDiscriminant p' tags = t.hasDiscriminant p tags := by
  have hs : s.isEnum = false := by simpa [TypeDecl.isEnum] using h.notEnum
  have hs' : s'.isEnum = false := by simpa [TypeDecl.isEnum, h.kind] using h.notEnum
  unfold TypeDecl.hasDiscriminant
  refine bind_congr fun discriminated => ite_congr rfl (fun _ => rfl) fun _ => ?_
  cases t.isStruct with
  | false => rfl
  | true =>
    cases t.fields with
    | nil => rfl
    | cons lead rest =>
      rcases h.type?_cases lead.type with heq | ⟨hold, hnew⟩
      · simp only [heq]
      · simp only [hold, hnew, bind, Except.bind, hs, hs']

private theorem discriminated_iff (h : p.Redeclares p' k s s') (t : TypeDecl) :
    t.Discriminated p' tags ↔ t.Discriminated p tags := by
  unfold TypeDecl.Discriminated TypeDecl.LeadsWithTag
  simp only [h.isEnum_iff]

private theorem declared (h : p.Redeclares p' k s s') (set : TypeSet) :
    List.Forall₂ (fun t t' => t' = t ∨ t = s ∧ t' = s') (set.declared p) (set.declared p') := by
  refine List.rel_filterMap (R := Eq) ?_ (List.forall₂_same.mpr fun i _ => rfl)
  rintro i _ rfl
  by_cases hi : i = k
  · rw [hi, h.old, h.new]
    exact .some (Or.inr ⟨rfl, rfl⟩)
  · rw [h.other i hi]
    cases typeAt? p.types i with
    | none => exact .none
    | some t => exact .some (Or.inl rfl)

private theorem isSome (h : p.Redeclares p' k s s') {ids : List Int}
    (hsome : ∀ i ∈ ids, (typeAt? p.types i).isSome = true) :
    ∀ i ∈ ids, (typeAt? p'.types i).isSome = true := by
  intro i hi
  by_cases hk : i = k
  · rw [hk, h.new]
    rfl
  · rw [h.other i hk]
    exact hsome i hi

end Program.Redeclares

namespace TypeSet

variable {p p' : Program} {k : Nat} {s s' : TypeDecl} {tags : List Value} {set : TypeSet}

/-- Types are told apart together by their kinds and by what is among their fields. -/
theorem ToldApart.of_forall₂ {ts ts' : List TypeDecl} (h : ToldApart p ts)
    (hts : List.Forall₂ (fun t t' => t'.kind = t.kind ∧ t.fields ⊆ t'.fields) ts ts')
    (henums : ∀ e ∈ p.types, e.kind = .enum → e ∈ p'.types) : ToldApart p' ts' := by
  rcases h with rfl | ⟨e, rfl, he⟩ | ⟨hstruct, e, hmem, henum, hvariants, hembeds⟩
  · cases hts
    exact Or.inl rfl
  · obtain ⟨e', rest, ⟨hkind, _⟩, hrest, rfl⟩ := List.forall₂_cons_left_iff.mp hts
    cases hrest
    exact Or.inr (Or.inl ⟨e', rfl, hkind.trans he⟩)
  · rw [hts.length_eq] at hvariants
    refine Or.inr (Or.inr ⟨fun t' ht' => ?_, e, henums e hmem henum, henum, hvariants, fun t' ht' => ?_⟩)
    · obtain ⟨t, ht, hkind, _⟩ := exists_of_forall₂_right hts ht'
      exact hkind.trans (hstruct t ht)
    · obtain ⟨t, ht, _, hfields⟩ := exists_of_forall₂_right hts ht'
      obtain ⟨d, hd, htype⟩ := hembeds t ht
      exact ⟨d, hfields hd, htype⟩

private theorem ToldApart.redeclared (h : ToldApart p (set.declared p))
    (hr : p.Redeclares p' k s s') (hfields : s.fields ⊆ s'.fields) :
    ToldApart p' (set.declared p') := by
  refine h.of_forall₂ ((hr.declared set).imp ?_) fun e => hr.mem_types
  rintro t t' (rfl | ⟨rfl, rfl⟩)
  · exact ⟨rfl, List.Subset.refl _⟩
  · exact ⟨hr.kind, hfields⟩

def verdictOn (set : TypeSet) (p : Program) (tags : List Value) (i : Int) : Option TypeVerdict :=
  if areSecure p (set.declared p) then none
  else (typeAt? p.types i).bind fun t =>
    if Confusable p tags (set.declared p) t then some ⟨t, t.isEnum, set.sitesOf t.id⟩ else none

private theorem verdictOn_of_toldApart (h : ToldApart p (set.declared p)) (i : Int) :
    set.verdictOn p tags i = none := if_pos (areSecure_iff.mpr h)

private theorem verdictOn_of_not_toldApart (h : ¬ToldApart p (set.declared p)) (i : Int) :
    set.verdictOn p tags i = (typeAt? p.types i).bind fun t =>
      if Confusable p tags (set.declared p) t then some ⟨t, t.isEnum, set.sitesOf t.id⟩ else none :=
  if_neg (mt areSecure_iff.mp h)

private theorem typeAt?_of_verdictOn {i : Int} {v : TypeVerdict}
    (h : set.verdictOn p tags i = some v) :
    typeAt? p.types i = some v.type := by
  by_cases htold : ToldApart p (set.declared p)
  · rw [verdictOn_of_toldApart htold] at h
    cases h
  · rw [verdictOn_of_not_toldApart htold] at h
    obtain ⟨t, ht, hv⟩ := Option.bind_eq_some_iff.mp h
    split at hv
    · rw [ht, ← Option.some.inj hv]
    · cases hv

/-- The verdict says what it says about each of the types, by increasing ids. -/
theorem verdict_eq_filterMap {vs : List TypeVerdict} (h : set.verdict p tags = .ok vs) :
    vs = set.ids.filterMap (set.verdictOn p tags) := by
  rcases (verdict_eq_ok.mp h).2 with ⟨htold, rfl⟩ | ⟨htold, _, rfl⟩
  · exact (List.filterMap_eq_nil_iff.mpr fun i _ => verdictOn_of_toldApart htold i).symm
  · rw [funext (verdictOn_of_not_toldApart htold)]
    unfold confused
    rw [← List.filterMap_eq_map, List.filterMap_filter]
    change (set.ids.filterMap (typeAt? p.types)).filterMap _ = _
    rw [List.filterMap_filterMap]
    simp

private theorem confusable_redeclared (hr : p.Redeclares p' k s s') (t : TypeDecl) :
    Confusable p' tags (set.declared p') t ↔ Confusable p tags (set.declared p) t := by
  have hkind : ∀ t t', (t' = t ∨ t = s ∧ t' = s') → (t.isEnum = true ↔ t'.isEnum = true) := by
    rintro t t' (rfl | ⟨rfl, rfl⟩)
    · exact Iff.rfl
    · rw [TypeDecl.isEnum_iff, TypeDecl.isEnum_iff, hr.kind]
  have henums := (List.rel_filter hkind (hr.declared set)).length_eq
  unfold Confusable
  rw [hr.discriminated_iff, henums]

/-- A declaration with a discriminant is not reported, and exchanging it for one of its kind changes
nothing for others, unless all of them can be told apart together then. -/
theorem filterMap_verdictOn_redeclared (hr : p.Redeclares p' k s s')
    (hs' : s'.Discriminated p' tags) (htold : ¬ToldApart p (set.declared p))
    (htold' : ¬ToldApart p' (set.declared p')) :
    set.ids.filterMap (set.verdictOn p' tags) =
      (set.ids.filter (· ≠ (k : Int))).filterMap (set.verdictOn p tags) := by
  rw [List.filterMap_filter]
  refine List.filterMap_congr fun i _ => ?_
  rw [verdictOn_of_not_toldApart htold', verdictOn_of_not_toldApart htold]
  by_cases hi : i = k
  · have hnot : ¬Confusable p' tags (set.declared p') s' := by
      rintro (⟨henum, _⟩ | ⟨_, hnot⟩)
      · exact hr.symm.notEnum henum
      · exact hnot hs'
    simp [hi, hr.new, hnot]
  · simp [hi, hr.other i hi, confusable_redeclared hr]

/-- There still is a verdict if the search for the discriminant of the new declaration ends. -/
theorem verdict_redeclared (hr : p.Redeclares p' k s s') (hfields : s.fields ⊆ s'.fields)
    (hends : (∃ b, s.hasDiscriminant p tags = .ok b) → ∃ b, s'.hasDiscriminant p' tags = .ok b)
    {vs : List TypeVerdict} (h : set.verdict p tags = .ok vs) :
    ∃ vs', set.verdict p' tags = .ok vs' := by
  obtain ⟨hsome, hcases⟩ := verdict_eq_ok.mp h
  have hsome' := hr.isSome hsome
  by_cases htold' : ToldApart p' (set.declared p')
  · exact ⟨[], verdict_eq_ok.mpr ⟨hsome', Or.inl ⟨htold', rfl⟩⟩⟩
  · rcases hcases with ⟨htold, _⟩ | ⟨_, hall, _⟩
    · exact absurd (htold.redeclared hr hfields) htold'
    · refine ⟨_, verdict_eq_ok.mpr ⟨hsome', Or.inr ⟨htold', fun t' ht' => ?_, rfl⟩⟩⟩
      obtain ⟨t, ht, heq⟩ := exists_of_forall₂_right (hr.declared set) ht'
      rcases heq with rfl | ⟨rfl, rfl⟩
      · rw [hr.hasDiscriminant]
        exact hall _ ht
      · exact Or.inr (hends ((hall _ ht).resolve_left hr.notEnum))

private theorem verdict_marked (hr : p.Redeclares p' k s s') (hm : s.Marks s')
    {vs : List TypeVerdict} (h : set.verdict p tags = .ok vs) : set.verdict p' tags =
      .ok ((set.ids.filter (· ≠ (k : Int))).filterMap (set.verdictOn p tags)) := by
  have hsub : s.fields ⊆ s'.fields := hm.fields ▸ List.Subset.refl _
  have hsub' : s'.fields ⊆ s.fields := hm.fields ▸ List.Subset.refl _
  obtain ⟨vs', hvs'⟩ := verdict_redeclared hr hsub (fun hends => ⟨true, hm.hasDiscriminant hends⟩) h
  rw [hvs', verdict_eq_filterMap hvs']
  by_cases htold : ToldApart p (set.declared p)
  · have htold' := htold.redeclared hr hsub
    simp [funext (verdictOn_of_toldApart htold), funext (verdictOn_of_toldApart htold')]
  · have htold' : ¬ToldApart p' (set.declared p') :=
      fun htold' => htold (htold'.redeclared hr.symm hsub')
    rw [filterMap_verdictOn_redeclared hr (Or.inl hm.marked) htold htold']

/-- A tag in front may tell all types apart together, and otherwise tells the one that it is in. -/
theorem verdict_leading {d : FieldDecl} (hr : p.Redeclares p' k s (s.leading d))
    (hstruct : s.kind = .struct) (htag : p'.IsEnum d.type ∨ d.name.isIn tags = .ok true)
    {vs : List TypeVerdict} (h : set.verdict p' tags = .ok vs) :
    vs = [] ∨ vs = (set.ids.filter (· ≠ (k : Int))).filterMap (set.verdictOn p tags) := by
  rw [verdict_eq_filterMap h]
  by_cases htold' : ToldApart p' (set.declared p')
  · exact Or.inl (List.filterMap_eq_nil_iff.mpr fun i _ => verdictOn_of_toldApart htold' i)
  · have htold : ¬ToldApart p (set.declared p) :=
      fun htold => htold' (htold.redeclared hr (List.subset_cons_self _ _))
    have hleads : (s.leading d).LeadsWithTag p' tags := TypeDecl.leadsWithTag_leading hstruct htag
    exact Or.inr (filterMap_verdictOn_redeclared hr (Or.inr hleads) htold htold')

private theorem exists_verdict_leading {d : FieldDecl} (hr : p.Redeclares p' k s (s.leading d))
    (hstruct : s.kind = .struct) (htag : p'.IsEnum d.type ∨ d.name.isIn tags = .ok true)
    (hin : p.InTable d.type) {vs : List TypeVerdict} (h : set.verdict p tags = .ok vs) :
    ∃ vs', set.verdict p' tags = .ok vs' := by
  obtain ⟨z, hz⟩ : ∃ z, p'.type? d.type = .ok z := by
    obtain ⟨z, hz, _⟩ := Yields.ok_iff.mp hin.type?
    rcases hr.type?_cases d.type with heq | ⟨_, hnew⟩
    · exact ⟨z, heq.trans hz⟩
    · exact ⟨_, hnew⟩
  exact verdict_redeclared hr (List.subset_cons_self _ _)
    (fun hends => ⟨true, TypeDecl.hasDiscriminant_leading hstruct hz htag hends⟩) h

/-- A declaration that is no enum is given a discriminant. If it is marked by an attribute or a
trait, the verdict is the former one but for the declaration itself. If it is a struct that leads
with a further field, which is an enum or is called by the name of a tag, then so it is, unless all
types can be told apart together then and nothing is reported. -/
theorem verdict_of_discriminant (hk : p.types[k]? = some s) (hs : s.kind ≠ .enum)
    {vs : List TypeVerdict} (h : set.verdict p tags = .ok vs) :
    (∀ i v, set.verdictOn p tags i = some v → typeAt? p.types i = some v.type) ∧
      vs = set.ids.filterMap (set.verdictOn p tags) ∧
      (∀ s', s.Marks s' → set.verdict (p.withType k s') tags =
        .ok ((set.ids.filter (· ≠ (k : Int))).filterMap (set.verdictOn p tags))) ∧
      (∀ d : FieldDecl, s.kind = .struct → p.IsEnum d.type ∨ d.name.isIn tags = .ok true →
        (∀ vs', set.verdict (p.withType k (s.leading d)) tags = .ok vs' → vs' = [] ∨
          vs' = (set.ids.filter (· ≠ (k : Int))).filterMap (set.verdictOn p tags)) ∧
        (p.InTable d.type → ∃ vs', set.verdict (p.withType k (s.leading d)) tags = .ok vs')) := by
  refine ⟨fun i v => typeAt?_of_verdictOn, verdict_eq_filterMap h, ?_, ?_⟩
  · intro s' hm
    exact verdict_marked (.withType hk hm.kind hs) hm h
  · intro d hstruct htag
    have hr : p.Redeclares (p.withType k (s.leading d)) k s (s.leading d) := .withType hk rfl hs
    rw [← hr.isEnum_iff] at htag
    exact ⟨fun vs' => verdict_leading hr hstruct htag,
      fun hin => exists_verdict_leading hr hstruct htag hin h⟩

/-- An enum, a struct without a field of it, and a struct that has one behind another. -/
def vaultAndUser : Program :=
  { types := [
      { id := 0, path := .text "crate::Kind", kind := .enum, variants := 2 },
      { id := 1, path := .text "crate::Vault", kind := .struct
        fields := [{ name := .text "owner" }] },
      { id := 2, path := .text "crate::User", kind := .struct
        fields := [{ name := .text "owner" }, { name := .text "sort", type := some (.index 0) }] }] }

def vault : TypeDecl :=
  { id := 1, path := .text "crate::Vault", kind := .struct, fields := [{ name := .text "owner" }] }

theorem verdict_of_discriminant_vault :
    vaultAndUser.types[1]? = some vault ∧ vault.kind ≠ .enum ∧
      (ofSites [siteAt 1 "load" 3, siteAt 2 "load" 5]).ids = [1, 2] ∧
      ∃ vs judged, (ofSites [siteAt 1 "load" 3, siteAt 2 "load" 5]).verdict vaultAndUser defaultTags =
          .ok vs ∧
        vs.map (·.type.id) = [1, 2] ∧ vs = [(1 : Int), 2].filterMap judged ∧
        (ofSites [siteAt 1 "load" 3, siteAt 2 "load" 5]).verdict (vaultAndUser.withType 1
          { vault with traits := [.text "Discriminator"] }) defaultTags =
            .ok ([(2 : Int)].filterMap judged) ∧
        ∃ vs', (ofSites [siteAt 1 "load" 3, siteAt 2 "load" 5]).verdict (vaultAndUser.withType 1
            (vault.leading { name := .text "sort", type := some (.index 0) })) defaultTags = .ok vs' ∧
          (vs' = [] ∨ vs' = [(2 : Int)].filterMap judged) := by
  have hids : (ofSites [siteAt 1 "load" 3, siteAt 2 "load" 5]).ids = [1, 2] := by decide +kernel
  have hvalue : ((ofSites [siteAt 1 "load" 3, siteAt 2 "load" 5]).verdict vaultAndUser
      defaultTags).toOption.map (List.map (·.type.id)) = some [1, 2] := by
    decide +kernel
  obtain ⟨vs, hvs, hreported⟩ := Option.map_eq_some_iff.mp hvalue
  have hvs := ok_of_toOption hvs
  have hk : vaultAndUser.types[1]? = some vault := rfl
  have hs : vault.kind ≠ .enum := by decide
  obtain ⟨_, heq, hmarks, hleads⟩ := verdict_of_discriminant hk hs hvs
  have hmarked := hmarks _ (.byTrait [] [] "Discriminator" rfl (by decide +kernel))
  obtain ⟨hthen, hends⟩ := hleads { name := .text "sort", type := some (.index 0) } rfl
    (Or.inl (by decide +kernel))
  obtain ⟨vs', hvs'⟩ := hends fun t ht => ⟨0, (Option.some.inj ht).symm, by decide, by decide⟩
  rw [hids] at heq hmarked hthen
  exact ⟨hk, hs, hids, vs, _, hvs, hreported, heq, hmarked, vs', hvs', hthen vs' hvs'⟩

end TypeSet
end AccountLint

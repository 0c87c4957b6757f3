import AccountLint.Proofs.Total.Verdict
import AccountLint.Verdict.Run

/-! The verdicts on the types and the declarations of a program whose types are in range. -/
namespace AccountLint

variable {may : Fault → Prop} {p : Program}

private theorem mergedTypes_inTable {reports : List FunctionReport}
    (h : ∀ r ∈ reports, r.skipped = false → r.types.InTable p) : (mergedTypes reports).InTable p := by
  have hfold : ∀ reports : List FunctionReport, ∀ set : TypeSet, set.InTable p →
      (∀ r ∈ reports, r.skipped = false → r.types.InTable p) →
      (reports.foldl (fun set r => if r.skipped then set else set.merge r.types) set).InTable p := by
    intro reports
    induction reports with
    | nil => exact fun set hset _ => hset
    | cons r reports ih =>
      intro set hset hall
      rw [List.foldl_cons]
      refine ih _ ?_ fun q hq => hall q (List.mem_cons_of_mem _ hq)
      split
      · exact hset
      · rename_i hskip
        intro site hsite
        rcases TypeSet.mem_merge.mp hsite with hsite | hsite
        · exact hset site hsite
        · exact hall r List.mem_cons_self (by simpa using hskip) site hsite
  exact hfold reports {} (fun site hsite => (by cases hsite)) h

/-- The types of a set are in the table, and each has a site. -/
theorem TypeSet.types_yields (hp : p.TypesInRange) {s : TypeSet} (hs : s.InTable p) :
    Yields may (fun ts => ∀ t ∈ ts, t ∈ p.types ∧ s.sitesOf t.id ≠ []) (s.types p) := by
  refine Yields.collectM fun i hi => ?_
  obtain ⟨site, hsite, rfl⟩ := TypeSet.mem_ids.mp hi
  have hin := hs site hsite
  obtain ⟨t, ht, heq, hget⟩ := Program.type?_index hin
  rw [heq]
  intro t' ht'
  rw [← Option.some.inj ht']
  refine ⟨ht, ?_⟩
  have hid : t.id = site.type := by
    rw [hp.id hget, Int.toNat_of_nonneg hin.index.1]
  intro hnil
  have hmem : site ∈ s.sitesOf t.id := TypeSet.mem_sitesOf.mpr ⟨hsite, hid.symm⟩
  rw [hnil] at hmem
  cases hmem

private theorem TypeDecl.hasDiscriminant_safe (hp : p.TypesInRange) {t : TypeDecl}
    (ht : t ∈ p.types) (hn : t.FitNames may) (tags : List Value) :
    Safe may (t.hasDiscriminant p tags) := by
  unfold hasDiscriminant
  refine (hn.hasFact _).bind fun has _ => ?_
  split
  · trivial
  · split
    · rename_i lead rest _ hfields
      have hlead : lead ∈ t.fields := by
        rw [hfields]
        exact List.mem_cons_self
      refine (hp.field t ht lead hlead).type?.bind fun z _ => ?_
      cases z with
      | none => exact (hn.fields lead hlead).isIn tags
      | some d =>
        dsimp only
        split
        · trivial
        · exact (hn.fields lead hlead).isIn tags
    · trivial

theorem TypeSet.verdict_yields (hp : p.TypesInRange) (hn : ∀ t ∈ p.types, t.FitNames may)
    {s : TypeSet} (hs : s.InTable p) (tags : List Value) :
    Yields may (fun vs => ∀ v ∈ vs, v.type ∈ p.types ∧ v.sites ≠ []) (s.verdict p tags) := by
  unfold verdict
  refine (types_yields hp hs).bind fun ts hts => ?_
  split
  · exact fun v hv => (by cases hv)
  · refine Yields.collectM fun t ht => ?_
    obtain ⟨hmem, hsites⟩ := hts t ht
    unfold judge
    split
    · intro v hv
      split at hv
      · rw [← Option.some.inj hv]
        exact ⟨hmem, hsites⟩
      · cases hv
    · refine (TypeDecl.hasDiscriminant_safe hp hmem (hn t hmem) tags).bind fun has _ => ?_
      split
      · exact fun v hv => (by cases hv)
      · intro v hv
        rw [← Option.some.inj hv]
        exact ⟨hmem, hsites⟩

private theorem typeFindings_safe (hp : p.TypesInRange) (hn : ∀ t ∈ p.types, t.FitNames may)
    {rules : List Rule} (hrules : ∀ r ∈ rules, r.Plain) {s : TypeSet} (hs : s.InTable p)
    (tags : List Value) : Safe may (typeFindings p tags rules s) := by
  unfold typeFindings
  split
  · trivial
  · rename_i r hr
    have hplain := hrules r (List.mem_of_find?_eq_some hr)
    refine (TypeSet.verdict_yields hp hn hs tags).bind fun vs hvs => ?_
    refine Yields.mapM_safe fun v hv => ?_
    obtain ⟨htype, hsites⟩ := hvs v hv
    unfold Rule.typeFinding
    split
    · exact absurd ‹_› hsites
    · refine (hn _ htype).name.bind fun name _ => ?_
      have hmessage : Template.isPlain (if v.ambiguous then ambiguousEnumMessage else r.message) =
          true := by
        split
        · exact isPlain_ambiguousEnumMessage
        · exact hplain.message
      refine (Template.fill_safe hmessage _).bind fun message _ => ?_
      exact (Template.fill_safe hplain.hint _).bind fun _ _ => trivial

private theorem accountsStructs_yields (hn : ∀ t ∈ p.types, t.FitNames may) :
    Yields may (fun ts => ∀ t ∈ ts, t ∈ p.types) p.accountsStructs := by
  refine Yields.collectM fun t ht => ?_
  split
  · exact fun u hu => (by cases hu)
  · refine ((hn t ht).hasFact _).bind fun has _ => ?_
    intro u hu
    split at hu
    · rw [← Option.some.inj hu]
      exact ht
    · cases hu

namespace Rule

private theorem passedSysvars_safe (hp : p.TypesInRange) (hn : ∀ t ∈ p.types, t.FitNames may)
    (r : Rule) {check : DeclarationCheck} (hcheck : Template.isPlain check.message = true)
    {struct : TypeDecl} (hs : struct ∈ p.types) : Safe may (r.passedSysvars check p struct) := by
  unfold passedSysvars
  refine (Yields.collectM_safe fun d hd => ?_).bind fun passed _ => ?_
  · have htype := hp.field struct hs d hd
    unfold passedSysvar?
    refine htype.type?.bind fun z hz => ?_
    cases z with
    | none => trivial
    | some t =>
      refine ((fitName_some (hn t (hz t rfl)).path).pathMatches _).bind fun sysvar _ => ?_
      split
      · trivial
      · refine (hp.innerType htype).bind fun inner hinner => hinner.type?.bind fun z hz => ?_
        cases z with
        | none => trivial
        | some s => exact (hn s (hz s rfl)).name.bind fun _ _ => trivial
  · split
    · trivial
    · exact (Template.fill_safe hcheck _).bind fun _ _ => trivial
    · trivial

private theorem mutableAccount?_yields (hp : p.TypesInRange) (hn : ∀ t ∈ p.types, t.FitNames may)
    {d : FieldDecl} (hd : p.InTable d.type) :
    Yields may (fun z => ∀ x, z = some x → x.1 = d ∧ ∃ i, x.2 = .index i) (mutableAccount? p d) := by
  unfold mutableAccount?
  refine hd.type?.bind fun z hz => ?_
  cases z with
  | none => exact fun x hx => (by cases hx)
  | some t =>
    dsimp only
    split
    · exact fun x hx => (by cases hx)
    · refine ((fitName_some (hn t (hz t rfl)).path).pathMatches _).bind fun account _ => ?_
      split
      · exact fun x hx => (by cases hx)
      · refine (hp.innerType hd).bind fun inner hinner => ?_
        intro x hx
        obtain ⟨u, hu, rfl⟩ := Option.map_eq_some_iff.mp hx
        obtain ⟨i, hi, _⟩ := hinner u hu
        exact ⟨rfl, i, hi⟩

private theorem duplicateAccounts_safe (hp : p.TypesInRange) (hn : ∀ t ∈ p.types, t.FitNames may)
    (r : Rule) {check : DeclarationCheck} (hmessage : Template.isPlain check.message = true)
    (hhint : Template.isPlain check.hint = true) {struct : TypeDecl} (hs : struct ∈ p.types) :
    Safe may (r.duplicateAccounts check p struct) := by
  unfold duplicateAccounts
  have hfound : Yields may (fun found => ∀ x ∈ found, x.1 ∈ struct.fields ∧ ∃ i, x.2 = .index i)
      (collectM (mutableAccount? p) struct.fields) := by
    refine Yields.collectM fun d hd => ?_
    refine (mutableAccount?_yields hp hn (hp.field struct hs d hd)).mono fun z hz x hx => ?_
    obtain ⟨heq, hi⟩ := hz x hx
    rw [heq]
    exact ⟨hd, hi⟩
  refine hfound.bind fun found hfound => ?_
  refine (TypeRef.sorted_yields fun t ht => ?_).bind fun inners _ => ?_
  · obtain ⟨x, hx, rfl⟩ := List.mem_map.mp (mem_distinct.mp ht)
    exact (hfound x hx).2
  · refine Yields.collectM_safe fun pair hpair => ?_
    obtain ⟨t, _, hpair⟩ := List.mem_flatMap.mp hpair
    have hfield : ∀ d ∈ (found.filter (·.2 == t)).map (·.1), Fit may d.name := by
      intro d hd
      obtain ⟨x, hx, rfl⟩ := List.mem_map.mp hd
      exact (hn struct hs).fields x.1 (hfound x (List.mem_filter.mp hx).1).1
    obtain ⟨ha, hb⟩ := mem_of_mem_pairs hpair
    unfold duplicatePair
    have hdistinct : Safe may (areDistinct pair.1 pair.2) := by
      refine ((hfield _ hb).isIn _).bind fun found _ => ?_
      split
      · trivial
      · exact (hfield _ ha).isIn _
    refine hdistinct.bind fun distinct _ => ?_
    split
    · trivial
    · refine (Template.fill_safe hmessage _).bind fun _ _ => ?_
      exact (Template.fill_safe hhint _).bind fun _ _ => trivial

private theorem declarationFindings_safe (hp : p.TypesInRange) (hn : ∀ t ∈ p.types, t.FitNames may)
    {r : Rule} (hr : r.Plain) : Safe may (r.declarationFindings p) := by
  unfold declarationFindings
  split
  · trivial
  · rename_i check hcheck
    obtain ⟨hmessage, hhint⟩ := hr.declaration check hcheck
    refine (accountsStructs_yields hn).bind fun structs hstructs => ?_
    refine Yields.concatM_safe fun s hs => ?_
    split
    · exact r.passedSysvars_safe hp hn hmessage (hstructs s hs)
    · exact r.duplicateAccounts_safe hp hn hmessage hhint (hstructs s hs)

end Rule

/-- The findings of a program can be put together from the reports on its functions. -/
theorem programFindings_safe (hp : p.TypesInRange) (hn : ∀ t ∈ p.types, t.FitNames may)
    {rules : List Rule} (hrules : ∀ r ∈ rules, r.Plain) (tags : List Value)
    {reports : List FunctionReport}
    (hreports : ∀ r ∈ reports, r.skipped = false → r.types.InTable p) :
    Safe may (programFindings p rules tags reports) := by
  unfold programFindings
  refine (typeFindings_safe hp hn hrules (mergedTypes_inTable hreports) tags).bind fun _ _ => ?_
  refine (Yields.concatM_safe fun r hr => ?_).bind fun _ _ => trivial
  exact Rule.declarationFindings_safe hp hn (hrules r hr)

end AccountLint

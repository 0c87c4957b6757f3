import Mathlib.Data.List.Sort
import Mathlib.Data.Multiset.Basic
import AccountLint.Proofs.Cosplay.Verdict
import AccountLint.Proofs.Outcome
import AccountLint.Proofs.Reordering.Run
import AccountLint.Proofs.Total.Run
import AccountLint.Proofs.Verdict.Function

/-! With more types to tell apart, no type is reported less. So a function that is added to a
program never takes a type out of the report. -/
namespace AccountLint

/-- What is said about a type: which one it is, and whether it is one of several enums. -/
def TypeVerdict.subject (v : TypeVerdict) : TypeDecl × Bool := (v.type, v.ambiguous)

namespace TypeSet

variable {s t : TypeSet} {p : Program} {tags : List Value} {ts us : List TypeDecl} {d : TypeDecl}

private theorem declared_sublist (h : s.ids ⊆ t.ids) : (s.declared p).Sublist (t.declared p) := by
  have hids : s.ids.Sublist t.ids :=
    List.sublist_of_subperm_of_pairwise (s.nodup_ids.subperm h) s.pairwise_ids t.pairwise_ids
  exact hids.filterMap _

/-- Types that can be told apart together are still so without some of them: one enum has enough
variants for fewer structs. -/
theorem ToldApart.of_sublist (h : ToldApart p us) (hs : ts.Sublist us) : ToldApart p ts := by
  rcases h with rfl | ⟨e, rfl, he⟩ | ⟨hstruct, e, hmem, henum, hvariants, hembeds⟩
  · exact Or.inl (List.sublist_nil.mp hs)
  · rcases List.sublist_singleton.mp hs with rfl | rfl
    · exact Or.inl rfl
    · exact Or.inr (Or.inl ⟨e, rfl, he⟩)
  · have hlength := hs.length_le
    refine Or.inr (Or.inr ⟨fun d hd => hstruct d (hs.subset hd), e, hmem, henum, by omega, ?_⟩)
    exact fun d hd => hembeds d (hs.subset hd)

private theorem Confusable.of_sublist (h : Confusable p tags ts d) (hs : ts.Sublist us) :
    Confusable p tags us d := by
  have hlength := (hs.filter TypeDecl.isEnum).length_le
  exact h.imp_left (And.imp_right fun hseveral => hseveral.trans hlength)

private theorem confused_thins (h : s.ids ⊆ t.ids) (p : Program) (tags : List Value) :
    Thins TypeVerdict.subject (t.confused p tags) (s.confused p tags) := by
  have hs := declared_sublist (p := p) h
  have hsubject : ∀ set : TypeSet, (set.confused p tags).map TypeVerdict.subject =
      ((set.declared p).filter fun d => Confusable p tags (set.declared p) d).map
        fun d => (d, d.isEnum) := by
    intro set
    unfold confused
    rw [List.map_map]
    rfl
  rw [Thins, hsubject, hsubject]
  refine List.Sublist.map _ (.trans ?_ (hs.filter _))
  refine List.monotone_filter_right _ fun d hd => ?_
  exact decide_eq_true ((of_decide_eq_true hd).of_sublist hs)

/-- If there is a verdict on a set, there is one on each set of fewer types, and it reports no
further types. -/
theorem verdict_follows (h : s.ids ⊆ t.ids) (p : Program) (tags : List Value) :
    Follows (Thins TypeVerdict.subject) (t.verdict p tags) (s.verdict p tags) := by
  intro ws hws
  obtain ⟨hsome, hcases⟩ := verdict_eq_ok.mp hws
  have hs := declared_sublist (p := p) h
  have hsome' : ∀ i ∈ s.ids, (typeAt? p.types i).isSome = true := fun i hi => hsome i (h hi)
  -- Fewer types may be told apart together where more are not, but not the other way round.
  by_cases htold : ToldApart p (s.declared p)
  · exact ⟨[], verdict_eq_ok.mpr ⟨hsome', Or.inl ⟨htold, rfl⟩⟩, List.nil_sublist _⟩
  · rcases hcases with ⟨htold', _⟩ | ⟨_, hends, rfl⟩
    · exact absurd (htold'.of_sublist hs) htold
    · refine ⟨s.confused p tags, verdict_eq_ok.mpr ⟨hsome', Or.inr ⟨htold, ?_, rfl⟩⟩,
        confused_thins h p tags⟩
      exact fun d hd => hends d (hs.subset hd)

/-- Where the ids of types are their positions, a type that is reported has a site. -/
theorem sites_ne_nil (hid : ∀ (i : Nat) t, p.types[i]? = some t → t.id = i) {vs : List TypeVerdict}
    (h : s.verdict p tags = .ok vs) : ∀ v ∈ vs, v.sites ≠ [] := by
  intro v hv
  rcases (verdict_eq_ok.mp h).2 with ⟨_, rfl⟩ | ⟨_, _, rfl⟩
  · cases hv
  · obtain ⟨d, hd, rfl⟩ := List.mem_map.mp hv
    obtain ⟨i, hi, hat⟩ := List.mem_filterMap.mp (List.mem_filter.mp hd).1
    obtain ⟨site, hsite, rfl⟩ := mem_ids.mp hi
    have htype : site.type = d.id := by
      unfold typeAt? at hat
      split at hat
      · rw [hid _ _ hat]
        omega
      · cases hat
    exact List.ne_nil_of_mem (mem_sitesOf.mpr ⟨hsite, htype⟩)

end TypeSet

/-- What a finding about a type says: which type it is about, and the message. -/
def Diagnostic.aboutType? (d : Diagnostic) : Option (Value × String) :=
  match d.evidence with
  | .types path _ => some (path, d.message)
  | _ => none

/-- The findings of a run about types, for what they say about them. -/
def RunResult.reportedTypes (r : RunResult) : Multiset (Value × String) :=
  r.diagnostics.filterMap Diagnostic.aboutType?

variable {p : Program} {rules : List Rule} {tags : List Value}

/-- The sites of a type decide where it is reported, but not what is said about it. -/
theorem Rule.typeFinding_follows (r : Rule) (s t : TypeSet) {v w : TypeVerdict}
    (hsubject : v.subject = w.subject) (hsites : v.sites ≠ []) :
    Follows (fun d d' => d'.aboutType? = d.aboutType?) (r.typeFinding t w) (r.typeFinding s v) := by
  obtain ⟨htype, hambiguous⟩ := Prod.mk.inj hsubject
  obtain ⟨first, rest, hv⟩ := List.exists_cons_of_ne_nil hsites
  unfold typeFinding
  rw [hv, htype, hambiguous]
  cases w.sites with
  | nil =>
    intro d hd
    cases hd
  | cons first' rest' =>
    exact .bind_self fun name => .bind_self fun message => .bind_self fun hint => .ok rfl

private theorem typeFindings_follows (hid : ∀ (i : Nat) t, p.types[i]? = some t → t.id = i)
    {s t : TypeSet} (h : s.ids ⊆ t.ids) (tags : List Value) (rules : List Rule) :
    Follows (Thins Diagnostic.aboutType?) (typeFindings p tags rules t)
      (typeFindings p tags rules s) := by
  unfold typeFindings
  cases rules.find? (·.coverage == .structural) with
  | none => exact .ok (.refl [])
  | some r =>
    intro ds hds
    obtain ⟨ws, hws, hds⟩ := bind_eq_ok.mp hds
    obtain ⟨vs, hvs, hthins⟩ := TypeSet.verdict_follows h p tags ws hws
    have hsites := TypeSet.sites_ne_nil hid hvs
    have hfound := Follows.mapM_thins (c := Diagnostic.aboutType?) hthins fun w v hv hsubject =>
      r.typeFinding_follows s t hsubject (hsites v hv)
    obtain ⟨ds', hds', hthins'⟩ := hfound ds hds
    exact ⟨ds', bind_eq_ok.mpr ⟨vs, hvs, hds'⟩, hthins'⟩

/-- No finding in a function is about a type. -/
theorem FunctionReport.aboutType?_eq_none {f : Function} {answer : FunctionReport × List Note}
    (h : ofFunction p rules f = .ok answer) : ∀ d ∈ answer.1.diagnostics, d.aboutType? = none := by
  unfold ofFunction at h
  split at h
  · obtain rfl := Except.ok.inj h
    simp
  · split at h
    · rename_i report hbody
      obtain rfl := Except.ok.inj h
      obtain ⟨facts, _, hbody⟩ := bind_eq_ok.mp hbody
      obtain ⟨dss, hdss, hall⟩ := foldlM_extend_eq_ok hbody
      intro d hd
      rw [hall, List.nil_append] at hd
      obtain ⟨ds, hds, hd⟩ := List.mem_flatten.mp hd
      obtain ⟨r, _, hr⟩ := exists_of_forall₂_right hdss hds
      obtain ⟨guards, s, hs⟩ := Rule.exists_finding_of_mem_findingsIn hr hd
      obtain ⟨_, _, _, _, _, _, _, _, texts, _, hevidence⟩ := Rule.finding_eq_ok hs
      unfold Diagnostic.aboutType?
      rw [hevidence]
    · split at h
      · obtain rfl := Except.ok.inj h
        simp
      · cases h

private theorem filterMap_aboutType? {functions : List Function}
    {answers : List (FunctionReport × List Note)}
    (h : functions.mapM (FunctionReport.ofFunction p rules) = .ok answers) :
    (((answers.map (·.1)).filter (!·.skipped)).flatMap (·.diagnostics)).filterMap
      Diagnostic.aboutType? = [] := by
  refine List.filterMap_eq_nil_iff.mpr fun d hd => ?_
  obtain ⟨report, hreport, hd⟩ := List.mem_flatMap.mp hd
  obtain ⟨answer, hanswer, rfl⟩ := List.mem_map.mp (List.mem_filter.mp hreport).1
  obtain ⟨f, _, hf⟩ := exists_of_forall₂_right (mapM_eq_ok.mp h) hanswer
  exact FunctionReport.aboutType?_eq_none hf d hd

/-- Some of the functions deserialize only types that all of them do. -/
theorem reports_follow {functions functions' : List Function} (h : functions ⊆ functions') :
    Follows (fun answers' answers => (mergedTypes (answers.map (·.1))).ids ⊆
        (mergedTypes (answers'.map (·.1))).ids)
      (functions'.mapM (FunctionReport.ofFunction p rules))
      (functions.mapM (FunctionReport.ofFunction p rules)) := by
  intro answers' hanswers'
  have hall' := mapM_eq_ok.mp hanswers'
  have hreport : ∀ f ∈ functions, ∃ answer, FunctionReport.ofFunction p rules f = .ok answer := by
    intro f hf
    obtain ⟨answer, _, hanswer⟩ := exists_of_forall₂_left hall' (h hf)
    exact ⟨answer, hanswer⟩
  obtain ⟨answers, hanswers⟩ := exists_mapM_ok hreport
  refine ⟨answers, hanswers, fun i hi => ?_⟩
  obtain ⟨site, hsite, htype⟩ := TypeSet.mem_ids.mp hi
  obtain ⟨report, hreport, hsite⟩ := mem_mergedTypes.mp hsite
  refine TypeSet.mem_ids.mpr ⟨site, mem_mergedTypes.mpr ⟨report, ?_, hsite⟩, htype⟩
  rw [filter_reports (mapM_eq_ok.mp hanswers)] at hreport
  rw [filter_reports hall']
  obtain ⟨f, hf, heq⟩ := List.mem_filterMap.mp hreport
  obtain ⟨hmem, hskipped⟩ := List.mem_filter.mp hf
  exact List.mem_filterMap.mpr ⟨f, List.mem_filter.mpr ⟨h hmem, hskipped⟩, heq⟩

/-- What a program's findings say about types is what the findings about types and declarations say.
-/
theorem filterMap_sort_perm {functions : List Function}
    {answers : List (FunctionReport × List Note)}
    (h : functions.mapM (FunctionReport.ofFunction p rules) = .ok answers)
    (types declarations : List Diagnostic) :
    ((Diagnostic.sort (((answers.map (·.1)).filter (!·.skipped)).flatMap (·.diagnostics) ++ types ++
        declarations)).filterMap Diagnostic.aboutType?).Perm
      ((types.map Diagnostic.aboutType?).filterMap id ++
        declarations.filterMap Diagnostic.aboutType?) := by
  refine ((sortBy_perm _ _).filterMap _).trans ?_
  rw [List.filterMap_append, List.filterMap_append, filterMap_aboutType? h, List.nil_append,
    List.filterMap_map]
  rfl

private theorem programFindings_follows (hid : ∀ (i : Nat) t, p.types[i]? = some t → t.id = i)
    {functions functions' : List Function} {answers answers' : List (FunctionReport × List Note)}
    (h : functions.mapM (FunctionReport.ofFunction p rules) = .ok answers)
    (h' : functions'.mapM (FunctionReport.ofFunction p rules) = .ok answers')
    (hids : (mergedTypes (answers.map (·.1))).ids ⊆ (mergedTypes (answers'.map (·.1))).ids) :
    Follows (fun ds' ds => (ds.filterMap Diagnostic.aboutType?).Subperm
        (ds'.filterMap Diagnostic.aboutType?))
      (programFindings p rules tags (answers'.map (·.1)))
      (programFindings p rules tags (answers.map (·.1))) := by
  refine (typeFindings_follows hid hids tags rules).bind fun types' types hthins => ?_
  refine .bind_self fun declarations => .ok ?_
  refine ((filterMap_sort_perm h _ _).subperm_right.trans
    (filterMap_sort_perm h' _ _).subperm_left).mpr ?_
  exact ((hthins.filterMap id).append (List.Sublist.refl _)).subperm

private theorem runRules_follows (hid : ∀ (i : Nat) t, p.types[i]? = some t → t.id = i)
    {functions : List Function} (h : p.functions ⊆ functions) :
    Follows (fun answer' answer => answer.1.reportedTypes ≤ answer'.1.reportedTypes)
      (runRules (p.withFunctions functions) rules tags) (runRules p rules tags) := by
  intro answer' hrun'
  obtain ⟨answers', hanswers', hrun'⟩ := bind_eq_ok.mp hrun'
  have hsame : functions.mapM (FunctionReport.ofFunction p rules) = .ok answers' := by
    rwa [funext (FunctionReport.ofFunction_withFunctions p rules)] at hanswers'
  obtain ⟨answers, hanswers, hids⟩ := reports_follow h answers' hsame
  obtain ⟨ds', hds', hrun'⟩ := bind_eq_ok.mp hrun'
  obtain rfl := pure_eq_ok.mp hrun'
  obtain ⟨ds, hds, hle⟩ := programFindings_follows hid hanswers hsame hids ds' hds'
  exact ⟨_, bind_eq_ok.mpr ⟨answers, hanswers, bind_eq_ok.mpr ⟨ds, hds, rfl⟩⟩, Multiset.coe_le.mpr hle⟩

/-- More types to tell apart never take a type out of the verdict. So a run on a program with
further functions reports every type that the run without them does, if the ids of types are their
positions. -/
theorem reportedTypes_mono (hid : ∀ (i : Nat) t, p.types[i]? = some t → t.id = i) :
    (∀ (tags : List Value) (s t : TypeSet), s.ids ⊆ t.ids →
      (∀ ws, t.verdict p tags = .ok ws → ∃ vs, s.verdict p tags = .ok vs ∧
        (vs.map fun v => (v.type, v.ambiguous)).Sublist (ws.map fun v => (v.type, v.ambiguous))) ∧
      (p.TypesInRange → (∀ d ∈ p.types, d.FitNames fun _ => False) → t.InTable p →
        ∃ ws, t.verdict p tags = .ok ws)) ∧
    (∀ (g : Registry) (c : Config) (p' : Program), p'.types = p.types →
      p.functions ⊆ p'.functions →
      (∀ result' notes', lint g c p' = .ok (result', notes') → ∃ result notes,
        lint g c p = .ok (result, notes) ∧ result.reportedTypes ≤ result'.reportedTypes) ∧
      (p'.WellFormed → (∀ r ∈ (c.apply g).1.enabled, r.Plain) →
        ∃ result' notes', lint g c p' = .ok (result', notes'))) := by
  constructor
  · intro tags s t h
    refine ⟨TypeSet.verdict_follows h p tags, fun hp hn ht => ?_⟩
    obtain ⟨ws, hws, _⟩ := Yields.ok_iff.mp (TypeSet.verdict_yields hp hn ht tags)
    exact ⟨ws, hws⟩
  · intro g c p' htypes h
    constructor
    · intro result' notes' hrun'
      have hp' : p' = p.withFunctions p'.functions := by
        cases p'
        cases htypes
        rfl
      obtain ⟨answer', hanswer', heq⟩ := bind_eq_ok.mp hrun'
      rw [hp'] at hanswer'
      obtain ⟨answer, hanswer, hle⟩ := runRules_follows hid h answer' hanswer'
      rw [← (Prod.mk.inj (pure_eq_ok.mp heq)).1]
      exact ⟨answer.1, _, bind_eq_ok.mpr ⟨answer, hanswer, rfl⟩, hle⟩
    · intro hp' hplain
      obtain ⟨result', notes', hrun', _⟩ := runRules_of_wellFormed hp' hplain c.tags
      exact ⟨result', _, bind_eq_ok.mpr ⟨_, hrun', rfl⟩⟩

/-- Some functions, with a struct without a discriminant and an enum. -/
def Program.stateAndKind (functions : List Function) : Program :=
  { types := [
      { id := 0, path := .text "crate::State", kind := .struct },
      { id := 1, path := .text "crate::Kind", kind := .enum, variants := 2 }]
    functions := functions }

theorem reportedTypes_mono_stateAndKind :
    (∀ (i : Nat) t, (Program.stateAndKind [.deserializing "load" 7]).types[i]? = some t → t.id = i) ∧
      (∃ vs ws,
        (TypeSet.ofSites [TypeSet.siteAt 0 "load" 7]).verdict
          (.stateAndKind [.deserializing "load" 7]) defaultTags = .ok vs ∧
        (TypeSet.ofSites [TypeSet.siteAt 1 "load" 9, TypeSet.siteAt 0 "load" 7]).verdict
          (.stateAndKind [.deserializing "load" 7]) defaultTags = .ok ws ∧
        (vs.map fun v => (v.type, v.ambiguous)).Sublist (ws.map fun v => (v.type, v.ambiguous)) ∧
        ws.map (·.type.id) = [0]) ∧
      ∃ result notes result' notes',
        lint .default {} (.stateAndKind [.deserializing "load" 7]) = .ok (result, notes) ∧
        lint .default {} (.stateAndKind [.deserializing "store" 3, .deserializing "load" 7]) =
          .ok (result', notes') ∧
        result.reportedTypes ≤ result'.reportedTypes ∧
        result'.diagnostics.map (fun d => (d.category, d.location.line)) = [("type-cosplay", 3)] := by
  have hid : ∀ (i : Nat) t,
      (Program.stateAndKind [.deserializing "load" 7]).types[i]? = some t → t.id = i := by
    intro i t h
    rcases i with _ | _ | i
    case zero | succ.zero =>
      rw [← Option.some.inj h]
      rfl
    case succ.succ => cases h
  have hverdict : ((TypeSet.ofSites [TypeSet.siteAt 1 "load" 9, TypeSet.siteAt 0 "load" 7]).verdict
      (.stateAndKind [.deserializing "load" 7]) defaultTags).toOption.map (List.map (·.type.id)) =
        some [0] := by
    decide +kernel
  have hlint : (lint .default {} (.stateAndKind [.deserializing "store" 3, .deserializing "load" 7])
      ).toOption.map (fun a => a.1.diagnostics.map (fun d => (d.category, d.location.line))) =
        some [("type-cosplay", 3)] := by
    decide +kernel
  obtain ⟨ws, hws, hreported⟩ := Option.map_eq_some_iff.mp hverdict
  obtain ⟨⟨result', notes'⟩, hrun', hfound⟩ := Option.map_eq_some_iff.mp hlint
  have hws := ok_of_toOption hws
  have hrun' := ok_of_toOption hrun'
  obtain ⟨hsets, hruns⟩ := reportedTypes_mono hid
  obtain ⟨vs, hvs, hsub⟩ := (hsets defaultTags (TypeSet.ofSites [TypeSet.siteAt 0 "load" 7]) _
    (by decide +kernel)).1 ws hws
  have hadded : (Program.stateAndKind [.deserializing "load" 7]).functions ⊆
      [.deserializing "store" 3, .deserializing "load" 7] := by
    simp [Program.stateAndKind]
  obtain ⟨result, notes, hrun, hle⟩ := (hruns .default {}
    (.stateAndKind [.deserializing "store" 3, .deserializing "load" 7]) rfl hadded).1 result' notes' hrun'
  exact ⟨hid, ⟨vs, ws, hvs, hws, hsub, hreported⟩, result, notes, result', notes', hrun, hrun', hle,
    hfound⟩

end AccountLint

import AccountLint.Proofs.Hardening.Function
import AccountLint.Proofs.Verdict.Program

/-! Hardening adds no finding about deserialized types or about declarations of accounts. -/
namespace AccountLint

variable {p p' : Program}

namespace TypeDecl.Hardens

variable {t t' : TypeDecl}

private theorem embeds (h : t.Hardens t') (i : Int) : t.embeds i = t'.embeds i := by
  refine any_eq_of_forall₂ h.fields fun d d' hd => ?_
  rw [hd.type]

private theorem hasDiscriminant (h : t.Hardens t') (hp : p.Hardens p') (tags : List Value) :
    Agree (· ≤ ·) (t.hasDiscriminant p tags) (t'.hasDiscriminant p' tags) := by
  unfold TypeDecl.hasDiscriminant
  refine (h.hasFact TypeFact.discriminant).orElse (.of_eq ?_ fun b => Bool.le_refl b)
  have hfields := h.fields
  rw [h.isStruct]
  generalize t.fields = ds at hfields
  generalize t'.fields = ds' at hfields
  cases hfields with
  | nil => cases t.isStruct <;> rfl
  | @cons lead lead' _ _ hd _ =>
    cases t.isStruct with
    | false => rfl
    | true =>
      dsimp only
      rw [hd.type, hd.name]
      refine ((hp.type? lead.type).bind_eq fun z z' hz => ?_).symm
      cases hz with
      | none => rfl
      | some hlead =>
        dsimp only
        rw [hlead.isEnum]

private theorem declared (h : t.Hardens t') (r : Rule) : r.declared t' = r.declared t := by
  unfold Rule.declared
  rw [h.path]

end TypeDecl.Hardens

/-- What a finding says about a type: its path, whether it is one of several enums, and the sites.
-/
def TypeVerdict.gist (v : TypeVerdict) : Name × Bool × List DeserializationSite :=
  (v.type.path, v.ambiguous, v.sites)

private theorem Rule.content_typeFinding {r : Rule} {set set' : TypeSet} {v v' : TypeVerdict}
    {d d' : Diagnostic} (hv : v'.gist = v.gist) (h : r.typeFinding set v = .ok d)
    (h' : r.typeFinding set' v' = .ok d') : d'.content = d.content := by
  obtain ⟨hpath, hamb, hsites⟩ : v'.type.path = v.type.path ∧ v'.ambiguous = v.ambiguous ∧
      v'.sites = v.sites := by
    simpa [TypeVerdict.gist] using hv
  obtain ⟨hcat, hid, ⟨first, rest, hs, hfun, hloc, hsec⟩, name, hname, hm, hh⟩ := typeFinding_eq_ok h
  obtain ⟨hcat', hid', ⟨first', rest', hs', hfun', hloc', hsec'⟩, name', hname', hm', hh'⟩ :=
    typeFinding_eq_ok h'
  have hsame : v'.type.name = v.type.name := by
    unfold TypeDecl.name
    rw [hpath]
  rw [hsame, hname] at hname'
  obtain rfl := Except.ok.inj hname'
  rw [hsites, hs] at hs'
  obtain ⟨rfl, rfl⟩ := List.cons.inj hs'
  rw [hamb, hm] at hm'
  rw [hh] at hh'
  unfold Diagnostic.content
  rw [hcat, hid, hfun, hloc, hsec, hcat', hid', hfun', hloc', hsec', Except.ok.inj hm',
    Except.ok.inj hh']

namespace Program.Hardens

private theorem filter_isEnum {ts ts' : List TypeDecl}
    (hts : List.Forall₂ TypeDecl.Hardens ts ts') :
    List.Forall₂ TypeDecl.Hardens (ts.filter TypeDecl.isEnum) (ts'.filter TypeDecl.isEnum) := by
  refine List.rel_filter (fun t t' ht => ?_) hts
  beta_reduce
  rw [ht.isEnum]

private theorem umbrella? (h : p.Hardens p') {ts ts' : List TypeDecl}
    (hts : List.Forall₂ TypeDecl.Hardens ts ts') (n : Int) :
    (p.umbrella? ts n).isSome = (p'.umbrella? ts' n).isSome := by
  unfold Program.umbrella?
  rw [List.isSome_find?, List.isSome_find?]
  refine any_eq_of_forall₂ (filter_isEnum h.types) fun e e' he => ?_
  rw [he.variants, he.id]
  congr 1
  exact all_eq_of_forall₂ hts fun t t' ht => ht.embeds e.id

private theorem areSecure (h : p.Hardens p') {ts ts' : List TypeDecl}
    (hts : List.Forall₂ TypeDecl.Hardens ts ts') :
    TypeSet.areSecure p ts = TypeSet.areSecure p' ts' := by
  have humbrella := h.umbrella? hts
  have hlength := hts.length_eq
  cases hts with
  | nil => rfl
  | cons ht hrest =>
    cases hrest with
    | nil =>
      unfold TypeSet.areSecure
      dsimp only
      rw [ht.isEnum, ht.isStruct, humbrella]
    | cons hu hrest =>
      unfold TypeSet.areSecure
      dsimp only
      rw [humbrella, hlength]
      congr 1
      exact all_eq_of_forall₂ (.cons ht (.cons hu hrest)) fun t t' ht => ht.isStruct.symm

private theorem judge (h : p.Hardens p') (s : TypeSet) (tags : List Value) {ts ts' : List TypeDecl}
    (hts : List.Forall₂ TypeDecl.Hardens ts ts') {t t' : TypeDecl} (ht : t.Hardens t') :
    Agree (fun z z' => Thins TypeVerdict.gist z.toList z'.toList) (s.judge p tags ts t)
      (s.judge p' tags ts' t') := by
  have hcount : (ts'.filter TypeDecl.isEnum).length = (ts.filter TypeDecl.isEnum).length :=
    (filter_isEnum hts).length_eq.symm
  have hgist : ∀ b sites, Thins TypeVerdict.gist [⟨t, b, sites⟩] [⟨t', b, sites⟩] := by
    intro b sites
    unfold Thins TypeVerdict.gist
    rw [List.map_singleton, List.map_singleton, ht.path]
  unfold TypeSet.judge
  rw [ht.isEnum, ht.id, hcount]
  split
  · split
    · exact .ok (hgist true _)
    · exact .ok (.refl [])
  · exact (ht.hasDiscriminant h tags).bind_le (fun _ => .of_right fun _ => List.nil_sublist _)
      (.ok (hgist false _))

private theorem verdict (h : p.Hardens p') (s : TypeSet) (tags : List Value) :
    Agree (Thins TypeVerdict.gist) (s.verdict p tags) (s.verdict p' tags) := by
  have htypes : Alike (List.Forall₂ TypeDecl.Hardens) (s.types p) (s.types p') :=
    .collectM (List.forall₂_same.mpr fun i _ => rfl) fun i j hij => hij ▸ h.type? _
  refine htypes.agree.bind fun ts ts' hts => ?_
  rw [h.areSecure hts]
  split
  · exact .ok (.refl [])
  · exact .collectM (.refl []) Thins.append (hts.imp fun t t' ht => h.judge s tags hts ht)

theorem typeFindings (h : p.Hardens p') (tags : List Value) (rules : List Rule) (s : TypeSet) :
    Agree (Thins Diagnostic.content) (typeFindings p tags rules s) (typeFindings p' tags rules s) := by
  unfold AccountLint.typeFindings
  split
  · exact .ok (.refl [])
  · refine (h.verdict s tags).bind fun vs vs' hvs ds ds' hds hds' => ?_
    exact hvs.forall₂ (mapM_eq_ok.mp hds) (mapM_eq_ok.mp hds')
      fun v d v' d' hv hd hd' => Rule.content_typeFinding hv hd hd'

private theorem accountsStructs (h : p.Hardens p') :
    Alike (List.Forall₂ TypeDecl.Hardens) p.accountsStructs p'.accountsStructs := by
  refine .collectM h.types fun t t' ht => ?_
  rw [ht.isStruct, ht.hasFact_accountsStruct]
  split
  · exact .ok .none
  · refine .bind_self fun declares => ?_
    cases declares with
    | false => exact .ok .none
    | true => exact .ok (.some ht)

private theorem passedSysvar? (h : p.Hardens p') {d d' : FieldDecl} (hd : d.Hardens d') :
    Alike (Option.Rel fun x x' => x.1.Hardens x'.1 ∧ x'.2 = x.2) (Rule.passedSysvar? p d)
      (Rule.passedSysvar? p' d') := by
  unfold Rule.passedSysvar?
  rw [hd.type, h.innerType]
  refine (h.type? d.type).bind fun z z' hz => ?_
  cases hz with
  | none => exact .ok .none
  | some ht =>
    dsimp only
    rw [ht.path]
    refine .bind_self fun isSysvar => ?_
    split
    · exact .ok .none
    · refine .bind_self fun inner => (h.type? inner).bind fun z z' hz => ?_
      cases hz with
      | none => exact .ok .none
      | some hs =>
        dsimp only
        rw [hs.declName]
        refine .bind_self fun name => ?_
        split
        · exact .ok (.some ⟨hd, rfl⟩)
        · exact .ok .none

private theorem passedSysvars (h : p.Hardens p') (r : Rule) (check : DeclarationCheck)
    {s s' : TypeDecl} (hs : s.Hardens s') :
    r.passedSysvars check p s = r.passedSysvars check p' s' := by
  have hdeclared := hs.declared r
  refine (Alike.collectM hs.fields fun d d' hd => h.passedSysvar? hd).bind_eq fun xs xs' hxs => ?_
  rw [hs.location, hdeclared]
  have hnames : xs.map (·.1.name.display) = xs'.map (·.1.name.display) :=
    map_eq_of_forall₂ hxs fun x _ x' hx => by rw [hx.1.name]
  have hplaces : xs.map (·.1.location) = xs'.map (·.1.location) :=
    map_eq_of_forall₂ hxs fun x _ x' hx => by rw [hx.1.location]
  cases hxs with
  | nil => rfl
  | @cons x x' _ _ hx hrest =>
    cases hrest with
    | nil =>
      obtain ⟨d, name⟩ := x
      obtain ⟨d', name'⟩ := x'
      obtain rfl : name' = name := hx.2
      dsimp only
      rw [hx.1.location]
    | cons hy hrest =>
      dsimp only
      rw [hnames, hplaces]

private theorem mutableAccount? (h : p.Hardens p') {d d' : FieldDecl} (hd : d.Hardens d') :
    Alike (Option.Rel fun x x' => x.1.Hardens x'.1 ∧ x'.2 = x.2) (Rule.mutableAccount? p d)
      (Rule.mutableAccount? p' d') := by
  unfold Rule.mutableAccount?
  rw [hd.type, h.innerType, hd.contains_mut]
  refine (h.type? d.type).bind fun z z' hz => ?_
  cases hz with
  | none => exact .ok .none
  | some ht =>
    dsimp only
    split
    · exact .ok .none
    · rw [ht.path]
      refine .bind_self fun isAccount => ?_
      split
      · exact .ok .none
      · refine .bind_self fun inner => ?_
        cases inner with
        | none => exact .ok .none
        | some t => exact .ok (.some ⟨hd, rfl⟩)

private theorem isIn_agree {v : Value} {set set' : List Value} (h : set ⊆ set') :
    Agree (· ≤ ·) (v.isIn set) (v.isIn set') := by
  unfold Value.isIn
  split
  · refine .ok fun hany => ?_
    obtain ⟨w, hw, hs⟩ := List.any_eq_true.mp hany
    exact List.any_eq_true.mpr ⟨w, h hw, hs⟩
  · exact .of_eq rfl fun b => Bool.le_refl b

/-- Two fields that were declared to differ still are, and others give the same finding or none. -/
theorem duplicatePair (r : Rule) (check : DeclarationCheck) {s s' : TypeDecl} (hs : s.Hardens s')
    {q q' : FieldDecl × FieldDecl} (hq : q.1.Hardens q'.1 ∧ q.2.Hardens q'.2) :
    Agree (fun z z' => Thins Diagnostic.content z.toList z'.toList) (r.duplicatePair check s q)
      (r.duplicatePair check s' q') := by
  obtain ⟨ha, hb⟩ := hq
  have hdistinct : Agree (· ≤ ·) (Rule.areDistinct q.1 q.2) (Rule.areDistinct q'.1 q'.2) := by
    unfold Rule.areDistinct
    rw [ha.name, hb.name]
    exact (isIn_agree ha.distinctFrom).orElse (isIn_agree hb.distinctFrom)
  unfold Rule.duplicatePair
  dsimp only
  refine hdistinct.bind_le (fun _ => .of_right fun _ => List.nil_sublist _) ?_
  rw [ha.name, hb.name, ha.location, hb.location, hs.declared]
  exact .of_eq rfl fun z => .refl _

/-- The pairs of fields with the same argument correspond. -/
theorem pairs_of_arguments {xs xs' : List (FieldDecl × TypeRef)}
    (hxs : List.Forall₂ (fun x x' => x.1.Hardens x'.1 ∧ x'.2 = x.2) xs xs') (ts : List TypeRef) :
    List.Forall₂ (fun q q' => q.1.Hardens q'.1 ∧ q.2.Hardens q'.2)
      (ts.flatMap fun t => pairs ((xs.filter (·.2 == t)).map (·.1)))
      (ts.flatMap fun t => pairs ((xs'.filter (·.2 == t)).map (·.1))) := by
  induction ts with
  | nil => exact .nil
  | cons t ts ih =>
    have hfilter := List.rel_filter (p := (·.2 == t)) (q := (·.2 == t))
      (fun x x' hx => by beta_reduce; rw [hx.2]) hxs
    have hfields : List.Forall₂ FieldDecl.Hardens ((xs.filter (·.2 == t)).map (·.1))
        ((xs'.filter (·.2 == t)).map (·.1)) := List.rel_map (fun _ _ hx => hx.1) hfilter
    rw [List.flatMap_cons, List.flatMap_cons]
    exact List.rel_append (forall₂_pairs hfields) ih

private theorem duplicateAccounts (h : p.Hardens p') (r : Rule) (check : DeclarationCheck)
    {s s' : TypeDecl} (hs : s.Hardens s') :
    Agree (Thins Diagnostic.content) (r.duplicateAccounts check p s)
      (r.duplicateAccounts check p' s') := by
  refine (Alike.collectM hs.fields fun d d' hd => h.mutableAccount? hd).agree.bind
    fun xs xs' hxs => ?_
  have hinners : xs.map (·.2) = xs'.map (·.2) := map_eq_of_forall₂ hxs fun x _ x' hx => hx.2.symm
  rw [hinners]
  refine .bind_self fun inners _ => .collectM (.refl []) Thins.append ?_
  exact (pairs_of_arguments hxs inners).imp fun q q' hq => duplicatePair r check hs hq

theorem declarationFindings (h : p.Hardens p') (r : Rule) :
    Agree (Thins Diagnostic.content) (r.declarationFindings p) (r.declarationFindings p') := by
  unfold Rule.declarationFindings
  split
  · exact .ok (.refl [])
  · refine h.accountsStructs.agree.bind fun ss ss' hss => ?_
    refine .concatM (.refl []) Thins.append (hss.imp fun s s' hs => ?_)
    split
    · exact .of_eq (h.passedSysvars r _ hs).symm fun ds => .refl ds
    · exact h.duplicateAccounts r _ hs

end Program.Hardens
end AccountLint

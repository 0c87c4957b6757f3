import AccountLint.Proofs.Cosplay.Verdict
import AccountLint.Proofs.Renumbering.Function
import AccountLint.Proofs.Reordering.Run

/-! The findings about types and declarations do not depend on the numbering of types, but for their
order. -/
namespace AccountLint

variable {ρ : Equiv.Perm Int} {p p' : Program}

def TypeSet.renumber (ρ : Equiv.Perm Int) (s : TypeSet) : TypeSet :=
  ⟨s.sites.map (DeserializationSite.renumber ρ)⟩

def TypeVerdict.renumber (ρ : Equiv.Perm Int) (v : TypeVerdict) : TypeVerdict :=
  ⟨v.type.renumber ρ, v.ambiguous, v.sites.map (DeserializationSite.renumber ρ)⟩

namespace TypeSet

variable (s : TypeSet)

private theorem ids_renumber : (s.renumber ρ).ids.Perm (s.ids.map ρ) := by
  have htypes : (s.renumber ρ).sites.map (·.type) = (s.sites.map (·.type)).map ρ := by
    unfold renumber
    rw [List.map_map, List.map_map]
    rfl
  unfold ids
  rw [htypes, distinct_map ρ.injective]
  exact (sortBy_perm _ _).trans ((sortBy_perm _ _).map ρ).symm

theorem size_renumber : (s.renumber ρ).size = s.size := by
  unfold size
  rw [s.ids_renumber.length_eq, List.length_map]

/-- The sites of a type are in an order that does not look at its number. -/
theorem sitesOf_renumber (i : Int) :
    (s.renumber ρ).sitesOf (ρ i) = (s.sitesOf i).map (DeserializationSite.renumber ρ) := by
  have hfilter : (s.renumber ρ).sites.filter (·.type == ρ i) =
      (s.sites.filter (·.type == i)).map (DeserializationSite.renumber ρ) := by
    unfold renumber
    rw [List.filter_map]
    exact congrArg (fun test => (s.sites.filter test).map _) (funext fun site => ρ.injective.beq_eq)
  have hle : ∀ a b, DeserializationSite.le a b = (a.renumber ρ).le (b.renumber ρ) := fun _ _ => rfl
  unfold sitesOf
  rw [hfilter, map_sortBy hle]

end TypeSet

private theorem TypeDecl.embeds_renumber (t : TypeDecl) (i : Int) :
    (t.renumber ρ).embeds (ρ i) = t.embeds i := by
  unfold embeds renumber
  rw [List.any_map]
  refine congrArg (fun test => t.fields.any test) (funext fun d => ?_)
  exact (Option.map_injective (TypeRef.renumber_injective ρ)).beq_eq (b := some (.index i))

private theorem Rule.typeFinding_renumber (r : Rule) (s : TypeSet) (v : TypeVerdict) :
    r.typeFinding (s.renumber ρ) (v.renumber ρ) = r.typeFinding s v := by
  unfold typeFinding
  rw [s.size_renumber, show (v.renumber ρ).sites = v.sites.map (DeserializationSite.renumber ρ) from rfl]
  cases v.sites with
  | nil => rfl
  | cons first rest =>
    rw [List.map_cons]
    dsimp only
    rw [List.map_map]
    rfl

namespace Program.Renumbers

variable (h : p.Renumbers ρ p')
include h

private theorem enums : p'.enums.Perm (p.enums.map (TypeDecl.renumber ρ)) := by
  have hperm := h.types.filter TypeDecl.isEnum
  rw [List.filter_map] at hperm
  exact hperm

/-- Whether there is an enum that all types embed does not depend on which one is found first. -/
theorem umbrella? {ts ts' : List TypeDecl} (hts : ts'.Perm (ts.map (TypeDecl.renumber ρ)))
    (n : Int) :
    (p'.umbrella? ts' n).isSome = (p.umbrella? ts n).isSome := by
  unfold Program.umbrella?
  rw [List.isSome_find?, List.isSome_find?, h.enums.any_eq, List.any_map]
  refine congrArg (fun test => p.enums.any test) (funext fun e => ?_)
  refine congrArg (_ && ·) (hts.all_eq.trans (List.all_map.trans ?_))
  exact congrArg (fun test => ts.all test) (funext fun t => t.embeds_renumber e.id)

private theorem areSecure {ts ts' : List TypeDecl} (hts : ts'.Perm (ts.map (TypeDecl.renumber ρ))) :
    TypeSet.areSecure p' ts' = TypeSet.areSecure p ts := by
  rw [TypeSet.areSecure_eq, TypeSet.areSecure_eq, h.umbrella? hts, hts.isEmpty_eq, hts.length_eq,
    hts.all_eq, hts.all_eq, List.isEmpty_map, List.length_map, List.all_map, List.all_map]
  rfl

private theorem hasDiscriminant (t : TypeDecl) (tags : List Value) :
    (t.renumber ρ).hasDiscriminant p' tags = t.hasDiscriminant p tags := by
  unfold TypeDecl.hasDiscriminant
  refine bind_congr fun discriminated => ite_congr rfl (fun _ => rfl) fun _ => ?_
  rw [show (t.renumber ρ).isStruct = t.isStruct from rfl,
    show (t.renumber ρ).fields = t.fields.map (FieldDecl.renumber ρ) from rfl]
  cases t.isStruct with
  | false => rfl
  | true =>
    cases t.fields with
    | nil => rfl
    | cons lead rest =>
      refine bind_of_exceptMap (h.type? lead.type) fun z => ?_
      cases z <;> rfl

private theorem judge (s : TypeSet) (tags : List Value) {ts ts' : List TypeDecl}
    (hts : ts'.Perm (ts.map (TypeDecl.renumber ρ))) (t : TypeDecl) :
    (s.renumber ρ).judge p' tags ts' (t.renumber ρ) =
      (s.judge p tags ts t).map (Option.map (TypeVerdict.renumber ρ)) := by
  have hcount : (ts'.filter TypeDecl.isEnum).length = (ts.filter TypeDecl.isEnum).length := by
    rw [(hts.filter _).length_eq, List.filter_map, List.length_map]
    rfl
  unfold TypeSet.judge
  rw [hcount, h.hasDiscriminant, show (t.renumber ρ).id = ρ t.id from rfl, s.sitesOf_renumber,
    exceptMap_ite, exceptMap_bind]
  refine ite_congr rfl (fun _ => ?_) fun _ => bind_congr fun discriminated => ?_
  · split <;> rfl
  · split <;> rfl

private theorem verdict (s : TypeSet) (tags : List Value) :
    Follows (fun vs vs' => (vs.map (TypeVerdict.renumber ρ)).Perm vs') (s.verdict p tags)
      ((s.renumber ρ).verdict p' tags) := by
  have htypes : Follows (fun ts ts' => (ts.map (TypeDecl.renumber ρ)).Perm ts') (s.types p)
      ((s.renumber ρ).types p') := by
    have hmap : collectM (fun i => p'.type? (some (.index i))) (s.ids.map ρ) =
        (s.types p).map (List.map (TypeDecl.renumber ρ)) := by
      refine collectM_exceptMap (fun i => ?_) s.ids
      exact h.type? (some (.index i))
    refine Follows.of_exceptMap_left ?_
    rw [← hmap]
    exact Follows.collectM_perm s.ids_renumber.symm _
  refine htypes.bind fun ts ts' hts => ?_
  rw [h.areSecure hts.symm]
  split
  · exact .ok .nil
  · refine Follows.of_exceptMap_left ?_
    rw [← collectM_exceptMap (h.judge s tags hts.symm)]
    exact Follows.collectM_perm hts _

theorem typeFindings (tags : List Value) (rules : List Rule) (s : TypeSet) :
    Follows List.Perm (typeFindings p tags rules s) (typeFindings p' tags rules (s.renumber ρ)) := by
  unfold AccountLint.typeFindings
  split
  · exact .ok .nil
  · rename_i r _
    refine (h.verdict s tags).bind fun vs vs' hvs => ?_
    have hsame : (vs.map (TypeVerdict.renumber ρ)).mapM (r.typeFinding (s.renumber ρ)) =
        vs.mapM (r.typeFinding s) := by
      rw [List.mapM_map]
      exact congrArg (fun step => vs.mapM step) (funext fun v => r.typeFinding_renumber s v)
    rw [← hsame]
    exact Follows.mapM_perm hvs _

private theorem accountsStructs :
    Follows (fun ss ss' => (ss.map (TypeDecl.renumber ρ)).Perm ss') p.accountsStructs
      p'.accountsStructs := by
  unfold Program.accountsStructs
  refine Follows.of_exceptMap_left ?_
  rw [← collectM_exceptMap (k := TypeDecl.renumber ρ) fun t => ?_]
  · exact Follows.collectM_perm h.types.symm _
  · rw [exceptMap_ite, exceptMap_bind]
    refine ite_congr rfl (fun _ => rfl) fun _ => bind_congr fun declares => ?_
    cases declares <;> rfl

private theorem passedSysvar? (d : FieldDecl) :
    Rule.passedSysvar? p' (d.renumber ρ) =
      (Rule.passedSysvar? p d).map (Option.map (Prod.map (FieldDecl.renumber ρ) id)) := by
  unfold Rule.passedSysvar?
  refine exceptMap_bind_of_exceptMap (h.type? d.type) fun z => ?_
  cases z with
  | none => rfl
  | some t =>
    dsimp only [Option.map_some]
    rw [exceptMap_bind]
    refine bind_congr fun isSysvar => ?_
    rw [exceptMap_ite]
    refine ite_congr rfl (fun _ => rfl) fun _ => ?_
    refine exceptMap_bind_of_exceptMap (h.innerType d.type) fun inner => ?_
    refine exceptMap_bind_of_exceptMap (h.type? inner) fun z => ?_
    cases z with
    | none => rfl
    | some s =>
      dsimp only [Option.map_some]
      rw [exceptMap_bind]
      refine bind_congr fun name => ?_
      split <;> rfl

private theorem passedSysvars (r : Rule) (check : DeclarationCheck) (struct : TypeDecl) :
    r.passedSysvars check p' (struct.renumber ρ) = r.passedSysvars check p struct := by
  have hpassed : collectM (Rule.passedSysvar? p') (struct.renumber ρ).fields =
      (collectM (Rule.passedSysvar? p) struct.fields).map
        (List.map (Prod.map (FieldDecl.renumber ρ) id)) := collectM_exceptMap h.passedSysvar? _
  unfold Rule.passedSysvars
  rw [hpassed, bind_exceptMap]
  refine bind_congr fun passed => ?_
  rcases passed with _ | ⟨⟨d, name⟩, _ | ⟨x, rest⟩⟩
  · rfl
  · rfl
  · simp only [List.map_cons, List.map_map]
    rfl

private theorem mutableAccount? (d : FieldDecl) :
    Rule.mutableAccount? p' (d.renumber ρ) =
      (Rule.mutableAccount? p d).map
        (Option.map (Prod.map (FieldDecl.renumber ρ) (TypeRef.renumber ρ))) := by
  unfold Rule.mutableAccount?
  refine exceptMap_bind_of_exceptMap (h.type? d.type) fun z => ?_
  cases z with
  | none => rfl
  | some t =>
    dsimp only [Option.map_some]
    rw [exceptMap_ite]
    refine ite_congr rfl (fun _ => rfl) fun _ => ?_
    rw [exceptMap_bind]
    refine bind_congr fun isAccount => ?_
    rw [exceptMap_ite]
    refine ite_congr rfl (fun _ => rfl) fun _ => ?_
    refine exceptMap_bind_of_exceptMap (h.innerType d.type) fun inner => ?_
    cases inner <;> rfl

private theorem duplicateAccounts (r : Rule) (check : DeclarationCheck) (struct : TypeDecl) :
    Follows List.Perm (r.duplicateAccounts check p struct)
      (r.duplicateAccounts check p' (struct.renumber ρ)) := by
  have hfound : collectM (Rule.mutableAccount? p') (struct.renumber ρ).fields =
      (collectM (Rule.mutableAccount? p) struct.fields).map
        (List.map (Prod.map (FieldDecl.renumber ρ) (TypeRef.renumber ρ))) :=
    collectM_exceptMap h.mutableAccount? _
  have hfields : ∀ (found : List (FieldDecl × TypeRef)) (ts : List TypeRef),
      (ts.flatMap fun t => pairs ((found.filter (·.2 == t)).map (·.1))) =
        (ts.flatMap fun t => pairs (found.filter (·.2 == t))).map (Prod.map Prod.fst Prod.fst) := by
    intro found ts
    simp only [pairs_map, List.map_flatMap]
  have hkey : ∀ x : FieldDecl × TypeRef,
      (Prod.map (FieldDecl.renumber ρ) (TypeRef.renumber ρ) x).2 = x.2.renumber ρ := fun _ => rfl
  unfold Rule.duplicateAccounts
  simp only [hfound, bind_exceptMap, hfields]
  refine Follows.bind_self fun found => ?_
  refine (Akin.of_alike (sorted_pairs_renumber hkey found)).follows.bind fun ts ts' hperm => ?_
  have hpairs := hperm.symm.map (Prod.map Prod.fst Prod.fst)
  refine Follows.trans_perm (.of_eq ?_ List.Perm.refl) (Follows.collectM_perm hpairs _)
  rw [collectM_map, collectM_map, collectM_map]
  rfl

theorem declarationFindings (r : Rule) :
    Follows List.Perm (r.declarationFindings p) (r.declarationFindings p') := by
  unfold Rule.declarationFindings
  cases r.declaration with
  | none => exact .ok .nil
  | some check =>
    refine h.accountsStructs.bind fun ss ss' hss => ?_
    refine Follows.trans_perm (Follows.concatM ?_) (Follows.concatM_perm hss _)
    refine List.forall₂_map_right_iff.mpr (List.forall₂_same.mpr fun s _ => ?_)
    cases check.kind with
    | sysvarAccountFields =>
      exact .of_eq (h.passedSysvars r check s) List.Perm.refl
    | duplicateMutableFields => exact h.duplicateAccounts r check s

end Program.Renumbers

end AccountLint

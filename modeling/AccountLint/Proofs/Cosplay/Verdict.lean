import AccountLint.Proofs.Rule.Paths
import AccountLint.Proofs.Total.Program

/-! The verdict on deserialized types, said without the search for it: which types have a
discriminant, which types can be told apart together, and which of the others are reported. -/
namespace AccountLint

/-- A name that is a text and agrees with a pattern. -/
def Value.Names (pattern : String) (v : Value) : Prop :=
  ∃ s, v = .text s ∧ Text.nameMatches pattern s = true

instance (pattern : String) (v : Value) : Decidable (v.Names pattern) :=
  decidable_of_iff (v.text?.any (Text.nameMatches pattern) = true) <| by
    cases v <;> simp [Value.Names, Value.text?]

private theorem pathMatches_eq_ok {pattern : String} {v : Value} {b : Bool}
    (h : pathMatches pattern (some v) = .ok b) : b = true ↔ v.Names pattern := by
  have htrue : pathMatches pattern (some v) = .ok true ↔ v.Names pattern := by
    rw [pathMatches_eq_true_iff]
    simp only [Option.some.injEq, Value.Names]
  rw [← htrue, h, Except.ok.injEq]

theorem Value.isIn_iff {v : Value} {set : List Value} {b : Bool} (h : v.isIn set = .ok b) :
    b = true ↔ ∃ n ∈ set, v.same n = true := by
  unfold Value.isIn at h
  split at h
  · rw [← Except.ok.inj h, List.any_eq_true]
  · cases h

def Program.IsEnum (p : Program) (r : Option TypeRef) : Prop :=
  ∃ e, p.type? r = .ok (some e) ∧ e.kind = .enum

instance (p : Program) (r : Option TypeRef) : Decidable (p.IsEnum r) :=
  decidable_of_iff ((p.type? r).toOption.join.any TypeDecl.isEnum = true) <| by
    unfold Program.IsEnum TypeDecl.isEnum
    rcases p.type? r with _ | _ | e <;> simp [Except.toOption]

theorem TypeDecl.isEnum_iff {t : TypeDecl} : t.isEnum = true ↔ t.kind = .enum := by
  unfold isEnum
  exact beq_iff_eq

theorem TypeDecl.isStruct_iff {t : TypeDecl} : t.isStruct = true ↔ t.kind = .struct := by
  unfold isStruct
  exact beq_iff_eq

namespace TypeDecl

/-- A type whose declaration says that it has a discriminant: by an attribute, by a trait or as a
wrapper that checks it. -/
def Marked (t : TypeDecl) : Prop :=
  .text TypeFact.discriminant ∈ t.attributes ∨ (∃ tr ∈ t.traits, tr.Names Paths.discriminator) ∨
    t.path.Names Paths.account ∨ t.path.Names Paths.accountLoader

/-- A struct whose leading field is an enum or is called by the name of a tag. -/
def LeadsWithTag (t : TypeDecl) (p : Program) (tags : List Value) : Prop :=
  t.kind = .struct ∧ ∃ lead ∈ t.fields.head?,
    p.IsEnum lead.type ∨ ∃ tag ∈ tags, lead.name.same tag = true

/-- A type that can be told apart by itself. -/
def Discriminated (t : TypeDecl) (p : Program) (tags : List Value) : Prop :=
  t.Marked ∨ t.LeadsWithTag p tags

instance (t : TypeDecl) : Decidable t.Marked := inferInstanceAs (Decidable (_ ∨ _))

instance (t : TypeDecl) (p : Program) (tags : List Value) : Decidable (t.LeadsWithTag p tags) :=
  inferInstanceAs (Decidable (_ ∧ _))

instance (t : TypeDecl) (p : Program) (tags : List Value) : Decidable (t.Discriminated p tags) :=
  inferInstanceAs (Decidable (_ ∨ _))

variable {t : TypeDecl} {p : Program} {tags : List Value} {b : Bool}

private theorem hasFact_eq_ok {fact : String} (h : t.hasFact fact = .ok b) :
    b = true ↔ .text fact ∈ t.attributes ∨
      (∃ w ∈ TypeFact.impliedByPath, fact ∈ w.2 ∧ t.path.Names w.1) ∨
      ∃ w ∈ TypeFact.impliedByTrait, w.2 = fact ∧ ∃ tr ∈ t.traits, tr.Names w.1 := by
  have hattr : t.attributes.any (Value.same (.text fact)) = true ↔ .text fact ∈ t.attributes := by
    simp [List.any_eq_true, Value.text_same_iff]
  unfold hasFact at h
  split at h
  · rename_i hmem
    obtain rfl := pure_eq_ok.mp h
    exact iff_of_true rfl (Or.inl (hattr.mp hmem))
  · rename_i hmem
    rw [hattr] at hmem
    obtain ⟨byPath, hpath, h⟩ := bind_eq_ok.mp h
    have hpath := anyM_iff (P := fun w => fact ∈ w.2 ∧ t.path.Names w.1) hpath fun w _ c hc => by
      dsimp only at hc
      split at hc
      · rename_i hfact
        rw [pathMatches_eq_ok hc]
        exact ⟨fun hn => ⟨List.contains_iff_mem.mp hfact, hn⟩, fun hn => hn.2⟩
      · rename_i hfact
        obtain rfl := Except.ok.inj hc
        simpa using fun hin => absurd (List.contains_iff_mem.mpr hin) hfact
    cases byPath with
    | true =>
      obtain rfl := pure_eq_ok.mp h
      exact iff_of_true rfl (Or.inr (Or.inl (hpath.mp rfl)))
    | false =>
      have htrait := anyM_iff (P := fun w => w.2 = fact ∧ ∃ tr ∈ t.traits, tr.Names w.1) h
        fun w _ c hc => by
          dsimp only at hc
          split at hc
          · rename_i hfact
            rw [anyM_iff hc fun tr _ d hd => pathMatches_eq_ok hd]
            exact ⟨fun hn => ⟨beq_iff_eq.mp hfact, hn⟩, fun hn => hn.2⟩
          · rename_i hfact
            obtain rfl := Except.ok.inj hc
            simpa using fun heq => absurd (beq_iff_eq.mpr heq) hfact
      rw [htrait, ← hpath]
      simp [hmem]

private theorem hasFact_discriminant_eq_ok (h : t.hasFact TypeFact.discriminant = .ok b) :
    b = true ↔ t.Marked := by
  rw [hasFact_eq_ok h]
  have hpath : (∃ w ∈ TypeFact.impliedByPath, TypeFact.discriminant ∈ w.2 ∧ t.path.Names w.1) ↔
      t.path.Names Paths.account ∨ t.path.Names Paths.accountLoader := by
    simp [TypeFact.impliedByPath, TypeFact.discriminant, TypeFact.validatesOwner,
      TypeFact.validatesProgramId, TypeFact.signer]
  have htrait : (∃ w ∈ TypeFact.impliedByTrait, w.2 = TypeFact.discriminant ∧
      ∃ tr ∈ t.traits, tr.Names w.1) ↔ ∃ tr ∈ t.traits, tr.Names Paths.discriminator := by
    simp [TypeFact.impliedByTrait, TypeFact.discriminant, TypeFact.accountsStruct]
  rw [hpath, htrait, Marked, or_comm (a := _ ∨ _)]

private theorem hasDiscriminant_eq_ok (h : t.hasDiscriminant p tags = .ok b) :
    b = true ↔ t.Discriminated p tags := by
  obtain ⟨marked, hmarked, h⟩ := bind_eq_ok.mp h
  have hmarked := hasFact_discriminant_eq_ok hmarked
  unfold Discriminated LeadsWithTag
  cases marked with
  | true =>
    obtain rfl := pure_eq_ok.mp h
    exact iff_of_true rfl (Or.inl (hmarked.mp rfl))
  | false =>
    rw [← hmarked, ← isStruct_iff]
    simp only [Bool.false_eq_true, if_false] at h
    split at h
    · rename_i lead rest hstruct hfields
      obtain ⟨z, hz, h⟩ := bind_eq_ok.mp h
      have htag : b = true ↔ p.IsEnum lead.type ∨ ∃ tag ∈ tags, lead.name.same tag = true := by
        unfold Program.IsEnum
        rw [hz]
        rcases z with _ | d
        · simp [Value.isIn_iff h]
        · dsimp only at h
          split at h
          · rename_i henum
            obtain rfl := pure_eq_ok.mp h
            simp [isEnum_iff.mp henum]
          · rename_i henum
            rw [isEnum_iff] at henum
            simp [Value.isIn_iff h, henum]
      simp [htag, hstruct, hfields]
    · rename_i hother
      obtain rfl := pure_eq_ok.mp h
      cases hfields : t.fields with
      | nil => simp
      | cons lead rest =>
        have hstruct : t.isStruct ≠ true := fun hstruct => hother lead rest hstruct hfields
        simp [hstruct]

end TypeDecl

namespace TypeSet

variable {s : TypeSet} {p : Program} {tags : List Value} {ts : List TypeDecl}

/-- Types that can be told apart together: none at all, a single enum, or structs that all have a
field of one enum with enough variants for all of them but one. -/
def ToldApart (p : Program) (ts : List TypeDecl) : Prop :=
  ts = [] ∨ (∃ e, ts = [e] ∧ e.kind = .enum) ∨
    (∀ t ∈ ts, t.kind = .struct) ∧ ∃ e ∈ p.types, e.kind = .enum ∧
      (ts.length : Int) - 1 ≤ e.variants ∧ ∀ t ∈ ts, ∃ d ∈ t.fields, d.type = some (.index e.id)

/-- A type among others that cannot be told apart: one of several enums, or a type of another kind
without a discriminant. -/
def Confusable (p : Program) (tags : List Value) (ts : List TypeDecl) (t : TypeDecl) : Prop :=
  (t.kind = .enum ∧ 2 ≤ (ts.filter TypeDecl.isEnum).length) ∨
    (t.kind ≠ .enum ∧ ¬t.Discriminated p tags)

instance (p : Program) (tags : List Value) (ts : List TypeDecl) (t : TypeDecl) :
    Decidable (Confusable p tags ts t) := inferInstanceAs (Decidable (_ ∨ _))

/-- The declarations of the types of a set, by increasing ids. -/
def declared (s : TypeSet) (p : Program) : List TypeDecl := s.ids.filterMap (typeAt? p.types)

/-- The types of a set that cannot be told apart, by increasing ids and each with the sites of its
id. -/
def confused (s : TypeSet) (p : Program) (tags : List Value) : List TypeVerdict :=
  ((s.declared p).filter fun t => Confusable p tags (s.declared p) t).map fun t =>
    ⟨t, t.isEnum, s.sitesOf t.id⟩

private theorem types_eq_ok : s.types p = .ok ts ↔
    (∀ i ∈ s.ids, (typeAt? p.types i).isSome = true) ∧ ts = s.declared p := by
  refine collectM_eq_filterMap fun i z => ?_
  cases hat : typeAt? p.types i with
  | none => simp [Program.type?, hat]
  | some t => simp [Program.type?, hat, eq_comm]

private theorem map_some_declared (h : ∀ i ∈ s.ids, (typeAt? p.types i).isSome = true) :
    (s.declared p).map some = s.ids.map (typeAt? p.types) := by
  unfold declared
  generalize s.ids = ids at h
  induction ids with
  | nil => rfl
  | cons i ids ih =>
    obtain ⟨hi, hids⟩ := List.forall_mem_cons.mp h
    obtain ⟨t, ht⟩ := Option.isSome_iff_exists.mp hi
    rw [List.filterMap_cons_some ht, List.map_cons, List.map_cons, ih hids, ht]

/-- Types can be told apart together if there are none, if there is a single enum, or if an enum is
embedded in all of them. -/
theorem areSecure_eq (p : Program) (ts : List TypeDecl) :
    areSecure p ts = (ts.isEmpty || (ts.length == 1 && ts.all TypeDecl.isEnum) ||
      (ts.all TypeDecl.isStruct && (p.umbrella? ts ts.length).isSome)) := by
  rcases ts with _ | ⟨t, _ | ⟨u, rest⟩⟩
  · rfl
  · simp [areSecure]
  · simp [areSecure]

private theorem umbrella?_isSome {n : Int} : (p.umbrella? ts n).isSome = true ↔
    ∃ e ∈ p.types, e.kind = .enum ∧ n - 1 ≤ e.variants ∧
      ∀ t ∈ ts, ∃ d ∈ t.fields, d.type = some (.index e.id) := by
  unfold Program.umbrella? Program.enums TypeDecl.embeds
  simp [List.isSome_find?, List.any_eq_true, TypeDecl.isEnum_iff]

theorem areSecure_iff : areSecure p ts = true ↔ ToldApart p ts := by
  have hsingle : ts.length = 1 ∧ (∀ t ∈ ts, t.kind = .enum) ↔ ∃ e, ts = [e] ∧ e.kind = .enum := by
    rw [List.length_eq_one_iff]
    constructor
    · rintro ⟨⟨e, rfl⟩, hall⟩
      exact ⟨e, rfl, hall e List.mem_cons_self⟩
    · rintro ⟨e, rfl, he⟩
      simp [he]
  rw [areSecure_eq]
  simp only [Bool.or_eq_true, Bool.and_eq_true, List.isEmpty_iff, beq_iff_eq, List.all_eq_true,
    TypeDecl.isEnum_iff, TypeDecl.isStruct_iff, umbrella?_isSome, hsingle, or_assoc]
  rfl

/-- The verdict on one of some types, which is a verdict at all if the type is an enum or the search
for its discriminant comes to an end. -/
theorem judge_eq_ok {t : TypeDecl} {z : Option TypeVerdict} :
    s.judge p tags ts t = .ok z ↔
      (t.kind = .enum ∨ ∃ b, t.hasDiscriminant p tags = .ok b) ∧
        z = if Confusable p tags ts t then some ⟨t, t.isEnum, s.sitesOf t.id⟩ else none := by
  unfold judge Confusable
  by_cases henum : t.kind = .enum
  · have hkind : t.isEnum = true := TypeDecl.isEnum_iff.mpr henum
    rw [if_pos hkind, pure_eq_ok]
    simp only [henum, hkind, true_or, true_and, ne_eq, not_true_eq_false, false_and, or_false]
    exact eq_comm
  · have hkind : t.isEnum = false := by
      rw [← Bool.not_eq_true, TypeDecl.isEnum_iff]
      exact henum
    rw [hkind, if_neg Bool.false_ne_true]
    simp only [henum, false_or, false_and, ne_eq, not_false_eq_true, true_and]
    have hverdict : ∀ b, t.hasDiscriminant p tags = .ok b → ∀ v : TypeVerdict,
        (if b = true then pure none else pure (some v)) =
          Except.ok (ε := Fault) (if ¬t.Discriminated p tags then some v else none) := by
      intro b hb v
      have hiff := TypeDecl.hasDiscriminant_eq_ok hb
      cases b with
      | true => rw [if_pos rfl, if_neg (not_not.mpr (hiff.mp rfl))]; rfl
      | false => rw [if_neg Bool.false_ne_true, if_pos (mt hiff.mpr Bool.false_ne_true)]; rfl
    constructor
    · intro h
      obtain ⟨b, hb, h⟩ := bind_eq_ok.mp h
      rw [hverdict b hb] at h
      exact ⟨⟨b, hb⟩, (Except.ok.inj h).symm⟩
    · rintro ⟨⟨b, hb⟩, rfl⟩
      exact bind_eq_ok.mpr ⟨b, hb, hverdict b hb _⟩

/-- What the verdict is, and when there is one. -/
theorem verdict_eq_ok {vs : List TypeVerdict} :
    s.verdict p tags = .ok vs ↔ (∀ i ∈ s.ids, (typeAt? p.types i).isSome = true) ∧
      (ToldApart p (s.declared p) ∧ vs = [] ∨ ¬ToldApart p (s.declared p) ∧
        (∀ t ∈ s.declared p, t.kind = .enum ∨ ∃ b, t.hasDiscriminant p tags = .ok b) ∧
        vs = s.confused p tags) := by
  unfold verdict
  simp only [bind_eq_ok, types_eq_ok, and_assoc, exists_and_left, exists_eq_left]
  refine and_congr_right fun _ => ?_
  rw [← areSecure_iff]
  split
  · rename_i hsecure
    rw [pure_eq_ok]
    simp [hsecure, eq_comm]
  · rename_i hsecure
    rw [collectM_eq_filterMap fun t z => judge_eq_ok]
    unfold confused
    rw [← List.filterMap_eq_map, List.filterMap_filter]
    simp [hsecure]

private theorem InTable.typeAt?_isSome (hs : s.InTable p) :
    ∀ i ∈ s.ids, (typeAt? p.types i).isSome = true := by
  intro i hi
  obtain ⟨site, hsite, rfl⟩ := mem_ids.mp hi
  obtain ⟨h0, hlt⟩ := (hs site hsite).index
  obtain ⟨t, _, ht, _⟩ := Program.exists_typeAt? h0 hlt
  exact Option.isSome_iff_exists.mpr ⟨t, ht⟩

/-- The verdict on a set of types of the table. Nothing is reported if they can be told apart
together. Otherwise each of several enums is, and each type of another kind without a discriminant,
by increasing ids and with all sites. There is such a verdict if references are in range and names
are texts. -/
theorem verdict_eq_confused (hs : s.InTable p) (tags : List Value) :
    s.ids.Pairwise (· < ·) ∧ (s.declared p).map some = s.ids.map (typeAt? p.types) ∧
      (∀ i site, site ∈ s.sitesOf i ↔ site ∈ s.sites ∧ site.type = i) ∧
      (ToldApart p (s.declared p) → s.verdict p tags = .ok []) ∧
      (¬ToldApart p (s.declared p) → (∀ vs, s.verdict p tags = .ok vs → vs = s.confused p tags) ∧
        (p.TypesInRange → (∀ t ∈ p.types, t.FitNames fun _ => False) →
          s.verdict p tags = .ok (s.confused p tags))) := by
  have hsome := hs.typeAt?_isSome
  have hunique : ∀ vs, ¬ToldApart p (s.declared p) → s.verdict p tags = .ok vs →
      vs = s.confused p tags := by
    intro vs hnot h
    rcases (verdict_eq_ok.mp h).2 with ⟨htold, _⟩ | ⟨_, _, hvs⟩
    · exact absurd htold hnot
    · exact hvs
  refine ⟨s.pairwise_ids, map_some_declared hsome, fun _ _ => mem_sitesOf, fun htold => ?_,
    fun hnot => ⟨fun vs => hunique vs hnot, fun hp hn => ?_⟩⟩
  · exact verdict_eq_ok.mpr ⟨hsome, Or.inl ⟨htold, rfl⟩⟩
  · obtain ⟨vs, hvs, _⟩ := Yields.ok_iff.mp (verdict_yields hp hn hs tags)
    rw [hvs, hunique vs hnot hvs]

/-- A struct and an array without discriminants, an enum, and a struct that leads with the enum. -/
def mixture : Program :=
  { types := [
      { id := 0, path := .text "crate::User", kind := .struct
        fields := [{ name := .text "balance" }] },
      { id := 1, path := .text "crate::Seed", kind := .array, length := some 8 },
      { id := 2, path := .text "crate::Kind", kind := .enum, variants := 3 },
      { id := 3, path := .text "crate::Vault", kind := .struct
        fields := [{ name := .text "sort", type := some (.index 2) }] }] }

/-- A set with one site for each type, and a second one for the struct without a discriminant. -/
def mixedSites : TypeSet :=
  ofSites [siteAt 3 "open" 9, siteAt 0 "store" 7, siteAt 1 "load" 5, siteAt 2 "load" 4,
    siteAt 0 "load" 3]

theorem verdict_eq_confused_mixture :
    mixedSites.InTable mixture ∧ mixture.TypesInRange ∧
      (∀ t ∈ mixture.types, t.FitNames fun _ => False) ∧
      ¬ToldApart mixture (mixedSites.declared mixture) ∧
      mixedSites.verdict mixture defaultTags =
        .ok (mixedSites.confused mixture defaultTags) ∧
      (mixedSites.confused mixture defaultTags).map
          (fun v => (v.type.id, v.ambiguous, v.sites.map (·.location.line))) =
        [(0, false, [3, 7]), (1, false, [5])] := by
  have hin : ∀ i : Int, 0 ≤ i → i < 4 → mixture.InTable (some (.index i)) := by
    intro i h0 hlt t ht
    exact ⟨i, (Option.some.inj ht).symm, h0, hlt⟩
  have hs : mixedSites.InTable mixture := by
    intro site hsite
    have hrange : 0 ≤ site.type ∧ site.type < 4 := by
      revert site
      decide +kernel
    exact hin site.type hrange.1 hrange.2
  have hp : mixture.TypesInRange := by
    constructor
    case id =>
      intro i t h
      rcases i with _ | _ | _ | _ | i
      case zero | succ.zero | succ.succ.zero | succ.succ.succ.zero =>
        rw [← Option.some.inj h]
        rfl
      case succ.succ.succ.succ => cases h
    case field => simpa [mixture, Program.inTable_none] using hin 2 (by decide) (by decide)
    case arg => simp [mixture]
  have hn : ∀ t ∈ mixture.types, t.FitNames fun _ => False := by
    intro t ht
    simp only [mixture, List.mem_cons, List.not_mem_nil, or_false] at ht
    rcases ht with rfl | rfl | rfl | rfl <;> constructor <;> simp [Fit]
  have hnot : ¬ToldApart mixture (mixedSites.declared mixture) := by
    rw [← areSecure_iff]
    decide +kernel
  refine ⟨hs, hp, hn, hnot, ?_, by decide +kernel⟩
  obtain ⟨_, _, _, _, hother⟩ := verdict_eq_confused hs defaultTags
  exact (hother hnot).2 hp hn

def counter : Program := { types := [{ id := 0, path := .text "u64", kind := .primitive }] }

/-- A number that is deserialized is reported, although it is neither a struct nor an enum. -/
theorem verdict_reports_number :
    (ofSites [siteAt 0 "load" 3]).InTable counter ∧
      ¬ToldApart counter ((ofSites [siteAt 0 "load" 3]).declared counter) ∧
      (∀ t ∈ (ofSites [siteAt 0 "load" 3]).declared counter, t.kind ≠ .struct ∧ t.kind ≠ .enum) ∧
      ∃ v, (ofSites [siteAt 0 "load" 3]).verdict counter defaultTags = .ok [v] ∧
        v.type.path = .text "u64" := by
  refine ⟨?_, ?_, by decide +kernel, ?_⟩
  · intro site hsite
    have htype : site.type = 0 := by
      revert site
      decide +kernel
    intro t ht
    exact ⟨0, by rw [← Option.some.inj ht, htype], by decide, by decide⟩
  · rw [← areSecure_iff]
    decide +kernel
  · have hvalue : ((ofSites [siteAt 0 "load" 3]).verdict counter defaultTags).toOption =
        some [⟨{ id := 0, path := .text "u64", kind := .primitive }, false, [siteAt 0 "load" 3]⟩] := by
      decide +kernel
    exact ⟨_, ok_of_toOption hvalue, rfl⟩

end TypeSet
end AccountLint

import AccountLint.Proofs.Checked
import AccountLint.Verdict.Run

/-! What the findings about the types and the declarations of a program say, and that each is of the
category of its rule. -/
namespace AccountLint

variable {p : Program} {r : Rule} {ds : List Diagnostic} {d : Diagnostic}

namespace Rule

theorem typeFinding_eq_ok {set : TypeSet} {v : TypeVerdict} (h : r.typeFinding set v = .ok d) :
    d.category = r.name ∧ d.errorId = r.errorId ∧
      (∃ first rest, v.sites = first :: rest ∧ d.function = first.function ∧
        d.location = first.location ∧ d.secondary = rest.map (·.location)) ∧
      ∃ name, v.type.name = .ok name ∧
        Template.fill [("type", .text name)] (if v.ambiguous then ambiguousEnumMessage else r.message) =
          .ok d.message ∧
        Template.fill [("type", .text name)] r.hint = .ok d.hint := by
  unfold typeFinding at h
  split at h
  · cases h
  · rename_i first rest hsites
    obtain ⟨name, hname, h⟩ := bind_eq_ok.mp h
    obtain ⟨message, hm, h⟩ := bind_eq_ok.mp h
    obtain ⟨hint, hh, h⟩ := bind_eq_ok.mp h
    obtain rfl := pure_eq_ok.mp h
    exact ⟨rfl, rfl, ⟨first, rest, hsites, rfl, rfl, rfl⟩, name, hname, hm, hh⟩

private theorem category_of_mem_passedSysvars {check : DeclarationCheck} {struct : TypeDecl}
    (h : r.passedSysvars check p struct = .ok ds) (hd : d ∈ ds) : d.category = r.name := by
  obtain ⟨passed, _, h⟩ := bind_eq_ok.mp h
  split at h
  · obtain rfl := pure_eq_ok.mp h
    cases hd
  · obtain ⟨message, _, h⟩ := bind_eq_ok.mp h
    obtain rfl := pure_eq_ok.mp h
    rw [List.mem_singleton.mp hd]
    rfl
  · obtain rfl := pure_eq_ok.mp h
    rw [List.mem_singleton.mp hd]
    rfl

private theorem category_of_duplicatePair {check : DeclarationCheck} {struct : TypeDecl}
    {pair : FieldDecl × FieldDecl} (h : r.duplicatePair check struct pair = .ok (some d)) :
    d.category = r.name := by
  obtain ⟨distinct, _, h⟩ := bind_eq_ok.mp h
  split at h
  · cases pure_eq_ok.mp h
  · obtain ⟨message, _, h⟩ := bind_eq_ok.mp h
    obtain ⟨hint, _, h⟩ := bind_eq_ok.mp h
    obtain rfl := Option.some.inj (pure_eq_ok.mp h)
    rfl

private theorem category_of_mem_duplicateAccounts {check : DeclarationCheck} {struct : TypeDecl}
    (h : r.duplicateAccounts check p struct = .ok ds) (hd : d ∈ ds) : d.category = r.name := by
  obtain ⟨found, _, h⟩ := bind_eq_ok.mp h
  obtain ⟨inners, _, h⟩ := bind_eq_ok.mp h
  obtain ⟨pair, _, hpair⟩ := (mem_collectM h).mp hd
  exact category_of_duplicatePair hpair

theorem category_of_mem_declarationFindings (h : r.declarationFindings p = .ok ds) (hd : d ∈ ds) :
    d.category = r.name := by
  unfold declarationFindings at h
  split at h
  · obtain rfl := Except.ok.inj h
    cases hd
  · obtain ⟨structs, _, h⟩ := bind_eq_ok.mp h
    obtain ⟨struct, _, found, hfound, hd⟩ := (mem_concatM h).mp hd
    split at hfound
    · exact category_of_mem_passedSysvars hfound hd
    · exact category_of_mem_duplicateAccounts hfound hd

end Rule

/-- The findings about types are of the category of the first rule about them. -/
theorem category_of_mem_typeFindings {tags : List Value} {rules : List Rule} {set : TypeSet}
    (hr : rules.find? (·.coverage == .structural) = some r)
    (h : typeFindings p tags rules set = .ok ds) (hd : d ∈ ds) : d.category = r.name := by
  unfold typeFindings at h
  rw [hr] at h
  obtain ⟨verdicts, _, h⟩ := bind_eq_ok.mp h
  obtain ⟨v, _, hv⟩ := exists_of_forall₂_right (mapM_eq_ok.mp h) hd
  exact (Rule.typeFinding_eq_ok hv).1

end AccountLint

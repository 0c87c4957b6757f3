import Mathlib.Data.List.TakeWhile
import AccountLint.Proofs.Checked
import AccountLint.Rule.Defaults
import AccountLint.Sink.Bump
import AccountLint.Verdict.Types

/-! Templates with plain fields can always be filled in, and the rules that are there from the start
have no others. -/
namespace AccountLint

namespace Template

/-- A character, or a field that is just a name. -/
def Piece.isPlain : Piece → Bool
  | .literal _ => true
  | .malformed => false
  | .field name conversion layout =>
    conversion.isNone && layout.isEmpty && !name.isEmpty && name.all inName &&
      match position? name with
      | .ok none => true
      | _ => false

def isPlain (template : String) : Bool := (pieces .text template.toList).all Piece.isPlain

/-- The text of a plain part: a field that has no value stands for itself. -/
def Piece.text (values : List (String × Value)) : Piece → String
  | .literal c => c.toString
  | .malformed => ""
  | .field name _ _ =>
    let key := String.ofList name
    ((values.lookup key).getD (.text ("\x7b" ++ key ++ "\x7d"))).display

private theorem Piece.fill_eq_text {x : Piece} (h : x.isPlain = true)
    (values : List (String × Value)) (inner : List Char → Except Fault String) :
    x.fill values inner = .ok (x.text values) := by
  cases x with
  | literal c => rfl
  | malformed => cases h
  | field name conversion layout =>
    simp only [isPlain, Bool.and_eq_true, Option.isNone_iff_eq_none, List.isEmpty_iff,
      Bool.not_eq_true'] at h
    obtain ⟨⟨⟨⟨rfl, rfl⟩, hne⟩, hall⟩, hpos⟩ := h
    have htake : name.takeWhile inName = name :=
      List.takeWhile_eq_self_iff.mpr fun c hc => List.all_eq_true.mp hall c hc
    have hdrop : name.dropWhile inName = [] :=
      List.dropWhile_eq_nil_iff.mpr fun c hc => List.all_eq_true.mp hall c hc
    have hnone : position? name = .ok none := by
      split at hpos
      · assumption
      · cases hpos
    have hresolve : resolve values name = .ok ((values.lookup (String.ofList name)).getD
        (.text ("\x7b" ++ String.ofList name ++ "\x7d"))) := by
      unfold resolve
      simp only [htake, hdrop, hnone, hne]
      rw [selectAll]
      rfl
    simp only [fill, hresolve]
    rfl

theorem isPlain_empty : isPlain "" = true := by decide

private theorem fill_eq_text {template : String} (h : isPlain template = true)
    (values : List (String × Value)) :
    fill values template = .ok (String.join ((pieces .text template.toList).map (Piece.text values))) := by
  unfold fill fillWithin
  have hall : ∀ xs : List Piece, (∀ x ∈ xs, x.isPlain = true) →
      xs.mapM (Piece.fill values (fillWithin values 1)) = .ok (xs.map (Piece.text values)) := by
    intro xs hxs
    refine mapM_eq_ok.mpr (List.forall₂_map_right_iff.mpr ?_)
    refine List.forall₂_same.mpr fun x hx => Piece.fill_eq_text (hxs x hx) values _
  rw [hall _ (List.all_eq_true.mp h)]
  rfl

theorem fill_safe {may : Fault → Prop} {template : String} (h : isPlain template = true)
    (values : List (String × Value)) : Safe may (fill values template) := by
  rw [fill_eq_text h]
  trivial

end Template

/-- The templates of a rule are plain, and its patterns pick arguments from the front. -/
structure Rule.Plain (r : Rule) : Prop where
  message : Template.isPlain r.message = true
  hint : Template.isPlain r.hint = true
  argument : ∀ p ∈ r.sinks, 0 ≤ p.argument
  declaration : ∀ c, r.declaration = some c →
    Template.isPlain c.message = true ∧ Template.isPlain c.hint = true

-- A literal is taken apart by its definition, since reading its characters back is slow.
private theorem isPlain_literal {cs : List Char}
    (h : (Template.pieces .text cs).all Template.Piece.isPlain = true) :
    Template.isPlain (String.ofList cs) = true := by
  unfold Template.isPlain
  rw [String.toList_ofList]
  exact h

private theorem isPlain_append {cs ds : List Char}
    (h : (Template.pieces .text (cs ++ ds)).all Template.Piece.isPlain = true) :
    Template.isPlain (String.ofList cs ++ String.ofList ds) = true := by
  unfold Template.isPlain
  rw [String.toList_append, String.toList_ofList, String.toList_ofList]
  exact h

private theorem Rule.plain_ofCategory (c : Category) : (ofCategory c).Plain := by
  have hnone : ∀ c, (none : Option DeclarationCheck) = some c →
      Template.isPlain c.message = true ∧ Template.isPlain c.hint = true := fun _ h => (by cases h)
  cases c with
  | missingOwnerCheck =>
    exact ⟨isPlain_literal (by decide +kernel), isPlain_literal (by decide +kernel), by decide, hnone⟩
  | missingSignerCheck =>
    exact ⟨isPlain_literal (by decide +kernel), isPlain_literal (by decide +kernel), by decide, hnone⟩
  | arbitraryCpi =>
    exact ⟨isPlain_literal (by decide +kernel), isPlain_literal (by decide +kernel), by decide, hnone⟩
  | insecureAccountClose =>
    exact ⟨isPlain_literal (by decide +kernel), isPlain_literal (by decide +kernel), by decide, hnone⟩
  | typeCosplay =>
    exact ⟨isPlain_literal (by decide +kernel), isPlain_literal (by decide +kernel), by decide, hnone⟩
  | bumpSeedCanonicalization =>
    exact ⟨isPlain_append (by decide +kernel), isPlain_literal (by decide +kernel), by decide, hnone⟩
  | sysvarGet =>
    refine ⟨isPlain_literal (by decide +kernel), isPlain_literal (by decide), by decide, ?_⟩
    intro c hc
    rw [← Option.some.inj hc]
    exact ⟨isPlain_literal (by decide +kernel), isPlain_literal (by decide +kernel)⟩
  | sysvarAddressCheck =>
    exact ⟨isPlain_literal (by decide +kernel), isPlain_literal (by decide +kernel), by decide, hnone⟩
  | improperInstructionIntrospection =>
    exact ⟨isPlain_append (by decide +kernel), isPlain_literal (by decide), by decide, hnone⟩
  | duplicateMutableAccounts =>
    refine ⟨isPlain_append (by decide +kernel), isPlain_append (by decide +kernel), by decide, ?_⟩
    intro c hc
    rw [← Option.some.inj hc]
    exact ⟨isPlain_append (by decide +kernel), isPlain_append (by decide +kernel)⟩

theorem Rule.plain_of_mem_defaults {r : Rule} (h : r ∈ Rule.defaults) : r.Plain := by
  obtain ⟨c, _, rfl⟩ := List.mem_map.mp h
  exact plain_ofCategory c

theorem BumpOrigin.isPlain_message (o : BumpOrigin) : Template.isPlain o.message = true := by
  cases o with
  | account => exact isPlain_append (by decide +kernel)
  | struct => exact isPlain_append (by decide +kernel)
  | constrained => exact isPlain_literal (by decide)
  | other => exact isPlain_literal (by decide)

theorem isPlain_ambiguousEnumMessage : Template.isPlain ambiguousEnumMessage = true :=
  isPlain_append (by decide +kernel)

end AccountLint

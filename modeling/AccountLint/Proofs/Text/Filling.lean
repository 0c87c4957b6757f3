import AccountLint.Proofs.Outcome
import AccountLint.Text.Template

/-! A template that cannot be filled in ends the run, whatever rule it belongs to: its faults are
never taken for those of a model. -/
namespace AccountLint

/-- A test that ends the run if it holds. -/
theorem safe_ite_error {α : Type} {c : Prop} [Decidable c] {e : Fault} {x : Except Fault α}
    (he : e.EndsRun) (hx : ¬c → Safe Fault.EndsRun x) :
    Safe Fault.EndsRun (if c then .error e else x) := by
  split
  · exact he
  · exact hx ‹_›

section Numbers

variable (l : Text.Layout)

private theorem Written.groups?_endsRun (kind : Char) : Safe Fault.EndsRun (groups? l kind) := by
  unfold groups?
  cases l.grouping with
  | none => trivial
  | some mark =>
    dsimp only
    split
    · trivial
    · split
      · trivial
      · rfl

private theorem Written.character_endsRun (i : Int) : Safe Fault.EndsRun (character l i) := by
  unfold character
  split
  · rfl
  · split
    · rfl
    · trivial

private theorem Binary64.ofInt_endsRun (i : Int) : Safe Fault.EndsRun (ofInt i) := by
  unfold ofInt
  split
  · trivial
  · cases ofRatio (i < 0) i.natAbs 1 with
    | finite negative m e => trivial
    | infinite negative => rfl
    | nan payload => rfl

private theorem Binary64.layOut_endsRun (x : Binary64) : Safe Fault.EndsRun (layOut l x) := by
  unfold layOut
  dsimp only
  refine safe_ite_error rfl fun _ => (Written.groups?_endsRun l _).bind fun groups _ => ?_
  exact safe_ite_error rfl fun _ => trivial

private theorem layOutInt_endsRun (i : Int) : Safe Fault.EndsRun (layOutInt l i) := by
  unfold layOutInt
  extract_lets kind
  split
  · refine (Written.groups?_endsRun l kind).bind fun _ _ => ?_
    exact (Binary64.ofInt_endsRun i).bind fun x _ => Binary64.layOut_endsRun l x
  · refine (Written.groups?_endsRun l kind).bind fun groups _ => safe_ite_error rfl fun _ => ?_
    split
    · exact (Written.character_endsRun l i).bind fun _ _ => trivial
    · cases Written.base? kind with
      | none => rfl
      | some base => trivial

end Numbers

namespace Template

private theorem position?_endsRun (cs : List Char) : Safe Fault.EndsRun (position? cs) := by
  unfold position?
  split
  · rfl
  · trivial
  · trivial

private theorem select_endsRun (v : Value) (selection : List Char) :
    Safe Fault.EndsRun (select v selection) := by
  unfold select
  refine (position?_endsRun selection).bind fun position _ => safe_ite_error rfl fun _ => ?_
  split
  · split
    · trivial
    · rfl
  · rfl

private theorem selectAll_endsRun (v : Value) (cs : List Char) :
    Safe Fault.EndsRun (selectAll v cs) := by
  fun_induction selectAll v cs with
  | case1 v => trivial
  | case2 v cs name hempty => rfl
  | case3 v cs name hempty w hw ih => exact ih
  | case4 v cs name hempty hw => rfl
  | case5 v cs hrest => rfl
  | case6 v cs c rest hrest ih => exact (select_endsRun v _).bind fun w _ => ih w
  | case7 v c cs hpoint hbracket => rfl

private theorem resolve_endsRun (values : List (String × Value)) (name : List Char) :
    Safe Fault.EndsRun (resolve values name) := by
  unfold resolve
  refine (position?_endsRun _).bind fun position _ => safe_ite_error rfl fun _ => ?_
  exact selectAll_endsRun _ _

private theorem convert_endsRun (conversion : Option Char) (v : Value) :
    Safe Fault.EndsRun (convert conversion v) := by
  unfold convert
  split <;> trivial

private theorem layOut_endsRun (v : Value) (layout : List Char) :
    Safe Fault.EndsRun (layOut v layout) := by
  unfold layOut
  split
  · trivial
  · unfold layOutIn
    split
    · split
      · trivial
      · rfl
    · exact layOutInt_endsRun _ _
    · exact layOutInt_endsRun _ _
    · exact Binary64.layOut_endsRun _ _
    all_goals rfl

private theorem Piece.fill_endsRun (values : List (String × Value))
    {inner : List Char → Except Fault String} (hinner : ∀ cs, Safe Fault.EndsRun (inner cs))
    (x : Piece) :
    Safe Fault.EndsRun (x.fill values inner) := by
  cases x with
  | literal c => trivial
  | malformed => rfl
  | field name conversion layout =>
    refine (resolve_endsRun values name).bind fun v _ => (convert_endsRun conversion v).bind fun w _ => ?_
    dsimp only
    split
    · exact (hinner layout).bind fun text _ => layOut_endsRun w text.toList
    · exact layOut_endsRun w _

private theorem fillWithin_endsRun (values : List (String × Value)) (depth : Nat) (cs : List Char) :
    Safe Fault.EndsRun (fillWithin values depth cs) := by
  induction depth generalizing cs with
  | zero => rfl
  | succ depth ih =>
    unfold fillWithin
    exact (Yields.mapM_safe fun x _ => x.fill_endsRun values ih).bind fun _ _ => trivial

theorem fill_endsRun (values : List (String × Value)) (template : String) :
    Safe Fault.EndsRun (fill values template) := fillWithin_endsRun values 2 template.toList

end Template
end AccountLint

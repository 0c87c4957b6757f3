import AccountLint.Proofs.Checked

/-! Reading with two kinds of failure: an input is rejected, or reading breaks off for a flaw of the
input. -/
namespace AccountLint

/-- A fault that rejects a document or a function. -/
abbrev Rejects (e : Fault) : Prop := e.rejectsModel = true

/-- Reading fails by a rejection or for a flaw. If it succeeds, there are no flaws, except that
taking a value out of a type with an odd path may go well. -/
def Blames {α : Type} (flaw : Fault → Prop) (post : α → Prop) (x : Except Fault α) : Prop :=
  Yields (fun e => Rejects e ∨ flaw e) (fun a => post a ∧ ∀ e, flaw e → e = .notText) x

namespace Blames

variable {α β : Type} {flaw flaw' : Fault → Prop} {post : α → Prop} {post' : β → Prop}
  {x : Except Fault α} {f : α → Except Fault β}

theorem of_iff (h : Blames flaw post x) (hiff : ∀ e, flaw' e ↔ flaw e) : Blames flaw' post x := by
  obtain rfl : flaw' = flaw := funext fun e => propext (hiff e)
  exact h

theorem mono {post' : α → Prop} (h : Blames flaw post x) (himp : ∀ a, post a → post' a) :
    Blames flaw post' x := Yields.mono h fun a ha => ⟨himp a ha.1, ha.2⟩

theorem with_eq (h : Blames flaw post x) : Blames flaw (fun a => post a ∧ x = .ok a) x := by
  cases x with
  | ok a => exact ⟨⟨h.1, rfl⟩, h.2⟩
  | error e => exact h

theorem of_yields (h : Yields Rejects post x) : Blames (fun _ => False) post x :=
  (h.weaken fun _ he => Or.inl he).mono fun _ ha => ⟨ha, fun _ he => he.elim⟩

theorem bind (hx : Blames flaw post x) (hf : ∀ a, post a → Blames flaw' post' (f a)) :
    Blames (fun e => flaw e ∨ flaw' e) post' (x >>= f) := by
  refine Yields.bind (Yields.weaken hx fun e he => he.imp_right Or.inl) fun a ha => ?_
  refine (Yields.weaken (hf a ha.1) fun e he => he.imp_right Or.inr).mono fun b hb => ?_
  exact ⟨hb.1, fun e he => he.elim (ha.2 e) (hb.2 e)⟩

/-- A step that only rejects, before others. -/
theorem after (hx : Yields Rejects post x) (hf : ∀ a, post a → Blames flaw post' (f a)) :
    Blames flaw post' (x >>= f) :=
  ((of_yields hx).bind hf).of_iff fun e => by rw [false_or]

/-- A step that only rejects, behind others. -/
theorem andThen (hx : Blames flaw post x) (hf : ∀ a, post a → Yields Rejects post' (f a)) :
    Blames flaw post' (x >>= f) :=
  (hx.bind fun a ha => of_yields (hf a ha)).of_iff fun e => by rw [or_false]

/-- A check that nothing rejects for. -/
theorem guarded {c : Prop} [Decidable c] {e : Fault} (hx : ¬c → Blames flaw post x) :
    Blames (fun e' => (c ∧ e' = e) ∨ flaw e') post (if c then .error e else x) := by
  by_cases hc : c
  · rw [if_pos hc]
    exact Or.inr (Or.inl ⟨hc, rfl⟩)
  · rw [if_neg hc]
    exact (hx hc).of_iff fun e => or_iff_right fun h => hc h.1

theorem foldlM {step : β → α → Except Fault β} {inv : β → Prop} {flaw : α → Fault → Prop}
    {xs : List α} {b : β} (hb : inv b) (h : ∀ b, inv b → ∀ x ∈ xs, Blames (flaw x) inv (step b x)) :
    Blames (fun e => ∃ x ∈ xs, flaw x e) inv (xs.foldlM step b) := by
  induction xs generalizing b with
  | nil => exact ⟨hb, fun e he => by simp at he⟩
  | cons x xs ih =>
    rw [List.foldlM_cons]
    have hrest := fun c hc => ih (b := c) hc fun d hd y hy => h d hd y (List.mem_cons_of_mem _ hy)
    exact ((h b hb x List.mem_cons_self).bind hrest).of_iff fun e => List.exists_mem_cons_iff ..

theorem mapM {g : α → Except Fault β} {flaw : α → Fault → Prop} {xs : List α}
    (h : ∀ x ∈ xs, Blames (flaw x) post' (g x)) :
    Blames (fun e => ∃ x ∈ xs, flaw x e) (fun ys => ∀ y ∈ ys, post' y) (xs.mapM g) := by
  induction xs with
  | nil => exact ⟨fun y hy => (by cases hy), fun e he => by simp at he⟩
  | cons x xs ih =>
    rw [List.mapM_cons]
    refine ((h x List.mem_cons_self).bind fun y hy => ?_).of_iff fun e => List.exists_mem_cons_iff ..
    refine (ih fun z hz => h z (List.mem_cons_of_mem _ hz)).andThen fun ys hys => ?_
    exact List.forall_mem_cons.mpr ⟨hy, hys⟩

theorem forM {g : α → Except Fault Unit} {flaw : α → Fault → Prop} {xs : List α}
    (h : ∀ x ∈ xs, Blames (flaw x) (fun _ => True) (g x)) :
    Blames (fun e => ∃ x ∈ xs, flaw x e) (fun _ => True) (xs.forM g) := by
  induction xs with
  | nil => exact ⟨trivial, fun e he => by simp at he⟩
  | cons x xs ih =>
    refine ((h x List.mem_cons_self).bind fun _ _ => ?_).of_iff fun e => List.exists_mem_cons_iff ..
    exact ih fun y hy => h y (List.mem_cons_of_mem _ hy)

end Blames

end AccountLint

import AccountLint.Proofs.Checked
import AccountLint.Proofs.Document.Meaning
import AccountLint.Proofs.Sorting

/-! What is kept of an expression, whatever its form says. A constructor that sets a field again
keeps the last value only, and nothing else is lost. -/
namespace AccountLint

namespace Document

variable {α β : Type}

def lastFor (name : String) : List String → List α → Option α
  | n :: names, x :: xs => (lastFor name names xs).or (if n = name then some x else none)
  | _, _ => none

/-- The values of some names, each name once: at its first place and with its last value. -/
def settle (names : List String) (xs : List α) : List α :=
  (distinct names).filterMap fun name => lastFor name names xs

/-- Of what belongs to the parts of a form, what is kept. -/
def kept : Value → List α → List α
  | .list (.text "new" :: _ :: fields), xs => settle (fields.filterMap fieldName?) xs
  | _, xs => xs

/-- What is kept of what a form says. The fields of a constructor have each name once. -/
inductive Keeps : Value → Expr → Prop where
  | shows {form : Value} {e : Expr} (hother : hasHead "new" form = false) (h : Shows form e) :
      Keeps form e
  | construct {type : Value} {fields : List Value} {names : List String} {ids : List Int}
      (hnames : fields.map fieldName? = names.map some) :
      Keeps (.list (.text "new" :: type :: fields))
        { id := 0, kind := .construct, fieldNames := distinct names, operands := ids }

/-- The tree of expressions at a position is what is kept of a form. -/
inductive Retains (declarations : List Value) (exprs : List Expr) : Value → Int → Prop where
  | tree {form : Value} {i : Nat} {e : Expr} (hat : exprs[i]? = some e) (hkeeps : Keeps form e.bare)
      (htype : ∀ type, annotation? form = some type →
        ∃ r, RefersTo declarations type r ∧ (r = none ∨ e.type = r))
      (hparts : List.Forall₂ (Retains declarations exprs) (kept form (parts form)) e.children) :
      Retains declarations exprs form i

/-- An expression that is kept within the expression of a form. -/
inductive KeptWithin : Value → Value → Prop where
  | self (form : Value) : KeptWithin form form
  | part {inner part form : Value} (hpart : part ∈ kept form (parts form))
      (hinner : KeptWithin inner part) : KeptWithin inner form

/-- What a declaration assigns to: a variable if the name is a text, and else what the name is. -/
inductive LetTarget (declarations : List Value) (exprs : List Expr) : Value → Target → Prop where
  | text {name : String} {i : Int} (h : Depicts declarations exprs (.text name) i) :
      LetTarget declarations exprs (.text name) (.expr i)
  | int (i : Int) : LetTarget declarations exprs (.int i) (.expr i)
  | other {name : Value} (htext : ∀ s, name ≠ .text s) (hint : ∀ i, name ≠ .int i) :
      LetTarget declarations exprs name (.other name)

/-- A statement is what is kept of a form. -/
inductive StmtRetains (declarations : List Value) (exprs : List Expr) : Value → Stmt → Prop where
  | letVar {name value : Value} {type : List Value} {s : Stmt} {t : Target} (hlength : type.length ≤ 1)
      (hkind : s.kind = .assign) (htarget : s.target = some t)
      (hname : LetTarget declarations exprs name t) (hvalue : Retains declarations exprs value s.value) :
      StmtRetains declarations exprs (.list (.text "let" :: name :: value :: type)) s
  | assign {target value : Value} {s : Stmt} {i : Int} (hkind : s.kind = .assign)
      (htarget : s.target = some (.expr i)) (hleft : Retains declarations exprs target i)
      (hvalue : Retains declarations exprs value s.value) :
      StmtRetains declarations exprs (.list [.text "assign", target, value]) s
  | eval {value : Value} {s : Stmt} (hkind : s.kind = .eval) (htarget : s.target = none)
      (hvalue : Retains declarations exprs value s.value) :
      StmtRetains declarations exprs (.list [.text "eval", value]) s
  | place {args : List Value} {form : Value} {s : Stmt} (hlast : args.getLast? = some form)
      (hform : StmtRetains declarations exprs form s) :
      StmtRetains declarations exprs (.list (.text "at" :: args)) s

/-- A block comes from the block form at its position, and its statements are related to those of
the form. Its successors are the positions of the labels, each at its first occurrence. -/
structure BlockFrom (R : Value → Stmt → Prop) (blocks : List Value) (form : Value × Nat) (b : Block) :
    Prop where
  id : b.id = form.2
  parts : ∃ label successors stmts targets,
    form.1 = .list (.text "block" :: label :: .list (.text "succ" :: successors) :: stmts) ∧
    List.Forall₂ (LabelAt blocks) successors targets ∧ b.successors = distinct targets ∧
    List.Forall₂ R stmts b.stmts

/-- A function has a block for each block form. -/
structure FunctionFrom (R : Value → Stmt → Prop) (form : Value) (f : Function) : Prop where
  blocks : blockForms form ≠ [] → List.Forall₂ (BlockFrom R (blockForms form)) (blockForms form).zipIdx
    f.blocks
  noBlocks : blockForms form = [] → f.blocks = [{ id := 0 }]

theorem FunctionFrom.imp {R S : Value → Stmt → Prop} {form : Value} {f : Function}
    (h : FunctionFrom R form f) (himp : ∀ g s, R g s → S g s) : FunctionFrom S form f := by
  refine ⟨fun hne => (h.blocks hne).imp fun g b hb => ?_, h.noBlocks⟩
  obtain ⟨label, successors, stmts, targets, hform, htargets, hsuccessors, hstmts⟩ := hb.parts
  exact ⟨hb.id, label, successors, stmts, targets, hform, htargets, hsuccessors, hstmts.imp himp⟩

private theorem lastFor_of_not_mem {name : String} {names : List String} (h : name ∉ names)
    (xs : List α) :
    lastFor name names xs = none := by
  induction names generalizing xs with
  | nil => rfl
  | cons n names ih =>
    cases xs with
    | nil => rfl
    | cons x xs =>
      obtain ⟨hne, hrest⟩ := List.ne_and_not_mem_of_not_mem_cons h
      rw [lastFor, ih hrest, if_neg (Ne.symm hne)]
      rfl

private theorem settle_of_nodup {names : List String} {xs : List α} (h : names.Nodup)
    (hlength : xs.length = names.length) : settle names xs = xs := by
  unfold settle
  rw [distinct_of_nodup h]
  induction names generalizing xs with
  | nil => exact (List.length_eq_zero_iff.mp hlength).symm
  | cons n names ih =>
    obtain ⟨x, xs, rfl⟩ := List.exists_cons_of_length_eq_add_one hlength
    obtain ⟨hn, hnodup⟩ := List.nodup_cons.mp h
    have hfirst : lastFor n (n :: names) (x :: xs) = some x := by
      rw [lastFor, lastFor_of_not_mem hn, if_pos rfl]
      rfl
    have hothers : ∀ name ∈ names, lastFor name (n :: names) (x :: xs) = lastFor name names xs := by
      intro name hname
      have hne : n ≠ name := fun heq => hn (heq ▸ hname)
      rw [lastFor, if_neg hne, Option.or_none]
    rw [List.filterMap_cons, hfirst, List.filterMap_congr hothers, ih hnodup (by simpa using hlength)]

private theorem lastFor_related {R : α → β → Prop} {xs : List α} {ys : List β}
    (h : List.Forall₂ R xs ys) (name : String) (names : List String) :
    (lastFor name names xs = none ∧ lastFor name names ys = none) ∨
      ∃ x y, lastFor name names xs = some x ∧ lastFor name names ys = some y ∧ R x y := by
  induction names generalizing xs ys with
  | nil => exact Or.inl ⟨rfl, rfl⟩
  | cons n names ih =>
    cases h with
    | nil => exact Or.inl ⟨rfl, rfl⟩
    | @cons x y xs ys hxy hrest =>
      rw [lastFor, lastFor]
      rcases ih hrest with ⟨hxs, hys⟩ | ⟨x', y', hxs, hys, hr⟩
      · rw [hxs, hys, Option.none_or, Option.none_or]
        split
        · exact Or.inr ⟨x, y, rfl, rfl, hxy⟩
        · exact Or.inl ⟨rfl, rfl⟩
      · rw [hxs, hys]
        exact Or.inr ⟨x', y', rfl, rfl, hr⟩

private theorem forall₂_settle {R : α → β → Prop} {xs : List α} {ys : List β}
    (h : List.Forall₂ R xs ys) (names : List String) :
    List.Forall₂ R (settle names xs) (settle names ys) := by
  unfold settle
  induction distinct names with
  | nil => exact .nil
  | cons name rest ih =>
    rw [List.filterMap_cons, List.filterMap_cons]
    rcases lastFor_related h name names with ⟨hxs, hys⟩ | ⟨x, y, hxs, hys, hr⟩
    · rw [hxs, hys]
      exact ih
    · rw [hxs, hys]
      exact .cons hr ih

theorem forall₂_kept {R : α → β → Prop} {xs : List α} {ys : List β} (h : List.Forall₂ R xs ys)
    (form : Value) : List.Forall₂ R (kept form xs) (kept form ys) := by
  unfold kept
  split
  · exact forall₂_settle h _
  · exact h

theorem kept_of_not_new {form : Value} (h : hasHead "new" form = false) (xs : List α) :
    kept form xs = xs := by
  unfold kept
  split
  · cases h
  · rfl

/-- Fields that all have names all have values. -/
theorem filterMap_fieldName? {fields : List Value} {names : List String}
    (h : fields.map fieldName? = names.map some) :
    fields.filterMap fieldName? = names ∧ (fields.filterMap fieldValue?).length = names.length := by
  constructor
  · have hid := congrArg (List.filterMap id) h
    rw [List.filterMap_map, List.filterMap_map] at hid
    exact hid.trans List.filterMap_some
  · have hlength : fields.length = names.length := by simpa using congrArg List.length h
    rw [← hlength, List.filterMap_length_eq_length]
    intro form hform
    have hname : fieldName? form ∈ names.map some := h ▸ List.mem_map_of_mem hform
    obtain ⟨name, _, hname⟩ := List.mem_map.mp hname
    unfold fieldName? at hname
    split at hname
    · rfl
    · cases hname

private theorem Shows.fieldNames_new {type : Value} {fields : List Value} {e : Expr}
    (h : Shows (.list (.text "new" :: type :: fields)) e) :
    fields.map fieldName? = e.fieldNames.map some := by
  generalize hform : Value.list (.text "new" :: type :: fields) = form at h
  cases h with
  | construct hnames =>
    cases hform
    exact hnames
  | compare hop =>
    simp only [Value.list.injEq, List.cons.injEq, Value.text.injEq] at hform
    rw [← hform.1] at hop
    simp [comparisonOps] at hop
  | _ => simp at hform

namespace Keeps

variable {form : Value} {e : Expr}

theorem kept_eq (h : Keeps form e) (honce : SetsOnce form) {xs : List α}
    (hlength : xs.length = (parts form).length) : kept form xs = xs := by
  cases h with
  | shows hother _ => exact kept_of_not_new hother xs
  | construct hnames =>
    obtain ⟨hall, hvalues⟩ := filterMap_fieldName? hnames
    exact settle_of_nodup (honce _ _ rfl) (by rw [hlength, hall]; exact hvalues)

private theorem shows_of_setsOnce (h : Keeps form e) (honce : SetsOnce form) : Shows form e := by
  cases h with
  | shows _ h => exact h
  | construct hnames =>
    have hnodup := honce _ _ rfl
    rw [(filterMap_fieldName? hnames).1] at hnodup
    rw [distinct_of_nodup hnodup]
    exact .construct hnames

private theorem setsOnce_of_shows (h : Keeps form e) (hshows : Shows form e) : SetsOnce form := by
  intro type fields hform
  subst hform
  obtain ⟨names, hnames, hall⟩ : ∃ names, fields.map fieldName? = names.map some ∧
      e.fieldNames = distinct names := by
    cases h with
    | shows hother _ => cases hother
    | construct hnames => exact ⟨_, hnames, rfl⟩
  have hinj : Function.Injective (List.map (some : String → Option String)) :=
    List.map_injective_iff.mpr fun a b => Option.some.inj
  have hown : e.fieldNames = names := hinj (hshows.fieldNames_new.symm.trans hnames)
  rw [(filterMap_fieldName? hnames).1, ← hown, hall]
  exact nodup_distinct names

end Keeps

theorem sizeOf_lt_of_mem (head : Value) {x : Value} {xs : List Value} (h : x ∈ xs) :
    sizeOf x < sizeOf (Value.list (head :: xs)) := by
  have hlt := List.sizeOf_lt_of_mem h
  simp only [Value.list.sizeOf_spec, List.cons.sizeOf_spec]
  omega

theorem sizeOf_lt_of_mem_fields (head : Value) {x : Value} {fields : List Value}
    (h : x ∈ fields.filterMap fieldValue?) : sizeOf x < sizeOf (Value.list (head :: fields)) := by
  obtain ⟨field, hfield, hx⟩ := List.mem_filterMap.mp h
  have hlt := sizeOf_lt_of_mem head hfield
  unfold fieldValue? at hx
  split at hx
  · obtain rfl := Option.some.inj hx
    simp only [Value.list.sizeOf_spec, List.cons.sizeOf_spec] at hlt ⊢
    omega
  · cases hx

private theorem mem_of_mem_callArguments {x : Value} {args : List Value}
    (h : x ∈ callArguments args) :
    x ∈ args := by
  unfold callArguments at h
  split at h
  · exact List.dropLast_subset _ h
  · exact h

/-- The parts of a form are items of it, or values of fields among its items. -/
theorem mem_parts {x form : Value} (h : x ∈ parts form) :
    ∃ head args, form = .list (head :: args) ∧ (x ∈ args ∨ x ∈ args.filterMap fieldValue?) := by
  unfold parts at h
  split at h
  case h_1 | h_2 | h_3 | h_4 =>
    exact ⟨_, _, rfl, Or.inl (List.mem_singleton.mp h ▸ List.mem_cons_self)⟩
  case h_5 | h_9 => exact ⟨_, _, rfl, Or.inl h⟩
  case h_6 => exact ⟨_, _, rfl, Or.inl (List.mem_cons_of_mem _ (mem_of_mem_callArguments h))⟩
  case h_7 =>
    refine ⟨_, _, rfl, Or.inl (List.mem_cons_of_mem _ (List.mem_cons.mpr ?_))⟩
    exact (List.mem_cons.mp h).imp_right mem_of_mem_callArguments
  case h_8 type fields =>
    refine ⟨_, _, rfl, Or.inr ?_⟩
    rw [List.filterMap_cons]
    split
    · exact h
    · exact List.mem_cons_of_mem _ h
  case h_10 =>
    split at h
    · exact ⟨_, _, rfl, Or.inl h⟩
    · cases h
  case h_11 => cases h

private theorem sizeOf_lt_of_mem_parts {x form : Value} (h : x ∈ parts form) :
    sizeOf x < sizeOf form := by
  obtain ⟨head, args, rfl, hitem | hfield⟩ := mem_parts h
  · exact sizeOf_lt_of_mem head hitem
  · exact sizeOf_lt_of_mem_fields head hfield

variable {declarations : List Value} {exprs : List Expr}

theorem Retains.root {form : Value} {i : Int} (h : Retains declarations exprs form i) :
    ∃ (n : Nat) (e : Expr), i = n ∧ exprs[n]? = some e ∧ Keeps form e.bare ∧
      (∀ type, annotation? form = some type → ∃ r, RefersTo declarations type r ∧ (r = none ∨ e.type = r)) ∧
      List.Forall₂ (Retains declarations exprs) (kept form (parts form)) e.children := by
  cases h with
  | tree hat hkeeps htype hparts => exact ⟨_, _, rfl, hat, hkeeps, htype, hparts⟩

private theorem Depicts.root {form : Value} {n : Nat} {e : Expr}
    (h : Depicts declarations exprs form n) (hat : exprs[n]? = some e) :
    Shows form e.bare ∧ List.Forall₂ (Depicts declarations exprs) (parts form) e.children := by
  generalize hi : (n : Int) = i at h
  cases h with
  | tree hat' hshows _ hparts =>
    obtain rfl := Int.ofNat.inj hi
    obtain rfl := Option.some.inj (hat.symm.trans hat')
    exact ⟨hshows, hparts⟩

/-- The tree of an expression is all that its form spells just if no constructor within it sets a
field twice. -/
theorem Retains.depicts_iff {form : Value} {i : Int} (h : Retains declarations exprs form i) :
    Depicts declarations exprs form i ↔ ∀ w, Within w form → SetsOnce w := by
  obtain ⟨n, e, rfl, hat, hkeeps, htype, hparts⟩ := h.root
  have hbelow : ∀ x ∈ parts form, ∀ j, Retains declarations exprs x j →
      (Depicts declarations exprs x j ↔ ∀ w, Within w x → SetsOnce w) := by
    intro x hx j hj
    have hlt := sizeOf_lt_of_mem_parts hx
    exact hj.depicts_iff
  constructor
  · intro hdepicts w hw
    obtain ⟨hshows, hspelled⟩ := hdepicts.root hat
    have honce := hkeeps.setsOnce_of_shows hshows
    rw [hkeeps.kept_eq honce rfl] at hparts
    cases hw with
    | self => exact honce
    | part hpart hinner =>
      obtain ⟨j, _, hretains, hdepicts⟩ := 
        exists_of_forall₂_left (List.Forall₂.mp (fun _ _ => And.intro) hparts hspelled) hpart
      exact (hbelow _ hpart j hretains).mp hdepicts w hinner
  · intro honce
    have hown := honce form (.self form)
    rw [hkeeps.kept_eq hown rfl] at hparts
    refine .tree hat (hkeeps.shows_of_setsOnce hown) htype ((forall₂_with_mem hparts).imp ?_)
    rintro x j ⟨hx, hj⟩
    exact (hbelow x hx j hj).mpr fun w hw => honce w (.part hx hw)
termination_by sizeOf form
decreasing_by exact hlt

theorem Placed.eq_of_head {form inner : Value} (h : Placed form inner)
    (hhead : hasHead "at" form = false) : inner = form := by
  cases h with
  | here => rfl
  | place _ _ => simp [hasHead, head?] at hhead

theorem placed_place_iff {args : List Value} {form inner : Value}
    (hlast : args.getLast? = some form) :
    Placed (.list (.text "at" :: args)) inner ↔
      inner = .list (.text "at" :: args) ∨ Placed form inner := by
  constructor
  · intro h
    cases h with
    | here => exact Or.inl rfl
    | place hlast' h =>
      obtain rfl := Option.some.inj (hlast.symm.trans hlast')
      exact Or.inr h
  · rintro (rfl | h)
    · exact .here _
    · exact .place hlast h

theorem StmtRegular.of_place {args : List Value} {form : Value} (hlast : args.getLast? = some form)
    (h : StmtRegular (.list (.text "at" :: args))) : StmtRegular form :=
  ⟨fun name rest hlet => h.letName name rest (.place hlast hlet),
    fun inner hinner => h.setsOnce inner (.place hlast hinner)⟩

/-- Of a statement that declares a text and sets no field twice, all is kept. -/
theorem StmtRetains.depicts {form : Value} {s : Stmt} (h : StmtRetains declarations exprs form s)
    (hregular : StmtRegular form) : StmtDepicts declarations exprs form s := by
  induction h with
  | letVar hlength hkind htarget hname hvalue =>
    obtain ⟨text, rfl⟩ := hregular.letName _ _ (.here _)
    have hvalue := hvalue.depicts_iff.mpr (hregular.setsOnce _ (.here _) _ List.mem_cons_self)
    cases hname with
    | text hname => exact .letVar hlength hkind htarget hname hvalue
    | other htext _ => exact absurd rfl (htext text)
  | assign hkind htarget hleft hvalue =>
    have honce := hregular.setsOnce _ (.here _)
    refine .assign hkind htarget (hleft.depicts_iff.mpr (honce _ List.mem_cons_self)) ?_
    exact hvalue.depicts_iff.mpr (honce _ (List.mem_cons_of_mem _ List.mem_cons_self))
  | eval hkind htarget hvalue =>
    have honce := hregular.setsOnce _ (.here _)
    exact .eval hkind htarget (hvalue.depicts_iff.mpr (honce _ List.mem_cons_self))
  | place hlast _ ih => exact .place hlast (ih (hregular.of_place hlast))

theorem BlockFrom.depicts {blocks : List Value} {form : Value × Nat} {b : Block}
    (h : BlockFrom (StmtRetains declarations exprs) blocks form b)
    (hregular : ∀ label successors stmts, form.1 = .list (.text "block" :: label :: successors :: stmts) →
      ∀ s ∈ stmts, StmtRegular s) : BlockDepicts declarations exprs blocks form b := by
  obtain ⟨label, successors, stmts, targets, hform, htargets, hsuccessors, hstmts⟩ := h.parts
  refine ⟨h.id, label, successors, stmts, targets, hform, htargets, hsuccessors, ?_⟩
  refine (forall₂_with_mem hstmts).imp ?_
  rintro g s ⟨hg, hs⟩
  exact hs.depicts (hregular _ _ _ hform g hg)

end Document
end AccountLint

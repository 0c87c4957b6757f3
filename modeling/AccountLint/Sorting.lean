/-! Sorting that keeps equal entries in their order, and lists used as sets. -/
namespace AccountLint

variable {α : Type}

/-- Puts an entry before the first one that is not smaller. -/
def insertBy (le : α → α → Bool) (x : α) : List α → List α
  | [] => [x]
  | y :: ys => if le x y then x :: y :: ys else y :: insertBy le x ys

/-- The entries in increasing order; equal ones keep their order. -/
def sortBy (le : α → α → Bool) : List α → List α
  | [] => []
  | x :: xs => insertBy le x (sortBy le xs)

/-- Increasing order of texts by code point. -/
def textLe (a b : String) : Bool := !(b < a)

def sortTexts (xs : List String) : List String := sortBy textLe xs

def sortInts (xs : List Int) : List Int := sortBy (fun a b => a ≤ b) xs

/-- Adds an entry at the end unless an equal one is there. -/
def addNew [BEq α] (xs : List α) (x : α) : List α := if xs.contains x then xs else xs ++ [x]

/-- The entries without repetition, in the order of their first occurrences. -/
def distinct [BEq α] (xs : List α) : List α := xs.foldl addNew []

/-- The first of all entries that a test takes for equal. -/
def distinctBy (eq : α → α → Bool) (xs : List α) : List α :=
  xs.foldl (fun seen x => if seen.any (eq · x) then seen else seen ++ [x]) []

def unseen [BEq α] (all seen : List α) : Nat := (all.filter fun x => !seen.contains x).length

/-- What is found under a key is there with that key. -/
theorem mem_of_lookup {β : Type} [BEq α] [LawfulBEq α] {k : α} {b : β} {l : List (α × β)}
    (h : l.lookup k = some b) : (k, b) ∈ l := by
  induction l with
  | nil => cases h
  | cons e rest ih =>
    obtain ⟨c, d⟩ := e
    rw [List.lookup_cons] at h
    split at h
    · rename_i heq
      obtain rfl := eq_of_beq heq
      obtain rfl := Option.some.inj h
      exact List.mem_cons_self
    · exact List.mem_cons_of_mem _ (ih h)

private theorem unseen_cons [BEq α] [LawfulBEq α] (y : α) (ys seen : List α) :
    unseen (y :: ys) seen = unseen ys seen + (if seen.contains y then 0 else 1) := by
  unfold unseen
  rw [List.filter_cons]
  cases seen.contains y <;> rfl

/-- Seeing one more entry leaves no more unseen ones. -/
theorem unseen_cons_le [BEq α] [LawfulBEq α] (x : α) (all seen : List α) :
    unseen all (x :: seen) ≤ unseen all seen := by
  induction all with
  | nil => exact Nat.le_refl _
  | cons y ys ih =>
    rw [unseen_cons, unseen_cons, List.contains_cons]
    cases y == x <;> cases seen.contains y <;> simp only [Bool.or_true, Bool.or_false,
      Bool.false_eq_true, if_true, if_false] <;> omega

/-- Seeing one more entry of a list leaves fewer unseen ones. -/
theorem unseen_cons_lt [BEq α] [LawfulBEq α] {all seen : List α} {x : α}
    (hx : x ∈ all) (hs : x ∉ seen) : unseen all (x :: seen) < unseen all seen := by
  induction all with
  | nil => cases hx
  | cons y ys ih =>
    rw [unseen_cons, unseen_cons, List.contains_cons]
    rcases List.mem_cons.mp hx with rfl | h
    · have hc : seen.contains x = false := by
        rw [Bool.eq_false_iff]
        exact fun h => hs (List.contains_iff_mem.mp h)
      have := unseen_cons_le x ys seen
      rw [hc, beq_self_eq_true]
      simp only [Bool.or_false, Bool.false_eq_true, if_true, if_false]
      omega
    · have := ih h
      cases y == x <;> cases seen.contains y <;> simp only [Bool.or_true, Bool.or_false,
        Bool.false_eq_true, if_true, if_false] <;> omega

end AccountLint

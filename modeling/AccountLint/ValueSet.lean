import AccountLint.Fault
import AccountLint.Sorting

/-! Sets of values, kept as lists without repetition. -/
namespace AccountLint

/-- The entries of a value: of a list its items, of a text its characters, of a record its keys. -/
def Value.entries : Value → Except Fault (List Value)
  | .list xs => .ok xs
  | .text s => .ok (s.toList.map fun c => .text c.toString)
  | .record keys _ => .ok (keys.map Value.text)
  | .bytes bs => .ok (bs.map fun b => .int (Int.ofNat b))
  | _ => .error .shape

/-- The set of some values, none of which may be a list. -/
def setOf (xs : List Value) : Except Fault (List Value) :=
  if xs.all Value.isKey then .ok (Value.distinctValues xs) else .error .shape

def Value.isIn (x : Value) (set : List Value) : Except Fault Bool :=
  if x.isKey then .ok (set.any (Value.same x)) else .error .shape

def Value.isOneOf (x : Value) (texts : List String) : Except Fault Bool :=
  x.isIn (texts.map Value.text)

/-- Where a number lies: its side if it is infinite, and its value as a fraction. -/
def Value.magnitude? : Value → Option (Int × Int × Nat)
  | .bool b => some (0, if b then 1 else 0, 1)
  | .int i => some (0, i, 1)
  | .float (.infinite negative) => some (if negative then -1 else 1, 0, 1)
  | .float (.finite negative m e) =>
    let n : Int := if negative then -(m : Int) else m
    some (if 0 ≤ e then (0, n * (Nat.pow 2 e.toNat : Nat), 1) else (0, n, Nat.pow 2 (-e).toNat))
  | _ => none

def Value.isNumber : Value → Bool
  | .bool _ | .int _ | .float _ => true
  | _ => false

/-- The order of numbers; what is no number is neither below nor above any. -/
def Value.numberLt (a b : Value) : Bool :=
  match a.magnitude?, b.magnitude? with
  | some (r, n, d), some (r', n', d') => r < r' || (r == r' && n * d' < n' * d)
  | _, _ => false

/-- The order of texts and the order of numbers; other values have no order. -/
def Value.lt? : Value → Value → Option Bool
  | .text a, .text b => some (a < b)
  | a, b => if a.isNumber && b.isNumber then some (a.numberLt b) else none

/-- A set in increasing order, if all of its values can be compared. -/
def sortedSet (xs : List Value) : Except Fault (List Value) :=
  if xs.length ≤ 1 || xs.all (·.text?.isSome) || xs.all Value.isNumber then
    .ok (sortBy (fun a b => Value.lt? b a != some true) xs)
  else .error .shape

end AccountLint

import AccountLint.Decimal.Shortest

/-! Decimals of fractions, rounded to a number of places or of digits, half to even, and where their
point is written. -/
namespace AccountLint.Binary64

/-- A decimal: its digits, and the place of the point counted from the first of them. -/
structure Rounded where
  digits : List Char
  point : Int
deriving DecidableEq, Inhabited

def timesTen (num den : Nat) (power : Int) : Nat × Nat :=
  if 0 ≤ power then (num * Nat.pow 10 power.toNat, den) else (num, den * Nat.pow 10 (-power).toNat)

namespace Rounded

/-- The fraction `num / den` with a number of places behind the point. -/
def toPlaces (places num den : Nat) : Rounded :=
  let ds := Nat.toDigits 10 (roundDiv (num * Nat.pow 10 places) den)
  ⟨ds, (ds.length : Int) - places⟩

/-- The fraction `num / den` with a number of digits, or one more where rounding carries. -/
def toDigits (count num den : Nat) : Rounded :=
  if num = 0 then ⟨['0'], 1⟩
  else
    let power := magnitude num den - count
    let (n, d) := timesTen num den (-power)
    let ds := Nat.toDigits 10 (roundDiv n d)
    ⟨ds, ds.length + power⟩

/-- The decimal with the fewest digits that reads back as `m · 2 ^ e`. -/
def shortestOf (m : Nat) (e : Int) : Rounded :=
  if m = 0 then ⟨['0'], 1⟩
  else
    let (d, power) := shortest m e
    let all := Nat.toDigits 10 d
    ⟨dropZeros all, all.length + power⟩

/-- The decimal without the zeros at its end; one digit stays. -/
def trimmed (r : Rounded) : Rounded :=
  match dropZeros r.digits with
  | [] => { r with digits := ['0'] }
  | ds => { r with digits := ds }

def isZero (r : Rounded) : Bool := r.digits.all (· == '0')

/-- The digits before the point. -/
def whole (r : Rounded) : List Char :=
  if r.point ≤ 0 then ['0']
  else r.digits.take r.point.toNat ++ List.replicate (r.point.toNat - r.digits.length) '0'

/-- A number of digits behind the point. -/
def places (r : Rounded) (count : Nat) : List Char :=
  let ds := List.replicate (-r.point).toNat '0' ++ r.digits.drop r.point.toNat
  ds.take count ++ List.replicate (count - ds.length) '0'

end Rounded
end AccountLint.Binary64

/-! Double precision numbers as exact values, and the double nearest to a fraction. -/
namespace AccountLint

/-- A double: no number, an infinity, or `mantissa · 2 ^ exponent` with a sign. What is no number
has a payload, by which occurrences of it are told apart. A finite double is kept with
`mantissa < 2 ^ 53` and `-1074 ≤ exponent`, and with `2 ^ 52 ≤ mantissa` unless the exponent is the
least one, so that no two of them but the zeros have the same value. -/
inductive Binary64 where
  | nan (payload : Nat)
  | infinite (negative : Bool)
  | finite (negative : Bool) (mantissa : Nat) (exponent : Int)
deriving DecidableEq, Inhabited

namespace Binary64

/-- The double with a payload, if it is no number. -/
def withPayload (payload : Nat) : Binary64 → Binary64
  | .nan _ => .nan payload
  | x => x

def zero (negative : Bool) : Binary64 := .finite negative 0 (-1074)

/-- The integer nearest to `num / den`, the even one of two. -/
def roundDiv (num den : Nat) : Nat :=
  let q := num / den
  let r := num % den
  if 2 * r < den then q else if den < 2 * r then q + 1 else q + q % 2

/-- `num / (den · 2 ^ e)` as a fraction. -/
def scaled (num den : Nat) (e : Int) : Nat × Nat :=
  if 0 ≤ e then (num, den * Nat.pow 2 e.toNat) else (num * Nat.pow 2 (-e).toNat, den)

/-- The double nearest to the positive fraction `num / den`, the even one of two. -/
def ofRatio (negative : Bool) (num den : Nat) : Binary64 :=
  let guess : Int := (num.log2 : Int) - den.log2 - 52
  let (n, d) := scaled num den guess
  let e := if n < d * Nat.pow 2 52 then guess - 1 else guess
  let e := if e < -1074 then -1074 else e
  let (n, d) := scaled num den e
  let m := roundDiv n d
  let (m, e) := if m = Nat.pow 2 53 then (Nat.pow 2 52, e + 1) else (m, e)
  if 971 < e then .infinite negative else .finite negative m e

def digitCount (n : Nat) : Nat := (Nat.toDigits 10 n).length

/-- The double nearest to `digits · 10 ^ power`. -/
def ofDecimal (negative : Bool) (digits : Nat) (power : Int) : Binary64 :=
  let size := (digitCount digits : Int) + power
  if digits = 0 ∨ size < -330 then zero negative
  else if 310 < size then .infinite negative
  else if 0 ≤ power then ofRatio negative (digits * Nat.pow 10 power.toNat) 1
  else ofRatio negative digits (Nat.pow 10 (-power).toNat)

def toInt? : Binary64 → Option Int
  | .finite negative m e =>
    let signed (n : Nat) : Int := if negative then -(n : Int) else n
    if 0 ≤ e then some (signed (m * Nat.pow 2 e.toNat))
    else if m % Nat.pow 2 (-e).toNat = 0 then some (signed (m / Nat.pow 2 (-e).toNat))
    else none
  | _ => none

/-- Whether the value lies in the interval from `0` to `n`, `n` excluded. -/
def isBelow (n : Nat) : Binary64 → Bool
  | .finite negative m e =>
    if negative then m == 0 && 0 < n
    else if 0 ≤ e then m * Nat.pow 2 e.toNat < n else m < n * Nat.pow 2 (-e).toNat
  | _ => false

end Binary64
end AccountLint

import AccountLint.Decimal.Binary64

/-! The decimal text of a double: the fewest digits that read back. -/
namespace AccountLint.Binary64

/-- `m · 2 ^ e` as a fraction. -/
def fraction (m : Nat) (e : Int) : Nat × Nat :=
  if 0 ≤ e then (m * Nat.pow 2 e.toNat, 1) else (m, Nat.pow 2 (-e).toNat)

/-- The least power of ten above the positive fraction `num / den`. -/
def magnitude (num den : Nat) : Int :=
  let guess : Int := (digitCount num : Int) - digitCount den
  let below :=
    if 0 ≤ guess then num < den * Nat.pow 10 guess.toNat else num * Nat.pow 10 (-guess).toNat < den
  if below then guess else guess + 1

/-- The decimal of `count` digits that reads back as `m · 2 ^ e`, if there is one; of two the
nearer, and of two equally near the even one. -/
def decimalOf? (m : Nat) (e : Int) (count : Nat) : Option (Nat × Int) :=
  let (num, den) := fraction m e
  let power := magnitude num den - count
  let (num, den) :=
    if 0 ≤ power then (num, den * Nat.pow 10 power.toNat) else (num * Nat.pow 10 (-power).toNat, den)
  let q := num / den
  let r := num % den
  let readsBack (d : Nat) : Bool := ofDecimal false d power == .finite false m e
  match readsBack q, readsBack (q + 1) with
  | true, true => some (if 2 * r < den || (2 * r == den && q % 2 == 0) then q else q + 1, power)
  | true, false => some (q, power)
  | false, true => some (q + 1, power)
  | false, false => none

def exactDecimal (m : Nat) (e : Int) : Nat × Int :=
  if 0 ≤ e then (m * Nat.pow 2 e.toNat, 0) else (m * Nat.pow 5 (-e).toNat, e)

/-- The decimal with the fewest digits that reads back as `m · 2 ^ e`. -/
def shortest (m : Nat) (e : Int) : Nat × Int :=
  ((List.range 17).findSome? fun n => decimalOf? m e (n + 1)).getD (exactDecimal m e)

structure Layout where
  /-- The point is written out while it stands at least here, counted from the first digit. -/
  firstPoint : Int
  /-- The point is written out while it stands at most here. -/
  lastPoint : Int
  /-- The least number of digits of an exponent. -/
  exponentWidth : Nat
  /-- The text of no number. -/
  nanText : String
  /-- The text of the positive infinity. -/
  infiniteText : String

/-- Positional from `0.0001` up to sixteen digits, otherwise with a signed exponent of at least two
digits; a whole number keeps a zero behind its point. -/
def plain : Layout := ⟨-3, 16, 2, "nan", "inf"⟩

def dropZeros (ds : List Char) : List Char := (ds.reverse.dropWhile (· == '0')).reverse

def Layout.exponent (l : Layout) (x : Int) : List Char :=
  let ds := Nat.toDigits 10 x.natAbs
  'e' :: (if x < 0 then '-' else '+') :: (List.replicate (l.exponentWidth - ds.length) '0' ++ ds)

/-- Digits with the point at a place counted from the first digit. -/
def Layout.place (l : Layout) (ds : List Char) (point : Int) : List Char :=
  if l.firstPoint ≤ point && point ≤ l.lastPoint then
    if point ≤ 0 then '0' :: '.' :: (List.replicate (-point).toNat '0' ++ ds)
    else if (ds.length : Int) ≤ point then
      ds ++ List.replicate (point.toNat - ds.length) '0' ++ ['.', '0']
    else ds.take point.toNat ++ '.' :: ds.drop point.toNat
  else
    match ds with
    | [] => []
    | [d] => d :: l.exponent (point - 1)
    | d :: rest => d :: '.' :: rest ++ l.exponent (point - 1)

def Layout.write (l : Layout) : Binary64 → String
  | .nan _ => l.nanText
  | .infinite negative => (if negative then "-" else "") ++ l.infiniteText
  | .finite negative m e =>
    let sign := if negative then "-" else ""
    if m = 0 then sign ++ "0.0"
    else
      let (d, power) := shortest m e
      let all := Nat.toDigits 10 d
      sign ++ String.ofList (l.place (dropZeros all) (all.length + power))

end AccountLint.Binary64

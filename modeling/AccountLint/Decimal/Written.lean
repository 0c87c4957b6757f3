import AccountLint.Decimal.Rounded
import AccountLint.Fault
import AccountLint.Text.Layout

/-! Numbers as layouts have them written. -/
namespace AccountLint

/-- A number as it is written: its sign, the mark of its base, the digits that may be grouped, and
what stands behind them. -/
structure Written where
  negative : Bool := false
  mark : List Char := []
  whole : List Char := []
  rest : List Char := []
deriving DecidableEq, Inhabited

namespace Written

open Text (Layout Side)

def signText (l : Layout) (negative : Bool) : List Char :=
  if negative then ['-']
  else
    match l.sign with
    | some '+' => ['+']
    | some ' ' => [' ']
    | _ => []

/-- The digits from the last to the first, with a mark behind every group. -/
def separate (mark : Char) (size : Nat) : Nat → List Char → List Char
  | _, [] => []
  | 0, d :: ds => mark :: d :: separate mark size (size - 1) ds
  | left + 1, d :: ds => d :: separate mark size left ds

/-- How many digits of groups of a size fill a width, at least as many as there are. -/
def filledCount (size width count : Nat) : Nat :=
  ((List.range (width + 1)).map (· + count)).find? (fun k => width ≤ k + (k - 1) / size)
    |>.getD count

/-- The digits in groups, with zeros in front that fill a width; a mark is never in front. -/
def grouped (groups : Option (Char × Nat)) (width : Nat) (ds : List Char) : List Char :=
  match groups with
  | none => List.replicate (width - ds.length) '0' ++ ds
  | some (mark, size) =>
    let zeros := List.replicate (filledCount size width ds.length - ds.length) '0'
    (separate mark size size (zeros ++ ds).reverse).reverse

/-- The side of a number: the right one, or inside where a zero is in front of the width. -/
def sideOf (l : Layout) : Side := l.side.getD (if l.zero then .inside else .right)

/-- Lays a number out. Zeros inside are digits, and grouped like the others. -/
def apply (w : Written) (l : Layout) (groups : Option (Char × Nat)) : String :=
  let front := signText l w.negative ++ w.mark
  let inside := sideOf l == .inside
  let room := l.width - (front.length + w.rest.length)
  let ds := if w.whole.isEmpty then []
    else grouped groups (if inside && l.fillerChar == '0' then room else 0) w.whole
  if inside then
    String.ofList (front ++ List.replicate (room - ds.length) l.fillerChar ++ ds ++ w.rest)
  else String.ofList (l.pad (sideOf l) (front ++ ds ++ w.rest))

/-- The groups of a layout: of three digits in decimals and, only with underscores, of four in other
bases. Other kinds have none. -/
def groups? (l : Layout) (kind : Char) : Except Fault (Option (Char × Nat)) :=
  match l.grouping with
  | none => .ok none
  | some mark =>
    if ['d', 'e', 'f', 'g', 'E', 'G', '%', 'F'].contains kind then .ok (some (mark, 3))
    else if mark == '_' && ['b', 'o', 'x', 'X'].contains kind then .ok (some (mark, 4))
    else .error .parts

def base? : Char → Option (Nat × List Char)
  | 'd' | 'n' => some (10, [])
  | 'b' => some (2, ['0', 'b'])
  | 'o' => some (8, ['0', 'o'])
  | 'x' => some (16, ['0', 'x'])
  | 'X' => some (16, ['0', 'X'])
  | _ => none

def character (l : Layout) (i : Int) : Except Fault Written :=
  if l.sign.isSome || l.alternate then .error .parts
  else if i < 0 || 0x10ffff < i then .error .tooLarge
  else .ok { rest := [Char.ofNat i.toNat] }

def ofInt (l : Layout) (kind : Char) (base : Nat) (mark : List Char) (i : Int) : Written :=
  let ds := Nat.toDigits base i.natAbs
  { negative := i < 0, mark := if l.alternate then mark else [],
    whole := if kind == 'X' then ds.map Char.toUpper else ds }

/-- The exponent of a decimal, with its sign and at least two digits. -/
def exponent (upper : Bool) (x : Int) : List Char :=
  let ds := Nat.toDigits 10 x.natAbs
  (if upper then 'E' else 'e') :: (if x < 0 then '-' else '+') ::
    (List.replicate (2 - ds.length) '0' ++ ds)

/-- The places behind a point. The point stays without places only in the other form. -/
def pointed (l : Layout) (ds : List Char) : List Char :=
  if ds.isEmpty && !l.alternate then [] else '.' :: ds

def positional (l : Layout) (r : Binary64.Rounded) (places : Nat) : Written :=
  { whole := r.whole, rest := pointed l (r.places places) }

/-- A decimal with its point behind the first digit, a number of places, and an exponent. -/
def scientific (l : Layout) (upper : Bool) (r : Binary64.Rounded) (places : Nat) : Written :=
  let first : Binary64.Rounded := { r with point := 1 }
  { whole := first.whole, rest := pointed l (first.places places) ++ exponent upper (r.point - 1) }

/-- A decimal of some digits with an exponent if its point is not in a range, and otherwise without.
A whole number may keep one place. -/
def general (l : Layout) (upper : Bool) (r : Binary64.Rounded) (shown : Nat) (lastPoint : Int)
    (keepPlace : Bool) : Written :=
  if r.point ≤ -4 || lastPoint < r.point then scientific l upper r (shown - 1)
  else
    let places := ((shown : Int) - r.point).toNat
    positional l r (if keepPlace && places == 0 then 1 else places)

/-- The digits of a finite double that a kind asks for, and the number in them. -/
def ofFraction (l : Layout) (kind : Option Char) (m : Nat) (e : Int) : Binary64.Rounded × Written :=
  let (num, den) := Binary64.fraction m e
  let upper := kind == some 'E' || kind == some 'G'
  let precision := l.precision.getD 6
  let significant (count : Nat) (keepPlace : Bool) : Binary64.Rounded × Written :=
    let count := if count = 0 then 1 else count
    let r := (Binary64.Rounded.toDigits count num den).trimmed
    let shown := if l.alternate then count else r.digits.length
    (r, general l upper r shown (if keepPlace then (count : Int) - 1 else count) keepPlace)
  match kind with
  | some 'e' | some 'E' =>
    let r := Binary64.Rounded.toDigits (precision + 1) num den
    (r, scientific l upper r precision)
  | some 'f' | some 'F' | some '%' =>
    let r := Binary64.Rounded.toPlaces precision num den
    (r, positional l r precision)
  | some _ => significant precision false
  | none =>
    match l.precision with
    | some count => significant count true
    | none =>
      let r := Binary64.Rounded.shortestOf m e
      (r, general l upper r r.digits.length 16 true)

def word (kind : Option Char) (text : String) : List Char :=
  if kind == some 'E' || kind == some 'F' || kind == some 'G' then text.toList.map Char.toUpper
  else text.toList

/-- A double of a kind. A zero loses its sign where the layout has no negative zero. -/
def ofDouble (l : Layout) (kind : Option Char) (x : Binary64) : Written :=
  let w : Written := match x with
    | .nan _ => { rest := word kind "nan" }
    | .infinite negative => { negative, rest := word kind "inf" }
    | .finite negative m e =>
      let (r, w) := ofFraction l kind m e
      { w with negative := negative && !(l.positiveZero && r.isZero) }
  if kind == some '%' then { w with rest := w.rest ++ ['%'] } else w

end Written

namespace Binary64

/-- The double nearest to an integer; there is none for one that is too large. -/
def ofInt (i : Int) : Except Fault Binary64 :=
  if i = 0 then .ok (zero false)
  else
    match ofRatio (i < 0) i.natAbs 1 with
    | .finite negative m e => .ok (.finite negative m e)
    | _ => .error .tooLarge

def timesHundred : Binary64 → Binary64
  | .finite negative m e =>
    if m = 0 then .finite negative m e
    else
      let (num, den) := fraction m e
      ofRatio negative (num * 100) den
  | x => x

def isDoubleKind (k : Char) : Bool := ['e', 'E', 'f', 'F', 'g', 'G', '%'].contains k

def layOut (l : Text.Layout) (x : Binary64) : Except Fault String := do
  if l.kind.any fun k => !isDoubleKind k && k != 'n' then throw .parts
  let groups ← Written.groups? l (l.kind.getD 'f')
  if 2147483647 < l.precision.getD 0 then throw .parts
  let x := if l.kind == some '%' then x.timesHundred else x
  return (Written.ofDouble l l.kind x).apply l groups

end Binary64

def layOutInt (l : Text.Layout) (i : Int) : Except Fault String := do
  let kind := l.kind.getD 'd'
  if Binary64.isDoubleKind kind then
    let _ ← Written.groups? l kind
    Binary64.layOut l (← Binary64.ofInt i)
  else
    let groups ← Written.groups? l kind
    if l.precision.isSome || l.positiveZero then throw .parts
    if kind == 'c' then return (← Written.character l i).apply l none
    match Written.base? kind with
    | none => throw .parts
    | some (base, mark) => return (Written.ofInt l kind base mark i).apply l groups

end AccountLint

import AccountLint.Text.Digit

/-! Layouts: how the text of a value is shortened, signed, grouped and padded. -/
namespace AccountLint.Text

/-- Where the value stands in a padded text; inside, the padding is between the sign and the digits.
-/
inductive Side where
  | left
  | right
  | center
  | inside
deriving DecidableEq, Inhabited

def side? : Char → Option Side
  | '<' => some .left
  | '>' => some .right
  | '^' => some .center
  | '=' => some .inside
  | _ => none

/-- A layout as it is written: filler, side, sign, no negative zero, other form, zero in front of
the width, width, mark between groups of digits, precision and kind. Every part may be left out. -/
structure Layout where
  filler : Option Char := none
  side : Option Side := none
  sign : Option Char := none
  positiveZero : Bool := false
  alternate : Bool := false
  zero : Bool := false
  width : Nat := 0
  grouping : Option Char := none
  precision : Option Nat := none
  kind : Option Char := none
deriving DecidableEq, Inhabited

namespace Layout

/-- The side at the beginning of a layout, with the filler if one is in front of it, and the rest.
-/
def leadingSide : List Char → Option Char × Option Side × List Char
  | [] => (none, none, [])
  | [c] =>
    match side? c with
    | some side => (none, some side, [])
    | none => (none, none, [c])
  | c :: d :: rest =>
    match side? d, side? c with
    | some side, _ => (some c, some side, rest)
    | none, some side => (none, some side, d :: rest)
    | none, none => (none, none, c :: d :: rest)

def leading (p : Char → Bool) : List Char → Option Char × List Char
  | [] => (none, [])
  | c :: cs => if p c then (some c, cs) else (none, c :: cs)

/-- The precision behind a point, and the rest; a point without a number is not well formed. -/
def precision? : List Char → Option (Option Nat × List Char)
  | '.' :: cs => do
    let (n, rest) ← leadingNumber? cs
    return (some (← n), rest)
  | cs => some (none, cs)

/-- The layout in a text. A zero in front of the width is part of the width if there is a filler. -/
def ofText? (cs : List Char) : Option Layout := do
  let (filler, side, cs) := leadingSide cs
  let (sign, cs) := leading (fun c => c == ' ' || c == '+' || c == '-') cs
  let (positiveZero, cs) := leading (· == 'z') cs
  let (alternate, cs) := leading (· == '#') cs
  let (zero, cs) := leading (fun c => filler.isNone && c == '0') cs
  let (width, cs) ← leadingNumber? cs
  let (grouping, cs) := leading (fun c => c == ',' || c == '_') cs
  let (precision, cs) ← precision? cs
  let (kind, cs) := leading (fun _ => true) cs
  if !cs.isEmpty then none
  else
    return { filler, side, sign, positiveZero := positiveZero.isSome,
             alternate := alternate.isSome, zero := zero.isSome, width := width.getD 0, grouping,
             precision, kind }

def fillerChar (l : Layout) : Char := l.filler.getD (if l.zero then '0' else ' ')

/-- The text between two paddings that bring it to the width. A text that is aligned inside has its
padding in front. -/
def pad (l : Layout) (side : Side) (cs : List Char) : List Char :=
  let missing := l.width - cs.length
  let before := match side with
    | .left => 0
    | .right | .inside => missing
    | .center => missing / 2
  List.replicate before l.fillerChar ++ cs ++ List.replicate (missing - before) l.fillerChar

/-- Whether a layout is fit for texts: they have no sign, no digits and no inside. -/
def isForText (l : Layout) : Bool :=
  l.sign.isNone && !l.positiveZero && !l.alternate && l.grouping.isNone &&
    l.side != some .inside && (l.kind.isNone || l.kind == some 's')

/-- Lays a text out: it is shortened to the precision and then padded. -/
def applyText? (l : Layout) (text : String) : Option String :=
  if !l.isForText then none
  else
    let cs := match l.precision with
      | some n => text.toList.take n
      | none => text.toList
    some (String.ofList (l.pad (l.side.getD .left) cs))

end Layout
end AccountLint.Text

import AccountLint.Decimal.Binary64
import AccountLint.Text.Blank
import AccountLint.Text.Digit

/-! Reading numerals: integers and decimals, with blanks around them and underscores inside. -/
namespace AccountLint.Numeral

open Text

/-- A blank that may stand around a numeral: outside ASCII every blank, inside it the six. -/
def isPadding (c : Char) : Bool := if c.toNat < 0x7f then isSpace c else isBlank c

/-- The digits that go on after a digit, and the rest; one underscore may part two digits. -/
def moreDigits : List Char → List Nat × List Char
  | [] => ([], [])
  | c :: cs =>
    match digitValue? c with
    | some d => let (ds, rest) := moreDigits cs; (d :: ds, rest)
    | none =>
      if c == '_' && (cs.head?.map isDigit).getD false then moreDigits cs else ([], c :: cs)

def digits (cs : List Char) : List Nat × List Char :=
  if (cs.head?.map isDigit).getD false then moreDigits cs else ([], cs)

def sign : List Char → Bool × List Char
  | '-' :: cs => (true, cs)
  | '+' :: cs => (false, cs)
  | cs => (false, cs)

def int? (cs : List Char) : Option Int :=
  let (negative, cs) := sign (trim isPadding cs)
  match digits cs with
  | ([], _) => none
  | (ds, []) => some (if negative then -(ofDigits ds : Int) else ofDigits ds)
  | (_, _ :: _) => none

def exponent? : List Char → Option Int
  | [] => some 0
  | c :: cs =>
    if c == 'e' || c == 'E' then
      let (negative, cs) := sign cs
      match digits cs with
      | ([], _) => none
      | (ds, []) => some (if negative then -(ofDigits ds : Int) else ofDigits ds)
      | (_, _ :: _) => none
    else none

def fractionDigits : List Char → List Nat × List Char
  | '.' :: cs => digits cs
  | cs => ([], cs)

def decimal? (negative : Bool) (cs : List Char) : Option Binary64 :=
  let (whole, rest) := digits cs
  let (part, rest) := fractionDigits rest
  if whole.isEmpty && part.isEmpty then none
  else do
    let power ← exponent? rest
    return .ofDecimal negative (ofDigits (whole ++ part)) (power - part.length)

/-- A whole numeral as a double; the words for the infinities and for no number count as numerals,
in either case of their letters. -/
def float? (cs : List Char) : Option Binary64 :=
  let (negative, cs) := sign (trim isPadding cs)
  let word := String.ofList (cs.map Char.toLower)
  if word == "inf" || word == "infinity" then some (.infinite negative)
  else if word == "nan" then some (.nan 0)
  else decimal? negative cs

end AccountLint.Numeral

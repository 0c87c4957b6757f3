import AccountLint.Decimal.Numeral
import AccountLint.Value

/-! Reading JSON. The three words for numbers that are none are read as well, and of two fields with
the same key the later one counts. -/
namespace AccountLint.Json

def skipBlanks (cs : List Char) : List Char :=
  cs.dropWhile fun c => c == ' ' || c == '\t' || c == '\n' || c == '\r'

def word? : List Char → List Char → Option (List Char)
  | [], cs => some cs
  | _ :: _, [] => none
  | w :: ws, c :: cs => if w == c then word? ws cs else none

def hexValue? (c : Char) : Option Nat :=
  let n := c.toNat
  if 0x30 ≤ n && n ≤ 0x39 then some (n - 0x30)
  else if 0x61 ≤ n && n ≤ 0x66 then some (n - 0x57)
  else if 0x41 ≤ n && n ≤ 0x46 then some (n - 0x37)
  else none

/-- The number of four digits of base sixteen, and the rest. -/
def unit? : List Char → Option (Nat × List Char)
  | a :: b :: c :: d :: cs => do
    let a ← hexValue? a
    let b ← hexValue? b
    let c ← hexValue? c
    let d ← hexValue? d
    return (((a * 16 + b) * 16 + c) * 16 + d, cs)
  | _ => none

/-- What a letter behind a backslash stands for. -/
def escaped? (c : Char) : Option Char :=
  if c == '"' || c == '\\' || c == '/' then some c
  else if c == 'b' then some (Char.ofNat 0x08)
  else if c == 'f' then some (Char.ofNat 0x0c)
  else if c == 'n' then some '\n'
  else if c == 'r' then some '\r'
  else if c == 't' then some '\t'
  else none

/-- The character of one unit or of a pair of surrogates; a surrogate without its partner has no
character and is replaced. -/
def ofUnit (high : Option Nat) (n : Nat) : List Char × Option Nat :=
  let replacement := Char.ofNat 0xfffd
  match high with
  | some h =>
    if 0xdc00 ≤ n && n < 0xe000 then
      ([Char.ofNat (0x10000 + (h - 0xd800) * 0x400 + (n - 0xdc00))], none)
    else if 0xd800 ≤ n && n < 0xdc00 then ([replacement], some n)
    else ([replacement, Char.ofNat n], none)
  | none =>
    if 0xd800 ≤ n && n < 0xdc00 then ([], some n)
    else if 0xdc00 ≤ n && n < 0xe000 then ([replacement], none)
    else ([Char.ofNat n], none)

/-- The characters up to the closing quote, and the rest. A high surrogate waits for its partner. -/
def characters? : Nat → Option Nat → List Char → Option (List Char × List Char)
  | 0, _, _ => none
  | fuel + 1, high, cs =>
    let waiting : List Char := (high.map fun _ => [Char.ofNat 0xfffd]).getD []
    match cs with
    | [] => none
    | '"' :: rest => some (waiting, rest)
    | '\\' :: 'u' :: rest => do
      let (n, rest) ← unit? rest
      let (now, high) := ofUnit high n
      let (more, rest) ← characters? fuel high rest
      return (now ++ more, rest)
    | '\\' :: c :: rest => do
      let c ← escaped? c
      let (more, rest) ← characters? fuel none rest
      return (waiting ++ c :: more, rest)
    | c :: rest =>
      if c.toNat < 0x20 || c == '\\' then none
      else do
        let (more, rest) ← characters? fuel none rest
        return (waiting ++ c :: more, rest)

def string? (cs : List Char) : Option (String × List Char) :=
  (characters? (cs.length + 1) none cs).map fun (s, rest) => (String.ofList s, rest)

def isPlainDigit (c : Char) : Bool := 0x30 ≤ c.toNat && c.toNat ≤ 0x39

def ofPlainDigits (ds : List Char) : Nat := Text.ofDigits (ds.map fun c => c.toNat - 0x30)

/-- The whole part of a number, which has no needless zero in front. -/
def whole? : List Char → Option (List Char × List Char)
  | '0' :: cs => some (['0'], cs)
  | cs =>
    match cs.takeWhile isPlainDigit with
    | [] => none
    | ds => some (ds, cs.dropWhile isPlainDigit)

/-- The digits behind a point, if there is one with digits behind it. -/
def fraction? : List Char → Option (List Char × List Char)
  | '.' :: cs =>
    match cs.takeWhile isPlainDigit with
    | [] => none
    | ds => some (ds, cs.dropWhile isPlainDigit)
  | _ => none

def exponent? : List Char → Option (Int × List Char)
  | c :: cs =>
    if c == 'e' || c == 'E' then
      let (negative, cs) := Numeral.sign cs
      match cs.takeWhile isPlainDigit with
      | [] => none
      | ds =>
        let n : Int := ofPlainDigits ds
        some (if negative then -n else n, cs.dropWhile isPlainDigit)
    else none
  | [] => none

/-- A number without its sign: an integer unless it has a fraction or an exponent. -/
def number? (negative : Bool) (cs : List Char) : Option (Value × List Char) := do
  let (ds, rest) ← whole? cs
  match fraction? rest, exponent? ((fraction? rest).map (·.2) |>.getD rest) with
  | none, none =>
    let n : Int := ofPlainDigits ds
    return (.int (if negative then -n else n), rest)
  | part, power =>
    let after := (part.map (·.2)).getD rest
    let part := (part.map (·.1)).getD []
    let (power, rest) := power.getD (0, after)
    return (.float (.ofDecimal negative (ofPlainDigits (ds ++ part)) (power - part.length)), rest)

/-- The fields with the later of two equal keys in the place of the earlier one. -/
def putField (fields : List (String × Value)) (key : String) (v : Value) : List (String × Value) :=
  if fields.any (·.1 == key) then fields.map fun f => if f.1 == key then (key, v) else f
  else fields ++ [(key, v)]

mutual

def value? : Nat → List Char → Option (Value × List Char)
  | 0, _ => none
  | fuel + 1, cs =>
    match cs with
    | '"' :: rest => (string? rest).map fun (s, rest) => (.text s, rest)
    | '\x7b' :: rest =>
      match skipBlanks rest with
      | '\x7d' :: rest => some (.record [] [], rest)
      | rest => fields? fuel [] rest
    | '[' :: rest =>
      match skipBlanks rest with
      | ']' :: rest => some (.list [], rest)
      | rest => items? fuel [] rest
    | '-' :: rest =>
      match word? "Infinity".toList rest with
      | some rest => some (.float (.infinite true), rest)
      | none => number? true rest
    | _ =>
      let literals : List (String × Value) :=
        [("null", .null), ("true", .bool true), ("false", .bool false), ("NaN", .float (.nan 0)),
         ("Infinity", .float (.infinite false))]
      match literals.findSome? fun (w, v) => (word? w.toList cs).map fun rest => (v, rest) with
      | some found => some found
      | none => number? false cs

/-- The items of a list that has some, and the rest. -/
def items? : Nat → List Value → List Char → Option (Value × List Char)
  | 0, _, _ => none
  | fuel + 1, sofar, cs => do
    let (v, rest) ← value? fuel cs
    match skipBlanks rest with
    | ',' :: rest => items? fuel (sofar ++ [v]) (skipBlanks rest)
    | ']' :: rest => return (.list (sofar ++ [v]), rest)
    | _ => none

/-- The fields of a record that has some, and the rest. -/
def fields? : Nat → List (String × Value) → List Char → Option (Value × List Char)
  | 0, _, _ => none
  | fuel + 1, sofar, cs =>
    match cs with
    | '"' :: rest => do
      let (key, rest) ← string? rest
      match skipBlanks rest with
      | ':' :: rest => do
        let (v, rest) ← value? fuel (skipBlanks rest)
        let sofar := putField sofar key v
        match skipBlanks rest with
        | ',' :: rest => fields? fuel sofar (skipBlanks rest)
        | '\x7d' :: rest => return (.ofFields sofar, rest)
        | _ => none
      | _ => none
    | _ => none

end

def read? (text : String) : Option Value := do
  let cs := text.toList
  let (v, rest) ← value? (2 * cs.length + 2) (skipBlanks cs)
  if (skipBlanks rest).isEmpty then some v else none

end AccountLint.Json

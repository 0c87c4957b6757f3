import AccountLint.Value

/-! Writing JSON in ASCII. -/
namespace AccountLint.Json

def unitEscape (n : Nat) : List Char := '\\' :: 'u' :: Text.hex 4 n

/-- How a character stands in a string: what is not visible ASCII is given by its number, with two
surrogates above `U+FFFF`. -/
def escape (c : Char) : List Char :=
  let n := c.toNat
  if c == '"' || c == '\\' then ['\\', c]
  else if c == '\n' then ['\\', 'n']
  else if c == '\r' then ['\\', 'r']
  else if c == '\t' then ['\\', 't']
  else if n == 0x08 then ['\\', 'b']
  else if n == 0x0c then ['\\', 'f']
  else if 0x20 ≤ n && n < 0x7f then [c]
  else if n < 0x10000 then unitEscape n
  else
    let m := n - 0x10000
    unitEscape (0xd800 + m / 0x400) ++ unitEscape (0xdc00 + m % 0x400)

def string (s : String) : String := String.ofList ('"' :: s.toList.flatMap escape ++ ['"'])

/-- Decimals as elsewhere, with other words for what has no digits. -/
def layout : Binary64.Layout :=
  { Binary64.plain with nanText := "NaN", infiniteText := "Infinity" }

mutual

/-- The text of a value, with a blank behind every comma and colon. -/
def write : Value → String
  | .null => "null"
  | .bool b => if b then "true" else "false"
  | .int i => toString i
  | .float x => layout.write x
  | .text s => string s
  | .bytes bs => "[" ++ ", ".intercalate (bs.map fun b => toString b) ++ "]"
  | .list xs => "[" ++ ", ".intercalate (writes xs) ++ "]"
  | .record keys values => "\x7b" ++ ", ".intercalate (writeFields keys values) ++ "\x7d"

def writes : List Value → List String
  | [] => []
  | x :: xs => write x :: writes xs

def writeFields : List String → List Value → List String
  | k :: ks, x :: xs => (string k ++ ": " ++ write x) :: writeFields ks xs
  | _, _ => []

end

end AccountLint.Json

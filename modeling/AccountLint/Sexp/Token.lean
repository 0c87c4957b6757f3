import AccountLint.Text.Blank
import AccountLint.Text.Quoted

/-! Tokens of S-expressions. A text is scanned once, character by character. -/
namespace AccountLint.Sexp

/-- Why a text is no S-expression. -/
inductive ReadFault where
  /-- The text ends inside a string. -/
  | openString
  /-- The text ends behind a backslash. -/
  | openEscape
  /-- A list ends with something other than its own bracket. -/
  | openList (expected : Char) (found : Option Char)
  /-- A bracket closes nothing; the text from there on. -/
  | strayBracket (rest : String)
  /-- Nothing follows the apostrophe at a position. -/
  | bareApostrophe (position : Nat)
  /-- There is not exactly one expression. -/
  | notOne
deriving DecidableEq, Inhabited

def ReadFault.message : ReadFault → String
  | .openString => "'NoneType' object has no attribute 'start'"
  | .openEscape => "string index out of range"
  | .openList expected found =>
    "Not enough closing brackets. Expected " ++ Text.quoted expected.toString ++
      " to be the last letter in the sexp. Got: " ++
      (found.map fun c => Text.quoted c.toString).getD "None"
  | .strayBracket rest =>
    "Too many closing brackets. Expected no character left in the sexp. Got: " ++ Text.quoted rest
  | .bareApostrophe position =>
    "No s-exp is found after an apostrophe at position " ++ toString position
  | .notOne => ""

/-- A token. A closing bracket knows the text from it on, an apostrophe its position, an atom the
position behind it, and a fault of the scan ends the tokens. -/
inductive Token where
  | opening (c : Char)
  | closing (c : Char) (rest : List Char)
  | apostrophe (position : Nat)
  | string (text : String)
  | atom (text : String) (behind : Nat)
  | fault (f : ReadFault)
deriving DecidableEq, Inhabited

/-- Where a scan stands; the characters of the token so far are in reverse. -/
inductive Mode where
  | between
  | comment
  | string (sofar : List Char) (escape : Bool)
  | atom (sofar : List Char) (escape : Bool)

def isOpening (c : Char) : Bool := c == '(' || c == '['

def isClosing (c : Char) : Bool := c == ')' || c == ']'

def endsAtom (c : Char) : Bool :=
  Text.isSpace c || isOpening c || isClosing c || c == '"' || c == ';'

/-- What an escaped character of a string stands for, in reverse. -/
def stringEscape (c : Char) : List Char :=
  if c == '\\' || c == '"' then [c]
  else if c == 'b' then [Char.ofNat 0x08]
  else if c == 'f' then [Char.ofNat 0x0c]
  else if c == 'n' then ['\n']
  else if c == 'r' then ['\r']
  else if c == 't' then ['\t']
  else [c, '\\']

/-- The characters that a backslash in an atom makes ordinary. -/
def isEscapable (c : Char) : Bool :=
  ['\\', '\'', '\x60', '"', '(', ')', '[', ']', ' ', ',', '?', ';', '#'].contains c

/-- What an escaped character of an atom stands for, in reverse. -/
def atomEscape (c : Char) : List Char := if isEscapable c then [c] else [c, '\\']

/-- The token and the mode that a character between tokens begins. -/
def begin (position : Nat) (c : Char) (rest : List Char) : List Token × Mode :=
  if Text.isSpace c then ([], .between)
  else if c == ';' then ([], .comment)
  else if c == '"' then ([], .string [] false)
  else if c == '\'' then ([.apostrophe position], .between)
  else if isOpening c then ([.opening c], .between)
  else if isClosing c then ([.closing c (c :: rest)], .between)
  else if c == '\\' then ([], .atom [] true)
  else ([], .atom [c] false)

def ofReversed (cs : List Char) : String := String.ofList cs.reverse

/-- The tokens of a text, from a position and a mode on. -/
def scan : Mode → Nat → List Char → List Token
  | .between, _, [] | .comment, _, [] => []
  | .string _ false, _, [] => [.fault .openString]
  | .string _ true, _, [] | .atom _ true, _, [] => [.fault .openEscape]
  | .atom sofar false, n, [] => [.atom (ofReversed sofar) n]
  | .between, n, c :: cs =>
    let (tokens, mode) := begin n c cs
    tokens ++ scan mode (n + 1) cs
  | .comment, n, c :: cs => scan (if c == '\n' then .between else .comment) (n + 1) cs
  | .string sofar true, n, c :: cs => scan (.string (stringEscape c ++ sofar) false) (n + 1) cs
  | .string sofar false, n, c :: cs =>
    if c == '"' then .string (ofReversed sofar) :: scan .between (n + 1) cs
    else if c == '\\' then scan (.string sofar true) (n + 1) cs
    else scan (.string (c :: sofar) false) (n + 1) cs
  | .atom sofar true, n, c :: cs => scan (.atom (atomEscape c ++ sofar) false) (n + 1) cs
  | .atom sofar false, n, c :: cs =>
    if endsAtom c then
      let (tokens, mode) := begin n c cs
      .atom (ofReversed sofar) n :: tokens ++ scan mode (n + 1) cs
    else if c == '\\' then scan (.atom sofar true) (n + 1) cs
    else scan (.atom (c :: sofar) false) (n + 1) cs

def tokens (text : String) : List Token := scan .between 0 text.toList

end AccountLint.Sexp

import AccountLint.Decimal.Numeral
import AccountLint.Sexp.Basic
import AccountLint.Sexp.Token

/-! Reading S-expressions: the tokens are taken one by one onto a stack of open lists. -/
namespace AccountLint.Sexp

/-- What an unfinished sequence of expressions belongs to. -/
inductive Opener where
  | paren
  | bracket
  | apostrophe (position : Nat)
deriving DecidableEq, Inhabited

/-- The expressions read so far, innermost sequence first. Every sequence is in reverse, and each
one but the outermost knows what it belongs to. -/
structure Stack where
  current : List Sexp
  outer : List (Opener × List Sexp)

/-- An atom is an integer or a decimal if it reads as one, and a symbol otherwise. What is no number
is told apart by the position behind it. -/
def ofAtom (text : String) (behind : Nat) : Sexp :=
  match Numeral.int? text.toList with
  | some i => .int i
  | none =>
    match Numeral.float? text.toList with
    | some x => .float (x.withPayload behind)
    | none => .symbol text

/-- Ends the quotations that are open at the top: a quotation takes the first expression behind
its apostrophe, and the others follow it. -/
def endQuotes (current : List Sexp) : List (Opener × List Sexp) → Except ReadFault Stack
  | (.apostrophe position, parent) :: outer =>
    match current.reverse with
    | [] => .error (.bareApostrophe position)
    | x :: rest => endQuotes (rest.reverse ++ .quoted x :: parent) outer
  | outer => .ok ⟨current, outer⟩

/-- The list that ends with a bracket becomes an item of the one around it. -/
def endList (c : Char) (rest : List Char) (s : Stack) : Except ReadFault Stack :=
  match s.outer with
  | [] => .error (.strayBracket (String.ofList rest))
  | (.paren, parent) :: outer =>
    if c == ')' then .ok ⟨.list s.current.reverse :: parent, outer⟩
    else .error (.openList ')' (some c))
  | (.bracket, parent) :: outer =>
    if c == ']' then .ok ⟨.brackets s.current.reverse :: parent, outer⟩
    else .error (.openList ']' (some c))
  | (.apostrophe position, _) :: _ => .error (.bareApostrophe position)

def take (s : Stack) : Token → Except ReadFault Stack
  | .opening c => .ok ⟨[], (if c == '(' then .paren else .bracket, s.current) :: s.outer⟩
  | .closing c rest => do endList c rest (← endQuotes s.current s.outer)
  | .apostrophe position => .ok ⟨[], (.apostrophe position, s.current) :: s.outer⟩
  | .string text => .ok { s with current := .string text :: s.current }
  | .atom text behind => .ok { s with current := ofAtom text behind :: s.current }
  | .fault f => .error f

/-- The one expression that is left when all tokens are taken. -/
def finish (s : Stack) : Except ReadFault Sexp := do
  let s ← endQuotes s.current s.outer
  match s.outer with
  | (.paren, _) :: _ => .error (.openList ')' none)
  | (.bracket, _) :: _ => .error (.openList ']' none)
  | (.apostrophe position, _) :: _ => .error (.bareApostrophe position)
  | [] =>
    match s.current with
    | [x] => .ok x
    | _ => .error .notOne

def read (text : String) : Except ReadFault Sexp := do
  finish (← (tokens text).foldlM take ⟨[], []⟩)

end AccountLint.Sexp

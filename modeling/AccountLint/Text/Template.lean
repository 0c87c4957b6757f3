import AccountLint.Decimal.Written
import AccountLint.Value

/-! Templates: texts with fields in braces. A field has a name, which may select a part of the
value; then perhaps a conversion behind an exclamation mark; then perhaps a layout behind a colon,
which may have fields of its own. -/
namespace AccountLint.Template

/-- A part of a template. What is not well formed ends the parts, and counts only when the parts in
front of it have been filled in. -/
inductive Piece where
  | literal (c : Char)
  | field (name : List Char) (conversion : Option Char) (layout : List Char)
  | malformed
deriving DecidableEq, Inhabited

/-- Where the reading of a template stands; names and layouts so far are in reverse. -/
inductive Mode where
  | text
  | closing
  | name (sofar : List Char)
  | selection (sofar : List Char)
  | conversion (name : List Char)
  | converted (name : List Char) (conversion : Char)
  | layout (name : List Char) (conversion : Option Char) (depth : Nat) (sofar : List Char)

/-- The parts of a template, from a mode on. A brace that is text is written twice; braces, colons
and exclamation marks between brackets belong to the name. -/
def pieces : Mode → List Char → List Piece
  | .text, [] => []
  | _, [] => [.malformed]
  | .text, c :: cs =>
    if c == '\x7b' then pieces (.name []) cs
    else if c == '\x7d' then pieces .closing cs
    else .literal c :: pieces .text cs
  | .closing, c :: cs => if c == '\x7d' then .literal c :: pieces .text cs else [.malformed]
  | .name sofar, c :: cs =>
    if c == '\x7b' then
      if sofar.isEmpty then .literal c :: pieces .text cs else [.malformed]
    else if c == '\x7d' then .field sofar.reverse none [] :: pieces .text cs
    else if c == ':' then pieces (.layout sofar.reverse none 0 []) cs
    else if c == '!' then pieces (.conversion sofar.reverse) cs
    else if c == '[' then pieces (.selection (c :: sofar)) cs
    else pieces (.name (c :: sofar)) cs
  | .selection sofar, c :: cs =>
    if c == ']' then pieces (.name (c :: sofar)) cs else pieces (.selection (c :: sofar)) cs
  | .conversion name, c :: cs => pieces (.converted name c) cs
  | .converted name conversion, c :: cs =>
    if c == '\x7d' then .field name (some conversion) [] :: pieces .text cs
    else if c == ':' then pieces (.layout name (some conversion) 0 []) cs
    else [.malformed]
  | .layout name conversion depth sofar, c :: cs =>
    if c == '\x7b' then pieces (.layout name conversion (depth + 1) (c :: sofar)) cs
    else if c == '\x7d' then
      match depth with
      | 0 => .field name conversion sofar.reverse :: pieces .text cs
      | depth + 1 => pieces (.layout name conversion depth (c :: sofar)) cs
    else pieces (.layout name conversion depth (c :: sofar)) cs

def position? (cs : List Char) : Except Fault (Option Nat) :=
  match Text.leadingNumber? cs with
  | none => .error .parts
  | some (n, []) => .ok n
  | some (_, _ :: _) => .ok none

/-- What a selection between brackets stands for: texts have characters at their positions, and
other values have nothing. -/
def select (v : Value) (selection : List Char) : Except Fault Value := do
  let position ← position? selection
  if selection.isEmpty then throw .parts
  match v, position with
  | .text s, some n =>
    match s.toList[n]? with
    | some c => return .text c.toString
    | none => throw .bounds
  | _, _ => throw .shape

def intPart? (i : Int) (name : String) : Option Value :=
  if name == "real" || name == "numerator" then some (.int i)
  else if name == "imag" then some (.int 0)
  else if name == "denominator" then some (.int 1)
  else none

/-- The part of a value with a name: numbers have a real and an imaginary part, integers also a
numerator and a denominator. -/
def part? (v : Value) (name : String) : Option Value :=
  match v with
  | .bool b => intPart? (if b then 1 else 0) name
  | .int i => intPart? i name
  | .float x =>
    if name == "real" then some (.float x)
    else if name == "imag" then some (.float (.zero false))
    else none
  | _ => none

def inName (c : Char) : Bool := c != '.' && c != '['

/-- What the end of a name selects from a value, one selection after the other. -/
def selectAll (v : Value) : List Char → Except Fault Value
  | [] => .ok v
  | '.' :: cs =>
    let name := cs.takeWhile inName
    if name.isEmpty then .error .parts
    else
      match part? v (String.ofList name) with
      | some w => selectAll w (cs.dropWhile inName)
      | none => .error .notText
  | '[' :: cs =>
    match _h : cs.dropWhile (· != ']') with
    | [] => .error .parts
    | _ :: rest => do selectAll (← select v (cs.takeWhile (· != ']'))) rest
  | _ :: _ => .error .parts
termination_by cs => cs.length
decreasing_by
  · have h := (List.dropWhile_suffix inName (l := cs)).length_le
    simp only [List.length_cons]
    omega
  · have h := (List.dropWhile_suffix (· != ']') (l := cs)).length_le
    rw [_h] at h
    simp only [List.length_cons] at h ⊢
    omega

/-- The value of a name. A name that has no value stands for itself in braces; one that is empty or
spells a position has no meaning. -/
def resolve (values : List (String × Value)) (name : List Char) : Except Fault Value := do
  let key := name.takeWhile inName
  if key.isEmpty || (← position? key).isSome then throw .parts
  let key := String.ofList key
  selectAll ((values.lookup key).getD (.text ("\x7b" ++ key ++ "\x7d"))) (name.dropWhile inName)

/-- What a conversion makes of a value: its text, its text as in messages, or that in ASCII. -/
def convert (conversion : Option Char) (v : Value) : Except Fault Value :=
  match conversion with
  | none => .ok v
  | some 's' => .ok (.text v.display)
  | some 'r' => .ok (.text v.repr)
  | some 'a' => .ok (.text (Text.asciiOnly v.repr))
  | some _ => .error .parts

/-- The text of a value in a layout that is not empty. Only texts and numbers have one. -/
def layOutIn (v : Value) (layout : Option Text.Layout) : Except Fault String :=
  match v, layout with
  | .text s, some l =>
    match l.applyText? s with
    | some t => .ok t
    | none => .error .parts
  | .bool b, some l => layOutInt l (if b then 1 else 0)
  | .int i, some l => layOutInt l i
  | .float x, some l => Binary64.layOut l x
  | .text _, none | .bool _, none | .int _, none | .float _, none => .error .parts
  | _, _ => .error .shape

/-- The text of a value in a layout as it is written; an empty one is fit for every value. -/
def layOut (v : Value) (layout : List Char) : Except Fault String :=
  if layout.isEmpty then .ok v.display else layOutIn v (Text.Layout.ofText? layout)

/-- The text of a part, where fields inside a layout are filled in first. -/
def Piece.fill (values : List (String × Value)) (inner : List Char → Except Fault String) :
    Piece → Except Fault String
  | .literal c => .ok c.toString
  | .malformed => .error .parts
  | .field name conversion layout => do
    let v ← convert conversion (← resolve values name)
    let layout ← if layout.contains '\x7b' then inner layout else pure (String.ofList layout)
    layOut v layout.toList

def fillWithin (values : List (String × Value)) : Nat → List Char → Except Fault String
  | 0, _ => .error .parts
  | depth + 1, cs => do
    return String.join (← (pieces .text cs).mapM (Piece.fill values (fillWithin values depth)))

/-- The text of a template. A layout may have fields, but not fields whose layouts have fields. -/
def fill (values : List (String × Value)) (template : String) : Except Fault String :=
  fillWithin values 2 template.toList

end AccountLint.Template

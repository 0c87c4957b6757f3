import AccountLint.Document.Load

/-! Files: bytes that may be missing, and the text in them. -/
namespace AccountLint

/-- A file at a path, or its absence. -/
structure Source where
  path : String
  bytes : Option ByteArray

/-- The text with every line ended by a line feed. -/
def unixLines : List Char → List Char
  | [] => []
  | '\r' :: '\n' :: cs => '\n' :: unixLines cs
  | '\r' :: cs => '\n' :: unixLines cs
  | c :: cs => c :: unixLines cs

/-- The text in some bytes, which have to be well formed. -/
def decode (bytes : ByteArray) : Except Fault String :=
  match String.fromUTF8? bytes with
  | some s => .ok (String.ofList (unixLines s.toList))
  | none => .error .encoding

def Source.program (s : Source) : Except Fault Program :=
  match s.bytes with
  | none => .error (.load (.unreadable s.path))
  | some bytes => do Document.load (← decode bytes)

end AccountLint

/-! Qualified names: segments parted by `::`, perhaps with generic arguments behind them. -/
namespace AccountLint.Text

/-- The pieces between the `::` of a list of characters, read from the left. -/
def splitColons : List Char → List (List Char)
  | [] => [[]]
  | ':' :: ':' :: cs => [] :: splitColons cs
  | c :: cs =>
    match splitColons cs with
    | [] => [[c]]
    | s :: ss => (c :: s) :: ss

def segmentsFromEnd (name : String) : List String :=
  (splitColons name.toList.reverse).map fun s => String.ofList s.reverse

def isQualified (name : String) : Bool := 1 < (splitColons name.toList.reverse).length

def lastSegment (name : String) : String := (segmentsFromEnd name).headD ""

/-- The segment before the last one, and nothing for a name of one segment. -/
def qualifier (name : String) : String := ((segmentsFromEnd name).drop 1).headD ""

/-- A name up to its first `<`. -/
def withoutGenerics (name : String) : String := String.ofList (name.toList.takeWhile (· != '<'))

/-- A pattern and a name agree on their trailing segments: apart from generic arguments of the name
they are equal, or the shorter of the two, after a `::`, ends the longer one. -/
def nameMatches (pattern name : String) : Bool :=
  if name.isEmpty then false
  else
    let name := withoutGenerics name
    if name == pattern then true
    else if name.length < pattern.length then
      (':' :: ':' :: name.toList).isSuffixOf pattern.toList
    else
      (':' :: ':' :: pattern.toList).isSuffixOf name.toList

/-- Like `nameMatches`, but `Type::method` also agrees with the pattern of a trait's method. -/
def methodMatches (pattern name : String) : Bool :=
  nameMatches pattern name ||
    (isQualified name && lastSegment name == lastSegment pattern)

end AccountLint.Text

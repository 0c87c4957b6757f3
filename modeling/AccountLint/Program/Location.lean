/-! Places in source files. -/
namespace AccountLint

structure Location where
  file : String := ""
  line : Int := 0
  column : Int := 0
deriving DecidableEq, Inhabited

/-- The text of a place, without a column that is zero. -/
def Location.display (l : Location) : String :=
  let place := l.file ++ ":" ++ toString l.line
  if l.column = 0 then place else place ++ ":" ++ toString l.column

/-- The order of places: by file, line and column. -/
def Location.cmp (a b : Location) : Ordering :=
  (compare a.file b.file).then ((compare a.line b.line).then (compare a.column b.column))

end AccountLint

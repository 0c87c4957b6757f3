import AccountLint.Value

/-! S-expressions as they are written, and the plain values among them. -/
namespace AccountLint

inductive Sexp where
  | symbol (name : String)
  | string (text : String)
  | int (i : Int)
  | float (x : Binary64)
  | list (items : List Sexp)
  | brackets (items : List Sexp)
  | quoted (item : Sexp)
deriving Inhabited

namespace Sexp

mutual

def repr : Sexp → String
  | .symbol name => "Symbol(" ++ Text.quoted name ++ ")"
  | .string text => Text.quoted text
  | .int i => toString i
  | .float x => Binary64.plain.write x
  | .list items => "[" ++ ", ".intercalate (reprs items) ++ "]"
  | .brackets items => "Brackets(I=[" ++ ", ".intercalate (reprs items) ++ "])"
  | .quoted item => "Quoted(" ++ repr item ++ ")"

def reprs : List Sexp → List String
  | [] => []
  | x :: xs => repr x :: reprs xs

end

mutual

/-- The value of an S-expression: symbols and strings are texts. Brackets and quotes have no value;
the first of them is the error. -/
def value : Sexp → Except Sexp Value
  | .symbol name => .ok (.text name)
  | .string text => .ok (.text text)
  | .int i => .ok (.int i)
  | .float x => .ok (.float x)
  | .list items => (values items).map Value.list
  | .brackets items => .error (.brackets items)
  | .quoted item => .error (.quoted item)

def values : List Sexp → Except Sexp (List Value)
  | [] => .ok []
  | x :: xs => do
    let v ← value x
    let vs ← values xs
    return v :: vs

end

end Sexp
end AccountLint

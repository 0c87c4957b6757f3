import AccountLint.Decimal.Shortest
import AccountLint.Sorting
import AccountLint.Text.Quoted

/-! Values of documents, literals and configurations, their text and their equality. -/
namespace AccountLint

/-- A value. A record has its keys and, in the same order, their values. -/
inductive Value where
  | null
  | bool (b : Bool)
  | int (i : Int)
  | float (x : Binary64)
  | text (s : String)
  | bytes (bs : List Nat)
  | list (xs : List Value)
  | record (keys : List String) (values : List Value)
deriving Inhabited

namespace Value

mutual

def decEq : (a b : Value) → Decidable (a = b)
  | .null, .null => isTrue rfl
  | .bool a, .bool b => if h : a = b then isTrue (h ▸ rfl) else isFalse (by simp [h])
  | .int a, .int b => if h : a = b then isTrue (h ▸ rfl) else isFalse (by simp [h])
  | .float a, .float b => if h : a = b then isTrue (h ▸ rfl) else isFalse (by simp [h])
  | .text a, .text b => if h : a = b then isTrue (h ▸ rfl) else isFalse (by simp [h])
  | .bytes a, .bytes b => if h : a = b then isTrue (h ▸ rfl) else isFalse (by simp [h])
  | .list a, .list b =>
    match decEqList a b with
    | isTrue h => isTrue (h ▸ rfl)
    | isFalse h => isFalse (by simp [h])
  | .record k a, .record l b =>
    if hk : k = l then
      match decEqList a b with
      | isTrue h => isTrue (by rw [hk, h])
      | isFalse h => isFalse (by simp [h])
    else isFalse (by simp [hk])
  | .null, .bool _ | .null, .int _ | .null, .float _ | .null, .text _ | .null, .bytes _
  | .null, .list _ | .null, .record .. => isFalse (by simp)
  | .bool _, .null | .bool _, .int _ | .bool _, .float _ | .bool _, .text _ | .bool _, .bytes _
  | .bool _, .list _ | .bool _, .record .. => isFalse (by simp)
  | .int _, .null | .int _, .bool _ | .int _, .float _ | .int _, .text _ | .int _, .bytes _
  | .int _, .list _ | .int _, .record .. => isFalse (by simp)
  | .float _, .null | .float _, .bool _ | .float _, .int _ | .float _, .text _
  | .float _, .bytes _ | .float _, .list _ | .float _, .record .. => isFalse (by simp)
  | .text _, .null | .text _, .bool _ | .text _, .int _ | .text _, .float _ | .text _, .bytes _
  | .text _, .list _ | .text _, .record .. => isFalse (by simp)
  | .bytes _, .null | .bytes _, .bool _ | .bytes _, .int _ | .bytes _, .float _
  | .bytes _, .text _ | .bytes _, .list _ | .bytes _, .record .. => isFalse (by simp)
  | .list _, .null | .list _, .bool _ | .list _, .int _ | .list _, .float _ | .list _, .text _
  | .list _, .bytes _ | .list _, .record .. => isFalse (by simp)
  | .record .., .null | .record .., .bool _ | .record .., .int _ | .record .., .float _
  | .record .., .text _ | .record .., .bytes _ | .record .., .list _ => isFalse (by simp)

def decEqList : (a b : List Value) → Decidable (a = b)
  | [], [] => isTrue rfl
  | [], _ :: _ | _ :: _, [] => isFalse (by simp)
  | x :: xs, y :: ys =>
    match decEq x y, decEqList xs ys with
    | isTrue h, isTrue t => isTrue (by rw [h, t])
    | isFalse h, _ => isFalse (by simp [h])
    | _, isFalse t => isFalse (by simp [t])

end

instance : DecidableEq Value := decEq

def ofFields (fields : List (String × Value)) : Value :=
  .record (fields.map (·.1)) (fields.map (·.2))

def field? (key : String) : Value → Option Value
  | .record keys values => (keys.zip values).lookup key
  | _ => none

/-- Two hexadecimal digits, or the character itself, for a byte between quotes. -/
def shownByte (quote : Char) (b : Nat) : List Char :=
  if b < 0x80 then Text.shown quote (Char.ofNat b) else '\\' :: 'x' :: Text.hex 2 b

mutual

def repr : Value → String
  | .null => "None"
  | .bool b => if b then "True" else "False"
  | .int i => toString i
  | .float x => Binary64.plain.write x
  | .text s => Text.quoted s
  | .bytes bs =>
    let q := Text.quoteFor (bs.map Char.ofNat)
    "b" ++ String.ofList (q :: bs.flatMap (shownByte q) ++ [q])
  | .list xs => "[" ++ ", ".intercalate (reprs xs) ++ "]"
  | .record keys values => "\x7b" ++ ", ".intercalate (reprFields keys values) ++ "\x7d"

def reprs : List Value → List String
  | [] => []
  | x :: xs => repr x :: reprs xs

def reprFields : List String → List Value → List String
  | k :: ks, x :: xs => (Text.quoted k ++ ": " ++ repr x) :: reprFields ks xs
  | _, _ => []

end

/-- The text of a value in running text: a text stands for itself. -/
def display : Value → String
  | .text s => s
  | v => repr v

mutual

/-- The value with its whole numbers as integers, so that equal numbers look alike. -/
def key : Value → Value
  | .bool b => .int (if b then 1 else 0)
  | .float x => (x.toInt?.map Value.int).getD (.float x)
  | .list xs => .list (keyList xs)
  | .record keys values => .record keys (keyList values)
  | v => v

def keyList : List Value → List Value
  | [] => []
  | x :: xs => key x :: keyList xs

end

/-- Equality as documents have it: numbers by value, and what is no number equals only the same
occurrence of it. -/
def same (a b : Value) : Bool := key a == key b

/-- Whether a value may be a member of a set or a key: lists and records may not. -/
def isKey : Value → Bool
  | .list _ | .record .. => false
  | _ => true

/-- Whether a value counts as something: nothing, false, zero and what is empty do not. -/
def isTruthy : Value → Bool
  | .null => false
  | .bool b => b
  | .int i => i != 0
  | .float x => x.toInt? != some 0
  | .text s => s != ""
  | .bytes bs => !bs.isEmpty
  | .list xs => !xs.isEmpty
  | .record keys _ => !keys.isEmpty

def text? : Value → Option String
  | .text s => some s
  | _ => none

def int? : Value → Option Int
  | .int i => some i
  | _ => none

def distinctValues (xs : List Value) : List Value := distinctBy same xs

end Value
end AccountLint

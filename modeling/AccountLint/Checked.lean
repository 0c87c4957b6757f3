import AccountLint.Fault

/-! Passing through lists with steps that may fail. Entries behind the one that decides are not
looked at, so that their faults do not count. -/
namespace AccountLint

variable {α β : Type}

def firstM (step : α → Except Fault (Option β)) : List α → Except Fault (Option β)
  | [] => .ok none
  | x :: xs => do
    match ← step x with
    | some b => return some b
    | none => firstM step xs

def anyM (test : α → Except Fault Bool) : List α → Except Fault Bool
  | [] => .ok false
  | x :: xs => do if ← test x then return true else anyM test xs

def collectM (step : α → Except Fault (Option β)) : List α → Except Fault (List β)
  | [] => .ok []
  | x :: xs => do
    let head ← step x
    let rest ← collectM step xs
    return head.toList ++ rest

/-- The results of a step with many results, one after the other. -/
def concatM (step : α → Except Fault (List β)) : List α → Except Fault (List β)
  | [] => .ok []
  | x :: xs => do
    let head ← step x
    let rest ← concatM step xs
    return head ++ rest

/-- All pairs of an entry and a later one. -/
def pairs : List α → List (α × α)
  | [] => []
  | x :: xs => xs.map (fun y => (x, y)) ++ pairs xs

end AccountLint

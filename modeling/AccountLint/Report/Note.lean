import AccountLint.Fault

/-! Notes: what a run says besides its findings. -/
namespace AccountLint

inductive Level where
  | debug
  | info
  | warning
  | error
  | critical
deriving DecidableEq, Inhabited

namespace Level

/-- The levels from low to high. -/
def all : List Level := [.debug, .info, .warning, .error, .critical]

def rank : Level → Nat
  | .debug => 10
  | .info => 20
  | .warning => 30
  | .error => 40
  | .critical => 50

def word : Level → String
  | .debug => "DEBUG"
  | .info => "INFO"
  | .warning => "WARNING"
  | .error => "ERROR"
  | .critical => "CRITICAL"

def ofWord? (s : String) : Option Level := all.find? fun l => l.word == s

end Level

inductive Note where
  | replacedRule (category : Category)
  | noRule (category : Category)
  | notModeled (function : String)
  | rejected (function : String) (cause : Fault)
  | analysed (functions diagnostics : Nat)

namespace Note

def level : Note → Level
  | .analysed .. => .info
  | _ => .warning

def channel : Note → String
  | .replacedRule _ => "sealevel_lints.rules"
  | .noRule _ => "sealevel_lints.config"
  | .notModeled _ | .rejected .. | .analysed .. => "sealevel_lints.checkers"

def message : Note → String
  | .replacedRule c => "replacing rule for category " ++ c.id
  | .noRule c => "category " ++ c.id ++ " is enabled but has no registered rule"
  | .notModeled f => "skipping " ++ f ++ ": body was not modeled"
  | .rejected f cause => "skipping " ++ f ++ ": " ++ (cause.message?.getD "")
  | .analysed functions diagnostics =>
    "analysed " ++ toString functions ++ " function(s): " ++ toString diagnostics ++
      " diagnostic(s)"

end Note

/-- A log: the level from which notes are written, and whether they are written at all. -/
structure Log where
  level : Level := .warning
  attached : Bool := false
deriving DecidableEq, Inhabited

namespace Log

/-- The channel that all notes are under. -/
def root : String := "sealevel_lints"

/-- A log for a degree of verbosity: warnings only, information as well, or everything. -/
def ofVerbosity (verbosity : Int) : Log :=
  { level := if verbosity > 1 then .debug else if verbosity = 1 then .info else .warning,
    attached := true }

/-- Whether a channel is under the root. -/
def covers (channel : String) : Bool := channel == root || channel.startsWith (root ++ ".")

def lines (log : Log) (channel : String) (level : Level) (message : String) : List String :=
  if log.attached && covers channel && log.level.rank ≤ level.rank then
    (level.word ++ " " ++ channel ++ ": " ++ message).splitOn "\n"
  else []

def noteLines (log : Log) (notes : List Note) : List String :=
  notes.flatMap fun n => log.lines n.channel n.level n.message

end Log
end AccountLint

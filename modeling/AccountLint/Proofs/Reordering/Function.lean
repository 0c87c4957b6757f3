import AccountLint.Proofs.Program.Behind
import AccountLint.Verdict.Declarations
import AccountLint.Verdict.Function
import AccountLint.Verdict.Types

/-! What is said about a function does not depend on the other functions: of a program, the rules
read only the table of types. -/
namespace AccountLint

def Program.withFunctions (p : Program) (functions : List Function) : Program :=
  { p with functions := functions }

def Facts.withFunctions (f : Facts) (functions : List Function) : Facts :=
  { f with program := f.program.withFunctions functions }

variable {functions : List Function}

private theorem Program.unwrap_withFunctions (p : Program) :
    (p.withFunctions functions).unwrap = p.unwrap := by
  funext wrappers type
  refine unwrapFrom_congr (fun i => ?_) wrappers [] type
  rfl

namespace SinkPattern

variable (s : SinkPattern) (f : Facts)

private theorem typedCallSink_withFunctions :
    s.typedCallSink (f.withFunctions functions) = s.typedCallSink f := by
  have hname : resultName (f.withFunctions functions) = resultName f := by
    funext e
    unfold resultName
    rw [show (f.withFunctions functions).program.unwrap = f.program.unwrap from
      f.program.unwrap_withFunctions]
    rfl
  unfold typedCallSink
  rw [hname]

private theorem deserializeSink_withFunctions :
    s.deserializeSink (f.withFunctions functions) = s.deserializeSink f := by
  unfold deserializeSink
  rw [show (f.withFunctions functions).program.unwrap = f.program.unwrap from
    f.program.unwrap_withFunctions]
  rfl

/-- A pattern finds the same in a function, whatever the other functions are. -/
theorem candidates_withFunctions (c : Category) :
    s.candidates (f.withFunctions functions) c = s.candidates f c := by
  unfold candidates
  rw [s.typedCallSink_withFunctions f, s.deserializeSink_withFunctions f]
  rfl

end SinkPattern

private theorem Rule.sinksIn_withFunctions (r : Rule) (f : Facts) :
    r.sinksIn (f.withFunctions functions) = r.sinksIn f := by
  unfold sinksIn
  simp only [SinkPattern.candidates_withFunctions]
  rfl

namespace FunctionReport

private theorem extend_withFunctions (report : FunctionReport) (f : Facts) (r : Rule) :
    report.extend (f.withFunctions functions) r = report.extend f r := by
  unfold extend
  rw [r.sinksIn_withFunctions f]
  rfl

private theorem ofBody_withFunctions (p : Program) (rules : List Rule) (f : Function) :
    ofBody (p.withFunctions functions) rules f = ofBody p rules f := by
  unfold ofBody Facts.build
  simp only [bind_assoc, pure_bind]
  refine bind_congr fun _ => bind_congr fun _ => bind_congr fun located => bind_congr fun aliases => ?_
  have hextend : (fun report r => extend report
      (Facts.withFunctions ⟨p, f, aliases, located⟩ functions) r) =
        fun report r => report.extend ⟨p, f, aliases, located⟩ r := by
    funext report r
    exact report.extend_withFunctions ⟨p, f, aliases, located⟩ r
  exact congrArg (fun step => rules.foldlM step { function := f.name }) hextend

/-- The report on a function is the same, whatever the other functions are. -/
theorem ofFunction_withFunctions (p : Program) (rules : List Rule) (f : Function) :
    ofFunction (p.withFunctions functions) rules f = ofFunction p rules f := by
  unfold ofFunction
  rw [ofBody_withFunctions]

end FunctionReport

end AccountLint

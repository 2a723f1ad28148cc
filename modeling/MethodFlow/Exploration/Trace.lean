import MethodFlow.Code.Opcode
import MethodFlow.Exploration.ForkGuard
import MethodFlow.Sorted.Set

/-! What an exploration leaves behind about itself: which offsets it reached, how often it branched
and how its paths ended. Single steps are kept only if asked for. -/
namespace MethodFlow

structure TraceStep where
  offset : Nat
  opcode : Opcode
  stackDepth : Nat
  forkDepth : Nat
  deriving DecidableEq

structure TraceMetrics where
  instructions : Nat
  uniqueOpcodes : List Opcode
  backEdges : Nat
  switchCases : Nat
  terminalStates : Nat
  unsupportedPaths : Nat
  deadPaths : Nat
  forks : ForkMetrics
  deriving DecidableEq

structure Trace where
  steps : List TraceStep
  coverage : List Nat
  metrics : TraceMetrics
  deriving DecidableEq

structure Recorder where
  recordSteps : Bool
  steps : Array TraceStep
  coverage : SortedSet Nat
  instructions : Nat
  opcodes : SortedSet Opcode
  backEdges : Nat
  switchCases : Nat
  terminalStates : Nat
  unsupportedPaths : Nat
  deadPaths : Nat

namespace Recorder

def new (recordSteps : Bool) : Recorder :=
  ⟨recordSteps, #[], .empty, 0, .empty, 0, 0, 0, 0, 0⟩

def instruction (recorder : Recorder) (step : TraceStep) : Recorder :=
  { recorder with
    instructions := recorder.instructions + 1
    opcodes := recorder.opcodes.insert step.opcode
    coverage := recorder.coverage.insert step.offset
    steps := if recorder.recordSteps then recorder.steps.push step else recorder.steps }

def backEdge (recorder : Recorder) : Recorder :=
  { recorder with backEdges := recorder.backEdges + 1 }

def switchCase (recorder : Recorder) : Recorder :=
  { recorder with switchCases := recorder.switchCases + 1 }

def terminal (recorder : Recorder) : Recorder :=
  { recorder with terminalStates := recorder.terminalStates + 1 }

def unsupported (recorder : Recorder) : Recorder :=
  { recorder with unsupportedPaths := recorder.unsupportedPaths + 1 }

def deadPath (recorder : Recorder) : Recorder :=
  { recorder with deadPaths := recorder.deadPaths + 1 }

def finish (recorder : Recorder) (forks : ForkMetrics) : Trace where
  steps := recorder.steps.toList
  coverage := recorder.coverage.toList
  metrics :=
    { instructions := recorder.instructions
      uniqueOpcodes := recorder.opcodes.toList
      backEdges := recorder.backEdges
      switchCases := recorder.switchCases
      terminalStates := recorder.terminalStates
      unsupportedPaths := recorder.unsupportedPaths
      deadPaths := recorder.deadPaths
      forks := forks }

end Recorder

end MethodFlow

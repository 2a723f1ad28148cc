import MethodFlow.Code.Instruction
import MethodFlow.Domain

/-! Machine states as an exploration sees them: a transition for every instruction that falls
through, tests that record which outcomes of a branch are possible, the policy consulted after a
test, and the join of two states. -/
namespace MethodFlow

inductive WorldError
  | stack (error : StackError)
  | value (error : ValueError)
  | stackShape (left right : Nat)
  deriving DecidableEq

namespace WorldError

def message : WorldError → String
  | stack error => error.message
  | value error => error.message
  | stackShape left right => s!"cannot join stacks of depth {left} and {right}"

end WorldError

/-- A change of state that may fail on the way; a failure leaves the state reached so far. -/
abbrev Transition (W : Type) := EStateM WorldError W

class World (W : Type) where
  perform : Effect → Transition W Unit
  evaluateBranch : BranchTest → Transition W Unit
  evaluateSwitch : Transition W Unit
  enterSubroutine : Nat → Transition W Unit
  exitSubroutine : Nat → Transition W Unit
  terminate : Terminal → Transition W Unit
  /-- A backward branch may be followed although it need not be taken. -/
  loopingValid : W → Bool
  allBranches : W → Bool
  /-- The branch is taken if only one outcome is explored. -/
  shouldTake : W → Bool
  takenFeasible : W → Bool
  passedFeasible : W → Bool
  /-- Values of the last switch's selector, if not every case is to be explored. -/
  switchCandidates : W → List Int
  combine : W → W → Except WorldError W
  stackDepth : W → Nat

/-- The state that holds nothing. It asks for every branch, so its exploration follows pure control
flow, and its join keeps the first state. -/
structure Blank where
  deriving DecidableEq

instance : World Blank where
  perform _ := pure ()
  evaluateBranch _ := pure ()
  evaluateSwitch := pure ()
  enterSubroutine _ := pure ()
  exitSubroutine _ := pure ()
  terminate _ := pure ()
  loopingValid _ := false
  allBranches _ := true
  shouldTake _ := false
  takenFeasible _ := true
  passedFeasible _ := true
  switchCandidates _ := []
  combine first _ := .ok first
  stackDepth _ := 0

end MethodFlow

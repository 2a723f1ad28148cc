import MethodFlow.Frame.Transition

/-! The join of two frames. A slot that only one of them holds is joined with what the factory
would make of it, and a slot whose kinds cannot be joined is forgotten. -/
namespace MethodFlow

open AbstractValue

variable {V : Type} [AbstractValue V]

def joinSlot (absent : Kind → V) : Option V → Option V → Except ValueError (Option V)
  | some a, some b =>
    if (HasKind.kind a).compatible (HasKind.kind b) then some <$> union a b else .ok none
  | some only, none => some <$> union only (absent (HasKind.kind only))
  | none, some only => some <$> union only (absent (HasKind.kind only))
  | none, none => .ok none

def joinSlots {κ : Type} [Ord κ] [Std.TransOrd κ] (absent : κ → Kind → V)
    (left right : SortedMap κ V) : Except ValueError (SortedMap κ V) :=
  (SortedSet.ofList (left.keys ++ right.keys)).toList.foldlM
    (fun joined key => do
      match ← joinSlot (absent key) (left.get? key) (right.get? key) with
      | some value => return joined.insert key value
      | none => return joined)
    .empty

/-- A value that only one side has is kept. -/
def joinResult : Option V → Option V → Except ValueError (Option V)
  | some a, some b => some <$> union a b
  | some only, none => .ok (some only)
  | none, some only => .ok (some only)
  | none, none => .ok none

def joinStacks (left right : OperandStack V) : Except ValueError (OperandStack V) := do
  let joined ← (left.reverse.zip right.reverse).mapM fun (a, b) => union a b
  return joined.reverse

namespace Frame

/-- The join of two frames of one stack depth, with the factory of the first. -/
def joinWith (a b : Frame V) : Except ValueError (Frame V) := do
  let stack ← joinStacks a.stack b.stack
  let locals ← joinSlots a.factory.localValue a.locals b.locals
  let statics ← joinSlots a.factory.staticValue a.statics b.statics
  let fields ← joinSlots (fun _ => a.factory.unconstrained) a.fields b.fields
  let returnValue ← joinResult a.returnValue b.returnValue
  let thrown ← joinResult a.thrown b.thrown
  return {
    factory := a.factory
    stack := stack
    locals := locals
    fields := fields
    statics := statics
    flags := a.flags.join b.flags
    evaluateAll := a.evaluateAll || b.evaluateAll
    loopingValid := a.loopingValid || b.loopingValid
    candidates := (SortedSet.ofList (a.candidates ++ b.candidates)).toList
    returnValue := returnValue
    thrown := thrown }

def combine (a b : Frame V) : Except WorldError (Frame V) :=
  if a.stack.length = b.stack.length then
    match joinWith a b with
    | .ok frame => .ok frame
    | .error error => .error (.value error)
  else .error (.stackShape a.stack.length b.stack.length)

instance : World (Frame V) where
  perform := perform
  evaluateBranch := evaluateBranch
  evaluateSwitch := evaluateSwitch
  enterSubroutine := enterSubroutine
  exitSubroutine := exitSubroutine
  terminate := terminate
  loopingValid frame := frame.loopingValid
  allBranches frame := frame.evaluateAll || (frame.flags.taken && frame.flags.passed)
  shouldTake frame := frame.flags.taken
  takenFeasible frame := frame.flags.taken
  passedFeasible frame := frame.flags.passed
  switchCandidates frame := frame.candidates
  combine := combine
  stackDepth frame := frame.stack.length

end Frame

end MethodFlow

import MethodFlow.Frame.Join
import MethodFlow.Interval.Document

/-! Machine states as documents. -/
namespace MethodFlow

open Document (count optional)

def World.policyFields {W : Type} [World W] (world : W) : List (String × Document) :=
  [("depth", count (stackDepth world)),
    ("then", .bool (takenFeasible world)),
    ("else", .bool (passedFeasible world)),
    ("all", .bool (allBranches world)),
    ("should_then", .bool (shouldTake world)),
    ("looping", .bool (loopingValid world)),
    ("candidates", .list ((switchCandidates world).map .integer))]

def Blank.toDocument (world : Blank) : Document := .record (World.policyFields world)

/-- A stack, bottom first. -/
def OperandStack.toDocument (stack : OperandStack Interval) : Document :=
  .list (stack.reverse.map Interval.toDocument)

def SortedMap.toDocument {κ : Type} [Ord κ] (key : κ → Document) (slots : SortedMap κ Interval) :
    Document :=
  .list (slots.entries.map fun (slot, value) => .list [key slot, value.toDocument])

def Frame.toDocument [AbstractValue Interval] (frame : Frame Interval) : Document :=
  .record ([
    ("stack", frame.stack.toDocument),
    ("locals", frame.locals.toDocument count),
    ("fields", frame.fields.toDocument .text),
    ("statics", frame.statics.toDocument .text),
    ("return", optional Interval.toDocument frame.returnValue),
    ("thrown", optional Interval.toDocument frame.thrown)] ++ World.policyFields frame)

end MethodFlow

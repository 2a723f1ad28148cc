import MethodFlow.Sorted.Map
import MethodFlow.World

/-! The state of one path through a method: operand stack, locals, and fields by identity. Locals
and statics that were never written are not stored; a read asks the factory for them. -/
namespace MethodFlow

structure BranchFlags where
  taken : Bool
  passed : Bool
  deriving DecidableEq

namespace BranchFlags

def none : BranchFlags := ⟨false, false⟩

def join (a b : BranchFlags) : BranchFlags := ⟨a.taken || b.taken, a.passed || b.passed⟩

end BranchFlags

structure Frame (V : Type) where
  factory : ValueFactory V
  stack : OperandStack V
  locals : SortedMap Nat V
  fields : SortedMap String V
  statics : SortedMap String V
  flags : BranchFlags
  /-- Every outcome is explored, possible or not. -/
  evaluateAll : Bool
  loopingValid : Bool
  candidates : List Int
  returnValue : Option V
  thrown : Option V

namespace Frame

variable {V : Type}

def initial (factory : ValueFactory V) : Frame V where
  factory := factory
  stack := []
  locals := .empty
  fields := .empty
  statics := .empty
  flags := .none
  evaluateAll := false
  loopingValid := false
  candidates := []
  returnValue := none
  thrown := none

def setLocal (index : Nat) (value : V) (frame : Frame V) : Frame V :=
  { frame with locals := frame.locals.insert index value }

/-- Puts parameters into consecutive slots from the given one on, and gives the slot after them.
Slots are counted in 16 bits. -/
def withParameters (slot : UInt16) (frame : Frame V) : List Kind → Frame V × UInt16
  | [] => (frame, slot)
  | kind :: rest =>
    let value := frame.factory.localValue slot.toNat kind
    withParameters (slot + UInt16.ofNat kind.slots) (frame.setLocal slot.toNat value) rest

/-- The state on entry to a method: the receiver, unless the method is static, and then the
parameters. -/
def forMethod (factory : ValueFactory V) (descriptor : MethodDescriptor) (isStatic : Bool) :
    Frame V :=
  let frame := initial factory
  if isStatic then (frame.withParameters 0 descriptor.parameters).1
  else
    let receiver := factory.localValue 0 .reference
    ((frame.setLocal 0 receiver).withParameters 1 descriptor.parameters).1

def exhaustive (frame : Frame V) : Frame V := { frame with evaluateAll := true }

def withLooping (valid : Bool) (frame : Frame V) : Frame V := { frame with loopingValid := valid }

/-- Equality of all that a frame holds; the factories are not compared. -/
def beq [BEq V] (a b : Frame V) : Bool :=
  a.stack == b.stack && a.locals == b.locals && a.fields == b.fields && a.statics == b.statics &&
    a.flags == b.flags && a.evaluateAll == b.evaluateAll && a.loopingValid == b.loopingValid &&
    a.candidates == b.candidates && a.returnValue == b.returnValue && a.thrown == b.thrown

instance [BEq V] : BEq (Frame V) := ⟨beq⟩

end Frame

end MethodFlow

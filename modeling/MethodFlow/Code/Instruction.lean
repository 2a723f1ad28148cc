import MethodFlow.Code.Descriptor
import MethodFlow.Code.Opcode
import MethodFlow.Code.Pool
import MethodFlow.OperandStack

/-! Decoded instructions. Operations either have an effect on the machine's data and fall through,
or decide where control goes next. -/
namespace MethodFlow

/-- Operand of an instruction that pushes a constant; `wide` marks a load of a two-slot one. -/
inductive Literal
  | null
  | int (value : Int32)
  | short (value : Int16)
  | long (value : Int64)
  | float (value : Float32)
  | double (value : Float)
  | pooled (constant : Constant) (wide : Bool)

inductive Order
  | lt
  | ge
  | gt
  | le
  deriving DecidableEq

inductive Condition
  | same (expected : Bool)
  | order (order : Order)
  deriving DecidableEq

namespace Condition

@[match_pattern] abbrev eq : Condition := same true
@[match_pattern] abbrev ne : Condition := same false
@[match_pattern] abbrev lt : Condition := order .lt
@[match_pattern] abbrev ge : Condition := order .ge
@[match_pattern] abbrev gt : Condition := order .gt
@[match_pattern] abbrev le : Condition := order .le

end Condition

/-- What a conditional branch tests. -/
inductive BranchTest
  | zero (condition : Condition)
  | intCompare (condition : Condition)
  | refCompare (equal : Bool)
  | null (isNull : Bool)
  deriving DecidableEq

inductive InvokeKind
  | virtual
  | special
  | static
  | interface
  deriving DecidableEq

def InvokeKind.hasReceiver : InvokeKind → Bool
  | static => false
  | _ => true

inductive Allocation
  | object (className : String)
  | array (element : Kind)
  | referenceArray (className : String)
  | multiArray (className : String) (dimensions : Nat)
  deriving DecidableEq

inductive TypeCheck
  | cast (className : String)
  | instanceOf (className : String)
  deriving DecidableEq

inductive MonitorOp
  | enter
  | exit
  deriving DecidableEq

inductive Terminal
  | value (kind : Kind)
  | void
  | throw
  deriving DecidableEq

structure FieldAccess where
  field : MemberRef
  kind : Kind
  deriving DecidableEq

/-- A switch; offsets are relative to the switch instruction. -/
structure SwitchTable where
  default : Int
  cases : List (Int × Int)
  deriving DecidableEq

/-- The offset of the first case with the selector's value, or else the default. -/
def SwitchTable.offsetFor (table : SwitchTable) (value : Int) : Int :=
  match table.cases.find? fun (key, _) => key == value with
  | some (_, offset) => offset
  | none => table.default

inductive Effect
  | push (literal : Literal)
  | load (kind : Kind) (index : Nat)
  | store (kind : Kind) (index : Nat)
  | increment (index : Nat) (delta : Int32)
  | loadArray (element : Kind)
  | storeArray (element : Kind)
  | shuffle (op : StackOp)
  | arithmetic (op : ArithmeticOp) (kind : NumericKind)
  | negate (kind : NumericKind)
  | convert (conversion : Conversion)
  | compare (comparison : Comparison)
  | getStatic (access : FieldAccess)
  | putStatic (access : FieldAccess)
  | getField (access : FieldAccess)
  | putField (access : FieldAccess)
  | invoke (kind : InvokeKind) (method : MemberRef) (descriptor : MethodDescriptor)
  | allocate (allocation : Allocation)
  | arrayLength
  | typeCheck (check : TypeCheck)
  | monitor (op : MonitorOp)

inductive Operation
  | nop
  | effect (effect : Effect)
  | branch (test : BranchTest) (offset : Int)
  | goto (offset : Int)
  | jsr (offset : Int)
  | ret (index : Nat)
  | switch (table : SwitchTable)
  | terminate (terminal : Terminal)
  | unsupported

/-- An instruction with its place; a byte outside the instruction set has no opcode. -/
structure Instruction where
  offset : Nat
  byte : UInt8
  opcode : Option Opcode
  length : Nat
  operation : Operation

def Instruction.mnemonic (instruction : Instruction) : String :=
  match instruction.opcode with
  | some opcode => opcode.mnemonic
  | none => "<unknown>"

end MethodFlow

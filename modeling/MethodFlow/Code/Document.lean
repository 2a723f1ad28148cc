import MethodFlow.Code.Names
import MethodFlow.Interval.Document

/-! Constants, pool entries, the parts of instructions, and decoded instructions as documents. -/
namespace MethodFlow

open Document (count listOf? name named? optional pairOf? tagged)

namespace MemberRef

def ofDocument? (document : Document) : Option MemberRef := do
  return {
    owner := ← (document.get "owner").text?
    name := ← (document.get "name").text?
    descriptor := ← (document.get "descriptor").text? }

def toDocument (member : MemberRef) : Document :=
  .record [
    ("owner", .text member.owner),
    ("name", .text member.name),
    ("descriptor", .text member.descriptor)]

end MemberRef

namespace Constant

def ofDocument? (document : Document) : Option Constant := do
  match ← document.variant? with
  | ("Integer", value) => return integer (Int32.ofInt (← value.int?))
  | ("Float", value) => return float (← value.single?)
  | ("Long", value) => return long (Int64.ofInt (← value.int?))
  | ("Double", value) => return double (← value.double?)
  | ("String", value) => return string (← value.text?)
  | ("Class", value) => return classRef (← value.text?)
  | ("MethodType", value) => return methodType (← value.text?)
  | ("MethodHandle", value) => return methodHandle (← MemberRef.ofDocument? value)
  | _ => none

def toDocument (constant : Constant) : Document :=
  tagged constant.tag <|
    match constant with
    | integer value => .integer value.toInt
    | float value => .single value
    | long value => .integer value.toInt
    | double value => .double value
    | string text => .text text
    | classRef name => .text name
    | methodType descriptor => .text descriptor
    | methodHandle member => member.toDocument

end Constant

namespace PoolEntry

def ofDocument? (document : Document) : Option PoolEntry := do
  match ← document.variant? with
  | ("Constant", value) => return constant (← Constant.ofDocument? value)
  | ("FieldRef", value) => return fieldRef (← MemberRef.ofDocument? value)
  | ("MethodRef", value) => return methodRef (← MemberRef.ofDocument? value)
  | ("InterfaceMethodRef", value) => return interfaceMethodRef (← MemberRef.ofDocument? value)
  | ("Unusable", _) => return unusable
  | _ => none

def toDocument : PoolEntry → Document
  | constant value => tagged "Constant" value.toDocument
  | fieldRef member => tagged "FieldRef" member.toDocument
  | methodRef member => tagged "MethodRef" member.toDocument
  | interfaceMethodRef member => tagged "InterfaceMethodRef" member.toDocument
  | unusable => .text "Unusable"

end PoolEntry

namespace Literal

def ofDocument? (document : Document) : Option Literal := do
  match ← document.variant? with
  | ("Null", _) => return null
  | ("Int", value) => return int (Int32.ofInt (← value.int?))
  | ("Short", value) => return short (Int16.ofInt (← value.int?))
  | ("Long", value) => return long (Int64.ofInt (← value.int?))
  | ("Float", value) => return float (← value.single?)
  | ("Double", value) => return double (← value.double?)
  | ("Pooled", value) =>
    return pooled (← Constant.ofDocument? (value.get "constant")) (← (value.get "wide").flag?)
  | _ => none

def toDocument : Literal → Document
  | null => .text "Null"
  | int value => tagged "Int" (.integer value.toInt)
  | short value => tagged "Short" (.integer value.toInt)
  | long value => tagged "Long" (.integer value.toInt)
  | float value => tagged "Float" (.single value)
  | double value => tagged "Double" (.double value)
  | pooled constant wide =>
    tagged "Pooled" (.record [("constant", constant.toDocument), ("wide", .bool wide)])

end Literal

namespace BranchTest

def ofDocument? (document : Document) : Option BranchTest := do
  match ← document.variant? with
  | ("Zero", value) => return zero (← named? Condition.names value)
  | ("IntCompare", value) => return intCompare (← named? Condition.names value)
  | ("RefCompare", value) => return refCompare (← (value.get "equal").bool?)
  | ("Null", value) => return null (← (value.get "is_null").bool?)
  | _ => none

def toDocument : BranchTest → Document
  | zero condition => tagged "Zero" (name Condition.names condition)
  | intCompare condition => tagged "IntCompare" (name Condition.names condition)
  | refCompare equal => tagged "RefCompare" (tagged "equal" (.bool equal))
  | null isNull => tagged "Null" (tagged "is_null" (.bool isNull))

end BranchTest

namespace Terminal

def ofDocument? (document : Document) : Option Terminal := do
  match ← document.variant? with
  | ("Throw", _) => return throw
  | ("Return", .null) => return void
  | ("Return", kind) => return value (← Kind.ofDocument? kind)
  | _ => none

def toDocument : Terminal → Document
  | value kind => tagged "Return" kind.toDocument
  | void => tagged "Return" .null
  | throw => .text "Throw"

end Terminal

namespace Allocation

def ofDocument? (document : Document) : Option Allocation := do
  match ← document.variant? with
  | ("Object", value) => return object (← value.text?)
  | ("Array", value) => return array (← Kind.ofDocument? value)
  | ("ReferenceArray", value) => return referenceArray (← value.text?)
  | ("MultiArray", value) =>
    return multiArray (← (value.get "class").text?) (← (value.get "dimensions").nat?)
  | _ => none

def toDocument : Allocation → Document
  | object name => tagged "Object" (.text name)
  | array element => tagged "Array" element.toDocument
  | referenceArray name => tagged "ReferenceArray" (.text name)
  | multiArray name dimensions =>
    tagged "MultiArray" (.record [("class", .text name), ("dimensions", count dimensions)])

end Allocation

namespace TypeCheck

def ofDocument? (document : Document) : Option TypeCheck := do
  match ← document.variant? with
  | ("Cast", value) => return cast (← value.text?)
  | ("InstanceOf", value) => return instanceOf (← value.text?)
  | _ => none

def toDocument : TypeCheck → Document
  | cast name => tagged "Cast" (.text name)
  | instanceOf name => tagged "InstanceOf" (.text name)

end TypeCheck

namespace FieldAccess

def ofDocument? (document : Document) : Option FieldAccess := do
  return {
    field := ← MemberRef.ofDocument? (document.get "field")
    kind := ← Kind.ofDocument? (document.get "kind") }

def toDocument (access : FieldAccess) : Document :=
  .record [("field", access.field.toDocument), ("kind", access.kind.toDocument)]

end FieldAccess

namespace SwitchTable

def ofDocument? (document : Document) : Option SwitchTable := do
  let cases := (document.get "cases").optional? (listOf? (pairOf? Document.int? Document.int?))
  return {
    default := ← (document.get "default").int?
    cases := (← cases).getD [] }

def toDocument (table : SwitchTable) : Document :=
  .record [
    ("default", .integer table.default),
    ("cases", .list (table.cases.map fun (key, offset) => .list [.integer key, .integer offset]))]

end SwitchTable

def MethodDescriptor.toFields (descriptor : MethodDescriptor) : List (String × Document) :=
  [("parameters", .list (descriptor.parameters.map Kind.toDocument)),
    ("returns", optional Kind.toDocument descriptor.returns)]

def Effect.toDocument : Effect → Document
  | push literal => tagged "Push" literal.toDocument
  | load kind index => tagged "Load" (slot kind index)
  | store kind index => tagged "Store" (slot kind index)
  | increment index delta =>
    tagged "Increment" (.record [("index", count index), ("delta", .integer delta.toInt)])
  | loadArray element => tagged "ArrayLoad" element.toDocument
  | storeArray element => tagged "ArrayStore" element.toDocument
  | shuffle op => tagged "Stack" (name StackOp.names op)
  | arithmetic op kind =>
    tagged "Arithmetic" (.list [name ArithmeticOp.names op, name NumericKind.names kind])
  | negate kind => tagged "Negate" (name NumericKind.names kind)
  | convert conversion => tagged "Convert" (name Conversion.names conversion)
  | compare comparison => tagged "Compare" (name Comparison.names comparison)
  | getStatic access => tagged "GetStatic" access.toDocument
  | putStatic access => tagged "PutStatic" access.toDocument
  | getField access => tagged "GetField" access.toDocument
  | putField access => tagged "PutField" access.toDocument
  | invoke kind method descriptor =>
    tagged "Invoke" (.record [
      ("kind", name InvokeKind.names kind),
      ("method", method.toDocument),
      ("descriptor", .record descriptor.toFields)])
  | allocate allocation => tagged "Allocate" allocation.toDocument
  | arrayLength => .text "ArrayLength"
  | typeCheck check => tagged "TypeCheck" check.toDocument
  | monitor op => tagged "Monitor" (name MonitorOp.names op)
where
  slot (kind : Kind) (index : Nat) : Document :=
    .record [("kind", kind.toDocument), ("index", count index)]

def Operation.toDocument : Operation → Document
  | nop => .text "Nop"
  | .effect done => done.toDocument
  | branch test offset =>
    tagged "Branch" (.record [("test", test.toDocument), ("offset", .integer offset)])
  | goto offset => tagged "Goto" (.integer offset)
  | jsr offset => tagged "Jsr" (.integer offset)
  | ret index => tagged "Ret" (count index)
  | switch table => tagged "Switch" table.toDocument
  | terminate terminal => tagged "Terminate" terminal.toDocument
  | unsupported => .text "Unsupported"

def Opcode.ofDocument? (document : Document) : Option Opcode := do
  match ← document.variant? with
  | (name, .null) => Opcode.ofName? name
  | _ => none

def Opcode.toDocument (opcode : Opcode) : Document := .text opcode.name

def Instruction.toDocument (instruction : Instruction) : Document :=
  .record [
    ("offset", count instruction.offset),
    ("byte", count instruction.byte.toNat),
    ("opcode", optional Opcode.toDocument instruction.opcode),
    ("mnemonic", .text instruction.mnemonic),
    ("length", count instruction.length),
    ("operation", instruction.operation.toDocument)]

end MethodFlow

import MethodFlow.Code.Decode
import MethodFlow.Proofs.Failure

/-! What an instruction can be decoded to: the layout of its opcode says which operation it is, but
for the operands that are read. -/
namespace MethodFlow

/-- Instructions of the layout are read as the operation, for some operands. -/
inductive Layout.Reads : Layout → Operation → Prop
  | plain {operation : Operation} : Reads (.plain operation) operation
  | byteImmediate {value : Int32} : Reads .byteImmediate (.effect (.push (.int value)))
  | shortImmediate {value : Int16} : Reads .shortImmediate (.effect (.push (.short value)))
  | shortConstant {value : Constant} : Reads .shortConstant (.effect (.push (.pooled value false)))
  | constant {wide : Bool} {value : Constant} :
      Reads (.constant wide) (.effect (.push (.pooled value wide)))
  | loadLocal {kind : Kind} {index : Nat} : Reads (.loadLocal kind) (.effect (.load kind index))
  | storeLocal {kind : Kind} {index : Nat} : Reads (.storeLocal kind) (.effect (.store kind index))
  | incrementLocal {index : Nat} {delta : Int32} :
      Reads .incrementLocal (.effect (.increment index delta))
  | branch {test : BranchTest} {relative : Int} : Reads (.branch test) (.branch test relative)
  | goto {relative : Int} : Reads .goto (.goto relative)
  | gotoWide {relative : Int} : Reads .gotoWide (.goto relative)
  | jsr {relative : Int} : Reads .jsr (.jsr relative)
  | jsrWide {relative : Int} : Reads .jsrWide (.jsr relative)
  | ret {index : Nat} : Reads .ret (.ret index)
  | tableSwitch {table : SwitchTable} : Reads .tableSwitch (.switch table)
  | lookupSwitch {table : SwitchTable} : Reads .lookupSwitch (.switch table)
  | field {effect : FieldAccess → Effect} {field : MemberRef} {kind : Kind}
      (stated : fieldKind field.descriptor = .ok kind) :
      Reads (.field effect) (.effect (effect ⟨field, kind⟩))
  | invoke {kind : InvokeKind} {method : MemberRef} {descriptor : MethodDescriptor}
      (stated : MethodDescriptor.parse method.descriptor = .ok descriptor) :
      Reads (.invoke kind) (.effect (.invoke kind method descriptor))
  | classOperand {effect : String → Effect} {name : String} :
      Reads (.classOperand effect) (.effect (effect name))
  | primitiveArray {kind : Kind} : Reads .primitiveArray (.effect (.allocate (.array kind)))
  | multiArray {name : String} {dimensions : Nat} :
      Reads .multiArray (.effect (.allocate (.multiArray name dimensions)))
  | widenedLoad {kind : Kind} {index : Nat} : Reads .widened (.effect (.load kind index))
  | widenedStore {kind : Kind} {index : Nat} : Reads .widened (.effect (.store kind index))
  | widenedIncrement {index : Nat} {delta : Int32} :
      Reads .widened (.effect (.increment index delta))
  | widenedRet {index : Nat} : Reads .widened (.ret index)
  | unsupported {length : Nat} : Reads (.unsupported length) .unsupported

namespace MethodBody

variable {body : MethodBody} {offset length : Nat} {operation : Operation}

theorem widenedAt_reads (read : body.widenedAt offset = .ok (operation, length)) :
    Layout.Reads .widened operation := by
  simp only [widenedAt, bind_eq_ok] at read
  obtain ⟨_, _, _, _, made⟩ := read
  split at made
  · cases made
    exact .widenedLoad
  · cases made
    exact .widenedStore
  · obtain ⟨_, _, made⟩ := bind_eq_ok.mp made
    cases made
    exact .widenedIncrement
  · cases made
    exact .widenedRet
  · cases made

theorem operationAt_reads {layout : Layout}
    (read : body.operationAt offset layout = .ok (operation, length)) : layout.Reads operation := by
  cases layout with
  | plain | unsupported =>
    cases read
    constructor
  | byteImmediate | shortImmediate | loadLocal | storeLocal | branch | goto | gotoWide | jsr
  | jsrWide | ret =>
    obtain ⟨_, _, made⟩ := bind_eq_ok.mp read
    cases made
    constructor
  | shortConstant | constant | incrementLocal | classOperand =>
    simp only [operationAt, bind_eq_ok] at read
    obtain ⟨_, _, _, _, made⟩ := read
    cases made
    constructor
  | field | invoke =>
    simp only [operationAt, bind_eq_ok] at read
    obtain ⟨_, _, _, _, _, stated, made⟩ := read
    cases made
    constructor
    exact stated
  | multiArray | lookupSwitch =>
    simp only [operationAt, lookupSwitchAt, bind_eq_ok] at read
    obtain ⟨_, _, _, _, _, _, made⟩ := read
    cases made
    constructor
  | tableSwitch =>
    simp only [operationAt, tableSwitchAt, bind_eq_ok] at read
    obtain ⟨_, _, _, _, _, _, _, _, made⟩ := read
    cases made
    constructor
  | primitiveArray =>
    obtain ⟨_, _, made⟩ := bind_eq_ok.mp read
    split at made
    · cases made
      constructor
    · cases made
  | widened => exact widenedAt_reads read

theorem decode_operationAt {instruction : Instruction} {opcode : Opcode}
    (decoded : body.decode offset = .ok instruction) (known : instruction.opcode = some opcode) :
    body.operationAt offset opcode.layout = .ok (instruction.operation, instruction.length) := by
  obtain ⟨byte, _, rest⟩ := bind_eq_ok.mp decoded
  split at rest
  · cases rest
    cases known
  · obtain ⟨⟨operation, length⟩, read, made⟩ := bind_eq_ok.mp rest
    cases made
    cases known
    exact read

theorem decode_reads {instruction : Instruction} {opcode : Opcode}
    (decoded : body.decode offset = .ok instruction) (known : instruction.opcode = some opcode) :
    opcode.layout.Reads instruction.operation :=
  operationAt_reads (decode_operationAt decoded known)

end MethodBody

end MethodFlow

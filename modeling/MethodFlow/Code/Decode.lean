import MethodFlow.Code.Body
import MethodFlow.Code.Layout

/-! Decoding of one instruction from the bytes at an offset. -/
namespace MethodFlow

/-- Switch operands start at the next multiple of four after the opcode. -/
def switchOperandsStart (offset : Nat) : Nat := (offset + 4) / 4 * 4

namespace MethodBody

variable (body : MethodBody)

def tableCases (key : Int) (cursor : Nat) : Nat → Except DecodeError (List (Int × Int))
  | 0 => .ok []
  | count + 1 => do
    let target ← body.i32At cursor
    let rest ← tableCases (key + 1) (cursor + 4) count
    return (key, target) :: rest

def lookupCases (cursor : Nat) : Nat → Except DecodeError (List (Int × Int))
  | 0 => .ok []
  | count + 1 => do
    let key ← body.i32At cursor
    let target ← body.i32At (cursor + 4)
    let rest ← lookupCases (cursor + 8) count
    return (key, target) :: rest

def tableSwitchAt (offset : Nat) : Except DecodeError (Operation × Nat) := do
  let base := switchOperandsStart offset
  let default ← body.i32At base
  let low ← body.i32At (base + 4)
  let high ← body.i32At (base + 8)
  let count := (high - low + 1).toNat
  let cases ← body.tableCases low (base + 12) count
  return (.switch ⟨default, cases⟩, base + 12 + 4 * count - offset)

def lookupSwitchAt (offset : Nat) : Except DecodeError (Operation × Nat) := do
  let base := switchOperandsStart offset
  let default ← body.i32At base
  let count := (← body.i32At (base + 4)).toNat
  let cases ← body.lookupCases (base + 8) count
  return (.switch ⟨default, cases⟩, base + 8 + 8 * count - offset)

/-- The operation of a widened opcode. The index is read before the opcode is looked at. -/
def widenedAt (offset : Nat) : Except DecodeError (Operation × Nat) := do
  let byte ← body.byteAt (offset + 1)
  let index ← body.u16At (offset + 2)
  match Opcode.layout <$> Opcode.ofByte? byte with
  | some (.loadLocal kind) => return (.effect (.load kind index), 4)
  | some (.storeLocal kind) => return (.effect (.store kind index), 4)
  | some .incrementLocal =>
    let delta ← body.i16At (offset + 4)
    return (.effect (.increment index (Int32.ofInt delta)), 6)
  | some .ret => return (.ret index, 4)
  | _ => throw (.badWide offset byte)

def operationAt (offset : Nat) (layout : Layout) : Except DecodeError (Operation × Nat) := do
  match layout with
  | .plain operation => return (operation, 1)
  | .byteImmediate => return (.effect (.push (.int (Int32.ofInt (← body.i8At (offset + 1))))), 2)
  | .shortImmediate =>
    return (.effect (.push (.short (Int16.ofInt (← body.i16At (offset + 1))))), 3)
  | .shortConstant =>
    let constant ← body.pool.constant (← body.u8At (offset + 1))
    return (.effect (.push (.pooled constant false)), 2)
  | .constant wide =>
    let constant ← body.pool.constant (← body.u16At (offset + 1))
    return (.effect (.push (.pooled constant wide)), 3)
  | .loadLocal kind => return (.effect (.load kind (← body.u8At (offset + 1))), 2)
  | .storeLocal kind => return (.effect (.store kind (← body.u8At (offset + 1))), 2)
  | .incrementLocal =>
    let index ← body.u8At (offset + 1)
    let delta ← body.i8At (offset + 2)
    return (.effect (.increment index (Int32.ofInt delta)), 3)
  | .branch test => return (.branch test (← body.i16At (offset + 1)), 3)
  | .goto => return (.goto (← body.i16At (offset + 1)), 3)
  | .gotoWide => return (.goto (← body.i32At (offset + 1)), 5)
  | .jsr => return (.jsr (← body.i16At (offset + 1)), 3)
  | .jsrWide => return (.jsr (← body.i32At (offset + 1)), 5)
  | .ret => return (.ret (← body.u8At (offset + 1)), 2)
  | .tableSwitch => body.tableSwitchAt offset
  | .lookupSwitch => body.lookupSwitchAt offset
  | .field effect =>
    let field ← body.pool.fieldRef (← body.u16At (offset + 1))
    let kind ← fieldKind field.descriptor
    return (.effect (effect ⟨field, kind⟩), 3)
  | .invoke kind =>
    let method ← body.pool.methodRef (← body.u16At (offset + 1))
    let descriptor ← MethodDescriptor.parse method.descriptor
    return (.effect (.invoke kind method descriptor), if kind = .interface then 5 else 3)
  | .classOperand effect =>
    let name ← body.pool.className (← body.u16At (offset + 1))
    return (.effect (effect name), 3)
  | .primitiveArray =>
    let code ← body.byteAt (offset + 1)
    match elementKind? code with
    | some kind => return (.effect (.allocate (.array kind)), 2)
    | none => throw (.arrayType offset code)
  | .multiArray =>
    let name ← body.pool.className (← body.u16At (offset + 1))
    let dimensions ← body.u8At (offset + 3)
    return (.effect (.allocate (.multiArray name dimensions)), 4)
  | .widened => body.widenedAt offset
  | .unsupported length => return (.unsupported, length)

def decode (offset : Nat) : Except DecodeError Instruction := do
  let byte ← body.byteAt offset
  match Opcode.ofByte? byte with
  | none => return ⟨offset, byte, none, 1, .unsupported⟩
  | some opcode =>
    let (operation, length) ← body.operationAt offset opcode.layout
    return ⟨offset, byte, some opcode, length, operation⟩

/-- Decodes from an offset on, each instruction starting where the one before ended, up to the end
of the code or the first failure. -/
def listingFrom (offset : Nat) : Nat → List (Except DecodeError Instruction)
  | 0 => []
  | fuel + 1 =>
    if body.size ≤ offset then []
    else
      match body.decode offset with
      | .error error => [.error error]
      | .ok instruction => .ok instruction :: listingFrom (offset + instruction.length) fuel

def listing : List (Except DecodeError Instruction) := body.listingFrom 0 body.size

end MethodBody

end MethodFlow

import MethodFlow.Assembly
import Mathlib.Algebra.Order.Ring.Int

/-! Reading back the bytes that numbers were written as. A number that is written in two or four
bytes is read as the number of that width with the same low bits. -/
namespace MethodFlow

namespace MethodBody

variable {body : MethodBody} {offset : Nat}

/-- The given bytes stand in the code from an offset on. -/
def Holds (body : MethodBody) (offset : Nat) : List UInt8 → Prop
  | [] => True
  | byte :: rest => body.code[offset]? = some byte ∧ body.Holds (offset + 1) rest

theorem holds_append {first second : List UInt8} :
    body.Holds offset (first ++ second) ↔
      body.Holds offset first ∧ body.Holds (offset + first.length) second := by
  induction first generalizing offset with
  | nil => simp [Holds]
  | cons byte rest ih =>
    have shifted : offset + 1 + rest.length = offset + (rest.length + 1) := by omega
    simp only [List.cons_append, Holds, ih, List.length_cons, shifted, and_assoc]

theorem holds_of_eq_append {before bytes after : List UInt8}
    (code : body.code.toList = before ++ bytes ++ after) : body.Holds before.length bytes := by
  induction bytes generalizing before with
  | nil => trivial
  | cons byte rest ih =>
    refine ⟨?_, ?_⟩
    · rw [← Array.getElem?_toList, code]
      simp
    · have shifted : body.code.toList = (before ++ [byte]) ++ rest ++ after := by
        simpa using code
      simpa using ih shifted

theorem Holds.length_le {bytes : List UInt8} (held : body.Holds offset bytes) :
    bytes.length ≤ body.size - offset := by
  induction bytes generalizing offset with
  | nil => exact Nat.zero_le _
  | cons byte rest ih =>
    have inside : offset < body.size := (Array.getElem?_eq_some_iff.mp held.1).1
    have further := ih held.2
    rw [List.length_cons]
    omega

theorem Holds.byteAt {byte : UInt8} {rest : List UInt8} (held : body.Holds offset (byte :: rest)) :
    body.byteAt offset = .ok byte := by
  simp only [MethodBody.byteAt, held.1]

theorem Holds.u8At {byte : UInt8} {rest : List UInt8} (held : body.Holds offset (byte :: rest)) :
    body.u8At offset = .ok byte.toNat := by
  simp only [MethodBody.u8At, held.byteAt]
  rfl

theorem Holds.i8At {byte : UInt8} {rest : List UInt8} (held : body.Holds offset (byte :: rest)) :
    body.i8At offset = .ok (Int.bmod byte.toNat 256) := by
  simp only [MethodBody.i8At, held.u8At]
  rfl

end MethodBody

theorem toNat_ofInt_byte (value : Int) : ((UInt8.ofInt value).toNat : Int) = value % 256 := by
  have below : (value % 256).toNat < 256 := by omega
  have read : (UInt8.ofInt value).toNat = (value % 256).toNat := by
    simpa [UInt8.ofInt] using below
  omega

theorem bmod_ofInt_byte (value : Int) :
    Int.bmod (UInt8.ofInt value).toNat 256 = value.bmod 256 := by
  rw [toNat_ofInt_byte]
  exact Int.emod_bmod value 256

theorem toNat_ofNat_byte {value : Nat} (small : value ≤ 255) :
    (UInt8.ofNat value).toNat = value := by
  rw [UInt8.toNat_ofNat']
  omega

@[simp] theorem length_bytes16 (value : Int) : (bytes16 value).length = 2 := rfl

@[simp] theorem length_bytes32 (value : Int) : (bytes32 value).length = 4 := rfl

namespace MethodBody

variable {body : MethodBody} {offset : Nat} {value : Int} {rest : List UInt8}

theorem Holds.u16At (held : body.Holds offset (bytes16 value ++ rest)) :
    body.u16At offset = .ok (value % 65536).toNat := by
  have low : body.Holds (offset + 1) (UInt8.ofInt value :: rest) := held.2
  have high : body.Holds offset (UInt8.ofInt (value / 256) :: UInt8.ofInt value :: rest) := held
  simp only [MethodBody.u16At, high.u8At, low.u8At]
  refine congrArg Except.ok ?_
  have highByte := toNat_ofInt_byte (value / 256)
  have lowByte := toNat_ofInt_byte value
  omega

theorem Holds.indexAt {index : Nat} (held : body.Holds offset (bytes16 index ++ rest))
    (small : index ≤ 65535) : body.u16At offset = .ok index := by
  rw [held.u16At]
  exact congrArg Except.ok (by omega)

theorem Holds.i16At (held : body.Holds offset (bytes16 value ++ rest)) :
    body.i16At offset = .ok (value.bmod 65536) := by
  simp only [MethodBody.i16At, held.u16At]
  refine congrArg Except.ok ?_
  rw [Int.toNat_of_nonneg (by omega)]
  exact Int.emod_bmod value 65536

theorem Holds.i32At (held : body.Holds offset (bytes32 value ++ rest)) :
    body.i32At offset = .ok (value.bmod 4294967296) := by
  rw [bytes32, List.append_assoc] at held
  have low : body.Holds (offset + 2) (bytes16 value ++ rest) := (holds_append.mp held).2
  simp only [MethodBody.i32At, held.u16At, low.u16At]
  refine congrArg Except.ok ?_
  have joined : (((value / 65536 % 65536).toNat * 65536 + (value % 65536).toNat : Nat) : Int) =
      value % 4294967296 := by omega
  rw [joined]
  exact Int.emod_bmod value 4294967296

theorem Holds.decode {opcode : Opcode} {operands : List UInt8} {operation : Operation}
    {length : Nat} (held : body.Holds offset (opcode.byte :: operands))
    (read : body.operationAt offset opcode.layout = .ok (operation, length)) :
    body.decode offset = .ok ⟨offset, opcode.byte, some opcode, length, operation⟩ := by
  simp only [MethodBody.decode, held.byteAt, Bind.bind, Except.bind, Opcode.ofByte?_byte, read]
  rfl

end MethodBody

theorem bmod_of_fits_byte {value : Int} (least : -128 ≤ value) (greatest : value ≤ 127) :
    value.bmod 256 = value :=
  Int.bmod_eq_of_le (by omega) (by omega)

theorem bmod_of_fits_short {value : Int} (least : -32768 ≤ value) (greatest : value ≤ 32767) :
    value.bmod 65536 = value :=
  Int.bmod_eq_of_le (by omega) (by omega)

theorem bmod_of_fits_int {value : Int} (least : -2147483648 ≤ value)
    (greatest : value ≤ 2147483647) : value.bmod 4294967296 = value :=
  Int.bmod_eq_of_le (by omega) (by omega)

end MethodFlow

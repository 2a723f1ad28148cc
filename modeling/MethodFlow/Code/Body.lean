import MethodFlow.Code.Pool

/-! A method's code and constant pool, and reads of big-endian numbers from the code. A number is
read byte by byte, so a missing byte is reported by its own offset. -/
namespace MethodFlow

structure MethodBody where
  code : Array UInt8
  pool : ConstantPool

namespace MethodBody

def size (body : MethodBody) : Nat := body.code.size

def byteAt (body : MethodBody) (offset : Nat) : Except DecodeError UInt8 :=
  match body.code[offset]? with
  | some byte => .ok byte
  | none => .error (.truncated offset)

def u8At (body : MethodBody) (offset : Nat) : Except DecodeError Nat :=
  UInt8.toNat <$> body.byteAt offset

def i8At (body : MethodBody) (offset : Nat) : Except DecodeError Int := do
  return Int.bmod (← body.u8At offset) 256

def u16At (body : MethodBody) (offset : Nat) : Except DecodeError Nat := do
  let high ← body.u8At offset
  let low ← body.u8At (offset + 1)
  return high * 256 + low

def i16At (body : MethodBody) (offset : Nat) : Except DecodeError Int := do
  return Int.bmod (← body.u16At offset) 65536

def i32At (body : MethodBody) (offset : Nat) : Except DecodeError Int := do
  let high ← body.u16At offset
  let low ← body.u16At (offset + 2)
  return Int.bmod (high * 65536 + low : Nat) 4294967296

end MethodBody

end MethodFlow

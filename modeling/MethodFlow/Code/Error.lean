/-! Why bytes, pool entries or descriptors cannot be read as an instruction. -/
namespace MethodFlow

inductive DecodeError
  | truncated (offset : Nat)
  | poolIndex (index : Nat)
  | poolEntryKind (index : Nat) (expected found : String)
  | descriptor (text : String)
  | badWide (offset : Nat) (byte : UInt8)
  | arrayType (offset : Nat) (code : UInt8)
  | branchTarget (offset : Nat) (target : Int)
  deriving DecidableEq

namespace DecodeError

def message : DecodeError → String
  | truncated offset => s!"read of 1 byte(s) at offset {offset} runs past the end of the code"
  | poolIndex index => s!"constant pool has no usable entry {index}"
  | poolEntryKind index expected found =>
    s!"constant pool entry {index} is a {found}, expected {expected}"
  | descriptor text => s!"malformed descriptor `{text}`"
  | badWide offset byte => s!"`{byte}` at offset {offset} cannot be widened"
  | arrayType offset code => s!"newarray at offset {offset} has unknown element type {code}"
  | branchTarget offset target =>
    s!"instruction at offset {offset} jumps outside the code (target {target})"

end DecodeError

end MethodFlow

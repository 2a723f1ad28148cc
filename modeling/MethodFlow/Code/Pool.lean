import MethodFlow.Code.Error

/-! The constant pool. Indices start at one, and a long or double takes two of them, the second of
which cannot be used. -/
namespace MethodFlow

structure MemberRef where
  owner : String
  name : String
  descriptor : String
  deriving DecidableEq

def MemberRef.identity (member : MemberRef) : String :=
  member.owner ++ "/" ++ member.name ++ ":" ++ member.descriptor

/-- Constants that an instruction can load. Equality is that of numbers, so NaN differs from
itself and both zeros are the same. -/
inductive Constant
  | integer (value : Int32)
  | float (value : Float32)
  | long (value : Int64)
  | double (value : Float)
  | string (text : String)
  | classRef (name : String)
  | methodType (descriptor : String)
  | methodHandle (member : MemberRef)
  deriving BEq

namespace Constant

def tag : Constant → String
  | integer _ => "Integer"
  | float _ => "Float"
  | long _ => "Long"
  | double _ => "Double"
  | string _ => "String"
  | classRef _ => "Class"
  | methodType _ => "MethodType"
  | methodHandle _ => "MethodHandle"

def isWide : Constant → Bool
  | long _ | double _ => true
  | _ => false

end Constant

inductive PoolEntry
  | constant (value : Constant)
  | fieldRef (member : MemberRef)
  | methodRef (member : MemberRef)
  | interfaceMethodRef (member : MemberRef)
  /-- The second slot of a long or double. -/
  | unusable
  deriving BEq

namespace PoolEntry

def tag : PoolEntry → String
  | constant value => value.tag
  | fieldRef _ => "Fieldref"
  | methodRef _ => "Methodref"
  | interfaceMethodRef _ => "InterfaceMethodref"
  | unusable => "unusable"

def isWide : PoolEntry → Bool
  | constant value => value.isWide
  | _ => false

end PoolEntry

structure ConstantPool where
  entries : Array PoolEntry

namespace ConstantPool

def empty : ConstantPool := ⟨#[]⟩

def size (pool : ConstantPool) : Nat := pool.entries.size

/-- The index of an entry, which is added if no equal one is there. Only the low 16 bits of an index
are kept. -/
def intern (pool : ConstantPool) (entry : PoolEntry) : UInt16 × ConstantPool :=
  match pool.entries.findIdx? (· == entry) with
  | some position => (UInt16.ofNat (position + 1), pool)
  | none =>
    let entries := pool.entries.push entry
    (UInt16.ofNat entries.size, ⟨if entry.isWide then entries.push .unusable else entries⟩)

def get (pool : ConstantPool) (index : Nat) : Except DecodeError PoolEntry :=
  match index with
  | 0 => .error (.poolIndex 0)
  | position + 1 =>
    match pool.entries[position]? with
    | none | some .unusable => .error (.poolIndex index)
    | some entry => .ok entry

def constant (pool : ConstantPool) (index : Nat) : Except DecodeError Constant := do
  match ← pool.get index with
  | .constant value => return value
  | other => throw (.poolEntryKind index "loadable constant" other.tag)

def fieldRef (pool : ConstantPool) (index : Nat) : Except DecodeError MemberRef := do
  match ← pool.get index with
  | .fieldRef member => return member
  | other => throw (.poolEntryKind index "Fieldref" other.tag)

def methodRef (pool : ConstantPool) (index : Nat) : Except DecodeError MemberRef := do
  match ← pool.get index with
  | .methodRef member | .interfaceMethodRef member => return member
  | other => throw (.poolEntryKind index "Methodref" other.tag)

def className (pool : ConstantPool) (index : Nat) : Except DecodeError String := do
  match ← pool.get index with
  | .constant (.classRef name) => return name
  | other => throw (.poolEntryKind index "Class" other.tag)

end ConstantPool

end MethodFlow

import MethodFlow.Code.Decode

/-! Assembling a method body from directives. Jumps go to labels, which may be bound before or after
they are used; their operands are left open and filled in at the end. A directive never stops the
assembly: the first problem is kept and reported at the end. -/
namespace MethodFlow

inductive AssembleError
  | unboundLabel (label : Nat)
  | rebound (label : Nat)
  | wrongEmitter (opcode : Opcode) (emitter : String)
  | outOfRange (offset target : Nat)
  | arrayKind (kind : Kind)
  | descriptor (error : DecodeError)
  deriving DecidableEq

namespace AssembleError

def message : AssembleError → String
  | unboundLabel label => s!"label {label} was never bound"
  | rebound label => s!"label {label} is bound twice"
  | wrongEmitter opcode emitter => s!"`{opcode.mnemonic}` cannot be emitted by `{emitter}`"
  | outOfRange offset target => s!"jump at offset {offset} to {target} does not fit in 16 bits"
  | arrayKind kind => s!"element kind {kind.name} has no newarray code"
  | descriptor error => error.message

end AssembleError

/-- One step of an assembly. Labels are numbered in the order in which they are made. -/
inductive Directive
  | label
  | bind (label : Nat)
  | op (opcode : Opcode)
  | raw (byte : UInt8)
  | int (value : Int32)
  | bipush (value : Int8)
  | sipush (value : Int16)
  | ldc (constant : Constant)
  | localAccess (opcode : Opcode) (index : UInt16)
  | iinc (index : UInt16) (delta : Int16)
  | branch (opcode : Opcode) (label : Nat)
  | tableswitch (low : Int32) (default : Nat) (targets : List Nat)
  | lookupswitch (default : Nat) (cases : List (Int32 × Nat))
  | field (opcode : Opcode) (member : MemberRef)
  | invoke (opcode : Opcode) (member : MemberRef)
  | classOp (opcode : Opcode) (className : String)
  | newarray (element : Kind)
  | multianewarray (className : String) (dimensions : UInt8)
  | intern (entry : PoolEntry)

structure Fixup where
  origin : Nat
  site : Nat
  label : Nat
  wide : Bool
  deriving DecidableEq

structure Assembly where
  code : Array UInt8
  pool : ConstantPool
  labels : Array (Option Nat)
  fixups : Array Fixup
  error : Option AssembleError

/-- The low 16 bits, high byte first. -/
def bytes16 (value : Int) : List UInt8 := [UInt8.ofInt (value / 256), UInt8.ofInt value]

def bytes32 (value : Int) : List UInt8 := bytes16 (value / 65536) ++ bytes16 value

namespace Assembly

def empty : Assembly := ⟨#[], .empty, #[], #[], none⟩

def append (assembly : Assembly) (bytes : List UInt8) : Assembly :=
  { assembly with code := assembly.code ++ bytes }

/-- Keeps the first failure. -/
def fail (assembly : Assembly) (error : AssembleError) : Assembly :=
  { assembly with error := assembly.error <|> some error }

def jump (assembly : Assembly) (origin label : Nat) (wide : Bool) : Assembly :=
  { assembly with
    fixups := assembly.fixups.push ⟨origin, assembly.code.size, label, wide⟩
    code := assembly.code ++ List.replicate (if wide then 4 else 2) (0 : UInt8) }

def openSwitch (assembly : Assembly) (opcode : Opcode) : Assembly :=
  let origin := assembly.code.size
  assembly.append (opcode.byte :: List.replicate (switchOperandsStart origin - (origin + 1)) 0)

def indexed (assembly : Assembly) (opcode : Opcode) (entry : PoolEntry) : Assembly :=
  let (index, pool) := assembly.pool.intern entry
  { assembly with pool := pool }.append (opcode.byte :: bytes16 index.toNat)

/-- Loads a constant by the shortest form that its width and index allow. -/
def ldc (assembly : Assembly) (constant : Constant) : Assembly :=
  let (index, pool) := assembly.pool.intern (.constant constant)
  let assembly := { assembly with pool := pool }
  if constant.isWide then assembly.append (Opcode.ldc2W.byte :: bytes16 index.toNat)
  else if index.toNat ≤ 255 then assembly.append [Opcode.ldc.byte, index.toUInt8]
  else assembly.append (Opcode.ldcW.byte :: bytes16 index.toNat)

def int (assembly : Assembly) (value : Int) : Assembly :=
  if -1 ≤ value && value ≤ 5 then assembly.append [UInt8.ofInt (Opcode.iconst0.byte.toNat + value)]
  else if -128 ≤ value && value ≤ 127 then
    assembly.append [Opcode.bipush.byte, UInt8.ofInt value]
  else if -32768 ≤ value && value ≤ 32767 then
    assembly.append (Opcode.sipush.byte :: bytes16 value)
  else assembly.ldc (.integer (Int32.ofInt value))

def localAccess (assembly : Assembly) (opcode : Opcode) (index : Nat) : Assembly :=
  if index ≤ 255 then assembly.append [opcode.byte, UInt8.ofNat index]
  else assembly.append (Opcode.wide.byte :: opcode.byte :: bytes16 index)

def iinc (assembly : Assembly) (index : Nat) (delta : Int) : Assembly :=
  if index ≤ 255 && -128 ≤ delta && delta ≤ 127 then
    assembly.append [Opcode.iinc.byte, UInt8.ofNat index, UInt8.ofInt delta]
  else
    assembly.append (Opcode.wide.byte :: Opcode.iinc.byte :: bytes16 index ++ bytes16 delta)

/-- The greatest key of a table with the given least key. The number of keys is counted in 32 bits,
and a key beyond the greatest or least one is replaced by it. -/
def tableHigh (low : Int) (count : Nat) : Int :=
  max (-2147483648) (min 2147483647 (low + (Int32.ofNat count - 1).toInt))

def tableswitch (assembly : Assembly) (low : Int) (default : Nat) (targets : List Nat) : Assembly :=
  let origin := assembly.code.size
  let head := ((assembly.openSwitch .tableswitch).jump origin default true).append
    (bytes32 low ++ bytes32 (tableHigh low targets.length))
  targets.foldl (fun assembly label => assembly.jump origin label true) head

/-- Cases are sorted by key; cases with one key keep their order. -/
def lookupswitch (assembly : Assembly) (default : Nat) (cases : List (Int × Nat)) : Assembly :=
  let origin := assembly.code.size
  let sorted := cases.mergeSort fun a b => a.1 ≤ b.1
  let head := ((assembly.openSwitch .lookupswitch).jump origin default true).append
    (bytes32 sorted.length)
  sorted.foldl
    (fun assembly (key, label) => (assembly.append (bytes32 key)).jump origin label true) head

/-- A call of an interface also holds the number of argument slots, the receiver included. -/
def invoke (assembly : Assembly) (opcode : Opcode) (member : MemberRef) : Assembly :=
  match opcode.layout with
  | .invoke .interface =>
    match MethodDescriptor.parse member.descriptor with
    | .error error => assembly.fail (.descriptor error)
    | .ok descriptor =>
      (assembly.indexed opcode (.interfaceMethodRef member)).append
        [UInt8.ofNat (descriptor.parameterSlots + 1), 0]
  | .invoke _ => assembly.indexed opcode (.methodRef member)
  | _ => assembly.fail (.wrongEmitter opcode "invoke")

def emit (assembly : Assembly) : Directive → Assembly
  | .label => { assembly with labels := assembly.labels.push none }
  | .bind label =>
    match assembly.labels[label]? with
    | some (some _) => assembly.fail (.rebound label)
    | _ =>
      { assembly with labels := assembly.labels.setIfInBounds label (some assembly.code.size) }
  | .op opcode => assembly.append [opcode.byte]
  | .raw byte => assembly.append [byte]
  | .int value => assembly.int value.toInt
  | .bipush value => assembly.append [Opcode.bipush.byte, UInt8.ofInt value.toInt]
  | .sipush value => assembly.append (Opcode.sipush.byte :: bytes16 value.toInt)
  | .ldc constant => assembly.ldc constant
  | .localAccess opcode index =>
    match opcode.layout with
    | .loadLocal _ | .storeLocal _ | .ret => assembly.localAccess opcode index.toNat
    | _ => assembly.fail (.wrongEmitter opcode "local")
  | .iinc index delta => assembly.iinc index.toNat delta.toInt
  | .branch opcode label =>
    let origin := assembly.code.size
    match opcode.layout with
    | .branch _ | .goto | .jsr => (assembly.append [opcode.byte]).jump origin label false
    | .gotoWide | .jsrWide => (assembly.append [opcode.byte]).jump origin label true
    | _ => assembly.fail (.wrongEmitter opcode "branch")
  | .tableswitch low default targets => assembly.tableswitch low.toInt default targets
  | .lookupswitch default cases =>
    assembly.lookupswitch default (cases.map fun (key, label) => (key.toInt, label))
  | .field opcode member =>
    match opcode.layout with
    | .field _ => assembly.indexed opcode (.fieldRef member)
    | _ => assembly.fail (.wrongEmitter opcode "field")
  | .invoke opcode member => assembly.invoke opcode member
  | .classOp opcode className =>
    match opcode.layout with
    | .classOperand _ => assembly.indexed opcode (.constant (.classRef className))
    | _ => assembly.fail (.wrongEmitter opcode "class_op")
  | .newarray element =>
    match elementCode? element with
    | some code => assembly.append [Opcode.newarray.byte, code]
    | none => assembly.fail (.arrayKind element)
  | .multianewarray className dimensions =>
    (assembly.indexed .multianewarray (.constant (.classRef className))).append [dimensions]
  | .intern entry => { assembly with pool := (assembly.pool.intern entry).2 }

def overwrite (code : Array UInt8) (site : Nat) : List UInt8 → Array UInt8
  | [] => code
  | byte :: rest => overwrite (code.setIfInBounds site byte) (site + 1) rest

def resolve (labels : Array (Option Nat)) (code : Array UInt8) (fixup : Fixup) :
    Except AssembleError (Array UInt8) :=
  match labels[fixup.label]? with
  | some (some target) =>
    let relative := (target : Int) - fixup.origin
    if fixup.wide then .ok (overwrite code fixup.site (bytes32 relative))
    else if -32768 ≤ relative && relative ≤ 32767 then
      .ok (overwrite code fixup.site (bytes16 relative))
    else .error (.outOfRange fixup.origin target)
  | _ => .error (.unboundLabel fixup.label)

/-- The finished body, or the first problem: of the directives, or else of the jumps. -/
def finish (assembly : Assembly) : Except AssembleError MethodBody :=
  match assembly.error with
  | some error => .error error
  | none => do
    let code ← assembly.fixups.foldlM (resolve assembly.labels) assembly.code
    return ⟨code, assembly.pool⟩

def run (directives : List Directive) : Assembly := directives.foldl emit empty

end Assembly

def assemble (directives : List Directive) : Except AssembleError MethodBody :=
  (Assembly.run directives).finish

end MethodFlow

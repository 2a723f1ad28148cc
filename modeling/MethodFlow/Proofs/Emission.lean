import MethodFlow.Proofs.JumpFilling
import MethodFlow.Proofs.Machine
import MethodFlow.Proofs.PoolEntries

/-! What it is for a directive to be encoded: pieces of code are laid down that, once their holes
are filled in, are read as the operation that the directive stands for. -/
namespace MethodFlow

/-- The later assembly has more code, the given pieces, with their fixups. -/
structure Lays (before after : Assembly) (pieces : List Piece) : Prop where
  code : after.code.toList = before.code.toList ++ pieces.flatMap Piece.blank
  fixups : after.fixups.toList = before.fixups.toList ++ Piece.fixups before.code.size pieces
  pool : before.pool.Grows after.pool

namespace Lays

variable {first second third : Assembly} {early late : List Piece}

theorem size (laid : Lays first second early) :
    second.code.size = first.code.size + (early.flatMap Piece.blank).length := by
  rw [← Array.length_toList, laid.code, List.length_append, Array.length_toList]

theorem nothing (code : second.code = first.code) (fixups : second.fixups = first.fixups)
    (pool : second.pool = first.pool) : Lays first second [] where
  code := by simp [code]
  fixups := by simp [fixups, Piece.fixups]
  pool := pool ▸ .refl _

theorem trans (earlier : Lays first second early) (later : Lays second third late) :
    Lays first third (early ++ late) where
  code := by rw [later.code, earlier.code, List.flatMap_append, List.append_assoc]
  fixups := by
    rw [later.fixups, earlier.fixups, Piece.fixups_append, earlier.size, List.append_assoc]
  pool := earlier.pool.trans later.pool

end Lays

/-- Besides laying down pieces, nothing changes. -/
structure Emits (before after : Assembly) (pieces : List Piece) : Prop
    extends Lays before after pieces where
  labels : after.labels = before.labels
  error : after.error = before.error

namespace Emits

variable {first second third : Assembly} {early late : List Piece}

theorem trans (earlier : Emits first second early) (later : Emits second third late) :
    Emits first third (early ++ late) where
  toLays := earlier.toLays.trans later.toLays
  labels := later.labels.trans earlier.labels
  error := later.error.trans earlier.error

theorem append (assembly : Assembly) (bytes : List UInt8) :
    Emits assembly (assembly.append bytes) (bytes.map .byte) where
  code := by simp [Assembly.append]
  fixups := by simp [Assembly.append]
  pool := ConstantPool.Grows.refl _
  labels := rfl
  error := rfl

theorem jump (assembly : Assembly) (origin label : Nat) (wide : Bool) :
    Emits assembly (assembly.jump origin label wide) [.hole origin label wide] where
  code := by simp [Assembly.jump, Piece.blank]
  fixups := by simp [Assembly.jump, Piece.fixups]
  pool := ConstantPool.Grows.refl _
  labels := rfl
  error := rfl

theorem interned (assembly : Assembly) (entry : PoolEntry) (bytes : List UInt8) :
    Emits assembly ({ assembly with pool := (assembly.pool.intern entry).2 }.append bytes)
      (bytes.map .byte) where
  code := by simp [Assembly.append]
  fixups := by simp [Assembly.append]
  pool := assembly.pool.intern_grows entry
  labels := rfl
  error := rfl

theorem indexed (assembly : Assembly) (opcode : Opcode) (entry : PoolEntry) (more : List UInt8) :
    Emits assembly ((assembly.indexed opcode entry).append more)
      ((opcode.byte :: (bytes16 (assembly.pool.intern entry).1.toNat ++ more)).map .byte) := by
  have both := (interned assembly entry _).trans (append (assembly.indexed opcode entry) more)
  rw [← List.map_append] at both
  exact both

theorem foldl {α : Type} {step : Assembly → α → Assembly} {laid : α → List Piece}
    (each : ∀ assembly item, Emits assembly (step assembly item) (laid item))
    (assembly : Assembly) (items : List α) :
    Emits assembly (items.foldl step assembly) (items.flatMap laid) := by
  induction items generalizing assembly with
  | nil => exact append assembly []
  | cons item rest ih => exact (each assembly item).trans (ih (step assembly item))

end Emits

def Jumps (directives : List Directive) (origin label : Nat) (relative : Int) : Prop :=
  ∃ target, BoundAt directives label target ∧ relative = target - origin

/-- The distance from the origin to a label fits in 32 bits. -/
def Near (directives : List Directive) (origin label : Nat) : Prop :=
  ∀ target, BoundAt directives label target →
    -2147483648 ≤ (target : Int) - origin ∧ (target : Int) - origin ≤ 2147483647

/-- What a jump operand holds: the low 32 bits of the distance, and all of it if it is narrow. -/
def Lands (directives : List Directive) (origin : Nat) (wide : Bool) (label : Nat)
    (relative : Int) : Prop :=
  ∃ target, BoundAt directives label target ∧
    relative = ((target : Int) - origin).bmod 4294967296 ∧
    (wide = false → relative = target - origin)

theorem Lands.jumps {directives : List Directive} {origin label : Nat} {wide : Bool}
    {relative : Int} (lands : Lands directives origin wide label relative)
    (near : Near directives origin label) : Jumps directives origin label relative := by
  obtain ⟨target, bound, rest, _⟩ := lands
  obtain ⟨least, greatest⟩ := near target bound
  exact ⟨target, bound, rest.trans (bmod_of_fits_int least greatest)⟩

def MethodBody.operandAt (body : MethodBody) (wide : Bool) (site : Nat) : Except DecodeError Int :=
  if wide then body.i32At site else body.i16At site

section

variable {directives : List Directive} {body : MethodBody} {site origin label : Nat}
  {rest : List Piece} {bytes : List UInt8}

theorem Fills.operandAt {wide : Bool}
    (filled : Fills directives (.hole origin label wide :: rest) bytes)
    (held : body.Holds site bytes) :
    ∃ relative others, body.operandAt wide site = .ok relative ∧
      Lands directives origin wide label relative ∧ Fills directives rest others ∧
      body.Holds (site + if wide then 4 else 2) others ∧
      bytes.length = others.length + if wide then 4 else 2 := by
  cases filled with
  | hole bound fits others =>
    rename_i target after
    have beyond := (MethodBody.holds_append.mp held).2
    rw [length_operandBytes] at beyond
    have length : (operandBytes wide (target - origin) ++ after).length =
        after.length + if wide then 4 else 2 := by
      rw [List.length_append, length_operandBytes, Nat.add_comm]
    cases wide with
    | true =>
      have read : body.i32At site = _ := MethodBody.Holds.i32At held
      exact ⟨_, after, read, ⟨target, bound, rfl, nofun⟩, others, beyond, length⟩
    | false =>
      obtain ⟨least, greatest⟩ := fits rfl
      have read : body.i16At site = .ok (target - origin) := by
        rw [MethodBody.Holds.i16At held, bmod_of_fits_short least greatest]
      refine ⟨_, after, read, ⟨target, bound, ?_, fun _ => rfl⟩, others, beyond, length⟩
      rw [bmod_of_fits_int (by omega) (by omega)]

end

/-- The cases in ascending order of their keys, those with the same key in the order given. -/
structure StablySorted (cases sorted : List (Int32 × Nat)) : Prop where
  perm : sorted.Perm cases
  ascending : sorted.Pairwise fun left right => left.1.toInt ≤ right.1.toInt
  stable (key : Int32) : sorted.filter (·.1 == key) = cases.filter (·.1 == key)

/-- The directive stands for the operation, at the given offset. Labels and their bindings stand
for no operation. -/
def Directive.Means (directives : List Directive) (origin : Nat) :
    Directive → Operation → Prop
  | .op opcode, operation =>
    match opcode.layout with
    | .plain stated => operation = stated
    | .unsupported _ => operation = .unsupported
    | _ => False
  | .int value, operation =>
    ∃ literal, operation = .effect (.push literal) ∧ Word.ofLiteral literal = some (.ofInt32 value)
  | .bipush value, operation => operation = .effect (.push (.int value.toInt32))
  | .sipush value, operation => operation = .effect (.push (.short value))
  | .ldc constant, operation =>
    ∃ stored, operation = .effect (.push (.pooled stored constant.isWide)) ∧ stored.Same constant
  | .localAccess opcode index, operation =>
    match opcode.layout with
    | .loadLocal kind => operation = .effect (.load kind index.toNat)
    | .storeLocal kind => operation = .effect (.store kind index.toNat)
    | .ret => operation = .ret index.toNat
    | _ => False
  | .iinc index delta, operation => operation = .effect (.increment index.toNat delta.toInt32)
  | .branch opcode goal, operation =>
    match opcode.layout with
    | .branch test =>
      ∃ relative, operation = .branch test relative ∧ Jumps directives origin goal relative
    | .goto => ∃ relative, operation = .goto relative ∧ Jumps directives origin goal relative
    | .gotoWide =>
      ∃ relative, operation = .goto relative ∧ Jumps directives origin goal relative
    | .jsr => ∃ relative, operation = .jsr relative ∧ Jumps directives origin goal relative
    | .jsrWide =>
      ∃ relative, operation = .jsr relative ∧ Jumps directives origin goal relative
    | _ => False
  | .tableswitch low default targets, operation =>
    ∃ table, operation = .switch table ∧ Jumps directives origin default table.default ∧
      table.cases.map Prod.fst =
        (List.range targets.length).map (fun step : Nat => low.toInt + step) ∧
      List.Forall₂ (Jumps directives origin) targets (table.cases.map Prod.snd)
  | .lookupswitch default cases, operation =>
    ∃ table sorted, operation = .switch table ∧ Jumps directives origin default table.default ∧
      StablySorted cases sorted ∧ table.cases.map Prod.fst = sorted.map (·.1.toInt) ∧
      List.Forall₂ (Jumps directives origin) (sorted.map Prod.snd) (table.cases.map Prod.snd)
  | .field opcode member, operation =>
    match opcode.layout with
    | .field effect =>
      ∃ kind, fieldKind member.descriptor = .ok kind ∧ operation = .effect (effect ⟨member, kind⟩)
    | _ => False
  | .invoke opcode member, operation =>
    match opcode.layout with
    | .invoke kind =>
      ∃ descriptor, MethodDescriptor.parse member.descriptor = .ok descriptor ∧
        operation = .effect (.invoke kind member descriptor)
    | _ => False
  | .classOp opcode className, operation =>
    match opcode.layout with
    | .classOperand effect => operation = .effect (effect className)
    | _ => False
  | .newarray element, operation => operation = .effect (.allocate (.array element))
  | .multianewarray className dimensions, operation =>
    operation = .effect (.allocate (.multiArray className dimensions.toNat))
  | .label, _ | .bind _, _ | .raw _, _ | .intern _, _ => False

def Directive.emits : Directive → Bool
  | .label | .bind _ | .intern _ => false
  | _ => true

/-- What an assembly does not check but a decoder relies on: an opcode that is emitted alone has no
operands, descriptors can be parsed, and the keys of a table fit in 32 bits. Bytes and pool entries
that no instruction goes with are left out. -/
def Directive.Encodable : Directive → Prop
  | .op opcode =>
    match opcode.layout with
    | .plain _ | .unsupported 1 => True
    | _ => False
  | .raw _ | .intern _ => False
  | .tableswitch low _ targets =>
    -2147483648 ≤ low.toInt + targets.length - 1 ∧ low.toInt + targets.length - 1 ≤ 2147483647
  | .field _ member => ∃ kind, fieldKind member.descriptor = .ok kind
  | .invoke _ member => ∃ descriptor, MethodDescriptor.parse member.descriptor = .ok descriptor
  | _ => True

/-- The body is small enough to be read back at the origin: it holds the pool, which can be indexed,
and distances fit in 32 bits. -/
structure Readable (directives : List Directive) (origin : Nat) (pool : ConstantPool)
    (body : MethodBody) : Prop where
  pool : pool.Grows body.pool
  entries : body.pool.size ≤ 65535
  size : body.size < 2147483648
  near (label : Nat) : Near directives origin label

/-- An instruction is emitted, and wherever its bytes stand at their offset with the holes filled
in and can be read back, they are read as an operation with the given meaning. -/
def Encodes (directives : List Directive) (before after : Assembly)
    (means : Operation → Prop) : Prop :=
  ∃ (opcode : Opcode) (operands : List Piece),
    Emits before after (.byte opcode.byte :: operands) ∧
    ∀ (body : MethodBody) (bytes : List UInt8), Fills directives operands bytes →
      body.Holds (before.code.size + 1) bytes →
      Readable directives before.code.size after.pool body →
      ∃ operation, body.operationAt before.code.size opcode.layout =
        .ok (operation, bytes.length + 1) ∧ means operation

namespace Encodes

variable {directives : List Directive} {before after : Assembly} {means : Operation → Prop}

theorem imp {other : Operation → Prop} (encoded : Encodes directives before after means)
    (stronger : ∀ operation, means operation → other operation) :
    Encodes directives before after other := by
  obtain ⟨opcode, operands, emitted, read⟩ := encoded
  refine ⟨opcode, operands, emitted, fun body bytes filled held readable => ?_⟩
  obtain ⟨operation, decoded, meant⟩ := read body bytes filled held readable
  exact ⟨operation, decoded, stronger operation meant⟩

theorem of_bytes {opcode : Opcode} {operands : List UInt8}
    (emitted : Emits before after ((opcode.byte :: operands).map .byte))
    (read : ∀ body : MethodBody, body.Holds (before.code.size + 1) operands →
      Readable directives before.code.size after.pool body →
      ∃ operation, body.operationAt before.code.size opcode.layout =
        .ok (operation, operands.length + 1) ∧ means operation) :
    Encodes directives before after means := by
  refine ⟨opcode, operands.map .byte, emitted, fun body bytes filled held readable => ?_⟩
  obtain rfl := filled.bytes_eq
  exact read body held readable

theorem of_index {opcode : Opcode} (entry : PoolEntry) (more : List UInt8)
    (emitted : Emits before after
      ((opcode.byte :: (bytes16 (before.pool.intern entry).1.toNat ++ more)).map .byte))
    (interned : after.pool = (before.pool.intern entry).2)
    (read : ∀ body : MethodBody,
      body.u16At (before.code.size + 1) = .ok (before.pool.intern entry).1.toNat →
      body.Holds (before.code.size + 3) more → (before.pool.intern entry).2.Grows body.pool →
      body.pool.size ≤ 65535 →
      ∃ operation, body.operationAt before.code.size opcode.layout =
        .ok (operation, more.length + 3) ∧ means operation) :
    Encodes directives before after means := by
  refine of_bytes emitted fun body held readable => ?_
  have grown := readable.pool
  rw [interned] at grown
  have bounded := Nat.le_of_lt_succ (before.pool.intern entry).1.toNat_lt
  obtain ⟨operation, decoded, meant⟩ :=
    read body (held.indexAt bounded) (MethodBody.holds_append.mp held).2 grown readable.entries
  refine ⟨operation, ?_, meant⟩
  rw [decoded, List.length_append, length_bytes16]
  exact congrArg Except.ok (congrArg _ (by omega))

end Encodes

end MethodFlow

import MethodFlow.Proofs.CodeBytes
import MethodFlow.Proofs.ControlFlow

/-! How far an instruction reaches. An instruction takes as many bytes as its format says, and one
that is missing at the end of the code is reported. Only the last two bytes of a call of an
interface and the operands of a dynamic call are counted but not looked at. -/
namespace MethodFlow

namespace MethodBody

variable (body : MethodBody)

def tableKeys (base : Nat) : Nat :=
  match body.i32At (base + 4), body.i32At (base + 8) with
  | .ok low, .ok high => (high - low + 1).toNat
  | _, _ => 0

def listedKeys (base : Nat) : Nat :=
  match body.i32At (base + 4) with
  | .ok count => count.toNat
  | _ => 0

end MethodBody

/-- The number of bytes of an instruction, its opcode included. What a switch says of its own size
counts as nothing where the code ends before it. -/
def Layout.extent (body : MethodBody) (offset : Nat) : Layout → Nat
  | .plain _ => 1
  | .byteImmediate | .shortConstant | .loadLocal _ | .storeLocal _ | .ret | .primitiveArray => 2
  | .shortImmediate | .constant _ | .incrementLocal | .branch _ | .goto | .jsr | .field _
  | .classOperand _ => 3
  | .multiArray => 4
  | .gotoWide | .jsrWide => 5
  | .invoke kind => if kind = .interface then 5 else 3
  | .tableSwitch =>
    let base := switchOperandsStart offset
    base + 12 + 4 * body.tableKeys base - offset
  | .lookupSwitch =>
    let base := switchOperandsStart offset
    base + 8 + 8 * body.listedKeys base - offset
  | .widened => if body.opcodeAt? (offset + 1) = some .iinc then 6 else 4
  | .unsupported length => length

/-- The bytes that are counted but not looked at. -/
def Layout.skipped : Layout → Nat
  | .invoke .interface => 2
  | .unsupported length => length - 1
  | _ => 0

namespace Opcode

theorem eq_iinc_of_layout {opcode : Opcode} (layout : opcode.layout = .incrementLocal) :
    opcode = .iinc := by
  cases opcode <;> first | rfl | cases layout

theorem eq_multianewarray_of_layout {opcode : Opcode} (layout : opcode.layout = .multiArray) :
    opcode = .multianewarray := by
  cases opcode <;> first | rfl | cases layout

theorem layout_counted (opcode : Opcode) : opcode.layout ≠ .unsupported 0 := by
  cases opcode <;> nofun

end Opcode

namespace MethodBody

variable (body : MethodBody)

def extent (offset : Nat) : Nat :=
  match body.opcodeAt? offset with
  | some opcode => opcode.layout.extent body offset
  | none => 1

def skipped (offset : Nat) : Nat :=
  match body.opcodeAt? offset with
  | some .invokeinterface => 2
  | some .invokedynamic => 4
  | _ => 0

/-! ## Reading up to a stop -/

/-- What can come of reading the code up to a stop: a value with a property, the place of a missing
byte before the stop or, where `lookups` are made, another failure once all bytes are there. -/
inductive Reads {α : Type} (lookups : Prop) (stop : Nat) (property : α → Prop) :
    Except DecodeError α → Prop
  | ok {value : α} (inside : stop ≤ body.size) (holds : property value) :
      Reads lookups stop property (.ok value)
  | truncated {place : Nat} (past : body.size ≤ place) (before : place < stop) :
      Reads lookups stop property (.error (.truncated place))
  | refused {error : DecodeError} (looked : lookups) (inside : stop ≤ body.size)
      (other : ∀ place, error ≠ .truncated place) : Reads lookups stop property (.error error)

variable {body} {α β : Type} {lookups : Prop} {stop finish : Nat} {property : α → Prop}
  {result : β → Prop} {read : Except DecodeError α} {next : α → Except DecodeError β}

namespace Reads

theorem bind (first : body.Reads False stop property read) (later : stop ≤ finish)
    (rest : ∀ value, read = .ok value → stop ≤ body.size →
      body.Reads lookups finish result (next value)) :
    body.Reads lookups finish result (read >>= next) := by
  cases first with
  | ok inside _ => exact rest _ rfl inside
  | truncated past before => exact .truncated past (by omega)
  | refused looked => exact looked.elim

theorem andThen (first : body.Reads lookups stop property read)
    (rest : ∀ value, property value → stop ≤ body.size →
      body.Reads lookups stop result (next value)) :
    body.Reads lookups stop result (read >>= next) := by
  cases first with
  | ok inside holds => exact rest _ holds inside
  | truncated past before => exact .truncated past before
  | refused looked inside other => exact .refused looked inside other

theorem truncated_iff (reads : body.Reads lookups stop property read) :
    (∃ place, read = .error (.truncated place)) ↔ body.size < stop := by
  cases reads with
  | ok inside => simp; omega
  | truncated past before => simp; omega
  | refused _ inside other => simp [other]; omega

end Reads

section Readers

variable (body : MethodBody) (lookups : Prop) (offset : Nat)

theorem byteAt_reads : body.Reads lookups (offset + 1) (fun _ => True) (body.byteAt offset) := by
  unfold byteAt
  split
  · rename_i held
    exact .ok (Array.getElem?_eq_some_iff.mp held).1 trivial
  · rename_i missing
    exact .truncated (Array.getElem?_eq_none_iff.mp missing) (Nat.lt_succ_self offset)

theorem u8At_reads : body.Reads lookups (offset + 1) (fun _ => True) (body.u8At offset) := by
  have byte := body.byteAt_reads lookups offset
  unfold u8At
  rw [map_eq_pure_bind]
  exact byte.andThen fun _ _ inside => .ok inside trivial

theorem i8At_reads : body.Reads lookups (offset + 1) (fun _ => True) (body.i8At offset) :=
  (body.u8At_reads lookups offset).andThen fun _ _ inside => .ok inside trivial

theorem u16At_reads : body.Reads lookups (offset + 2) (fun _ => True) (body.u16At offset) :=
  (body.u8At_reads False offset).bind (by omega) fun _ _ _ =>
    (body.u8At_reads lookups (offset + 1)).andThen fun _ _ inside => .ok inside trivial

theorem i16At_reads : body.Reads lookups (offset + 2) (fun _ => True) (body.i16At offset) :=
  (body.u16At_reads lookups offset).andThen fun _ _ inside => .ok inside trivial

theorem i32At_reads : body.Reads lookups (offset + 4) (fun _ => True) (body.i32At offset) :=
  (body.u16At_reads False offset).bind (by omega) fun _ _ _ =>
    (body.u16At_reads lookups (offset + 2)).andThen fun _ _ inside => .ok inside trivial

theorem tableCases_reads (key : Int) (count : Nat) {cursor : Nat} (inside : cursor ≤ body.size) :
    body.Reads lookups (cursor + 4 * count) (fun _ => True) (body.tableCases key cursor count) := by
  induction count generalizing key cursor with
  | zero => exact .ok inside trivial
  | succ count ih =>
    refine (body.i32At_reads False cursor).bind (by omega) fun _ _ inside => ?_
    have shifted : cursor + 4 + 4 * count = cursor + 4 * (count + 1) := by omega
    rw [← shifted]
    exact (ih (key + 1) inside).andThen fun _ _ inside => .ok inside trivial

theorem lookupCases_reads (count : Nat) {cursor : Nat} (inside : cursor ≤ body.size) :
    body.Reads lookups (cursor + 8 * count) (fun _ => True) (body.lookupCases cursor count) := by
  induction count generalizing cursor with
  | zero => exact .ok inside trivial
  | succ count ih =>
    refine (body.i32At_reads False cursor).bind (by omega) fun _ _ _ => ?_
    refine (body.i32At_reads False (cursor + 4)).bind (by omega) fun _ _ inside => ?_
    have shifted : cursor + 4 + 4 + 8 * count = cursor + 8 * (count + 1) := by omega
    rw [← shifted]
    exact (ih inside).andThen fun _ _ inside => .ok inside trivial

end Readers

/-! Lookups read no code, so they are made once all bytes are there. -/
section Lookups

variable (inside : stop ≤ body.size)

include inside

theorem get_reads (pool : ConstantPool) (index : Nat) :
    body.Reads True stop (fun _ => True) (pool.get index) := by
  unfold ConstantPool.get
  split
  · exact .refused trivial inside nofun
  · split
    · exact .refused trivial inside nofun
    · exact .refused trivial inside nofun
    · exact .ok inside trivial

theorem entry_reads {pool : ConstantPool} {index : Nat} {select : PoolEntry → Except DecodeError α}
    (other : ∀ entry place, select entry ≠ .error (.truncated place)) :
    body.Reads True stop (fun _ => True) (pool.get index >>= select) := by
  refine (get_reads inside pool index).andThen fun entry _ inside => ?_
  cases selected : select entry with
  | ok value => exact .ok inside trivial
  | error error =>
    exact .refused trivial inside fun place same => other entry place (same ▸ selected)

theorem constant_reads (pool : ConstantPool) (index : Nat) :
    body.Reads True stop (fun _ => True) (pool.constant index) :=
  entry_reads inside fun entry place => by split <;> nofun

theorem fieldRef_reads (pool : ConstantPool) (index : Nat) :
    body.Reads True stop (fun _ => True) (pool.fieldRef index) :=
  entry_reads inside fun entry place => by split <;> nofun

theorem methodRef_reads (pool : ConstantPool) (index : Nat) :
    body.Reads True stop (fun _ => True) (pool.methodRef index) :=
  entry_reads inside fun entry place => by split <;> nofun

theorem className_reads (pool : ConstantPool) (index : Nat) :
    body.Reads True stop (fun _ => True) (pool.className index) :=
  entry_reads inside fun entry place => by split <;> nofun

theorem fieldKind_reads (text : String) :
    body.Reads True stop (fun _ => True) (fieldKind text) := by
  unfold fieldKind
  split
  · exact .ok inside trivial
  · exact .refused trivial inside nofun

theorem parse_reads (text : String) :
    body.Reads True stop (fun _ => True) (MethodDescriptor.parse text) := by
  unfold MethodDescriptor.parse
  split
  · exact .ok inside trivial
  · exact .refused trivial inside nofun

end Lookups

/-! ## Layouts -/

theorem lt_switchOperandsStart (offset : Nat) : offset < switchOperandsStart offset := by
  unfold switchOperandsStart
  omega

theorem tableSwitchAt_extent (offset : Nat) :
    body.Reads True (offset + Layout.extent body offset .tableSwitch)
      (fun decoded => decoded.2 = Layout.extent body offset .tableSwitch)
      (body.tableSwitchAt offset) := by
  have start := lt_switchOperandsStart offset
  have reach : offset + Layout.extent body offset .tableSwitch = switchOperandsStart offset + 12 +
      4 * body.tableKeys (switchOperandsStart offset) := by
    simp only [Layout.extent]
    omega
  rw [reach]
  refine (body.i32At_reads False _).bind (by omega) fun default _ _ => ?_
  refine (body.i32At_reads False _).bind (by omega) fun low lowRead _ => ?_
  refine (body.i32At_reads False _).bind (by omega) fun high highRead inside => ?_
  have keys : body.tableKeys (switchOperandsStart offset) = (high - low + 1).toNat := by
    simp only [tableKeys, lowRead, highRead]
  simp only [Layout.extent, keys]
  exact (body.tableCases_reads True low _ inside).andThen fun _ _ inside => .ok inside rfl

theorem lookupSwitchAt_extent (offset : Nat) :
    body.Reads True (offset + Layout.extent body offset .lookupSwitch)
      (fun decoded => decoded.2 = Layout.extent body offset .lookupSwitch)
      (body.lookupSwitchAt offset) := by
  have start := lt_switchOperandsStart offset
  have reach : offset + Layout.extent body offset .lookupSwitch = switchOperandsStart offset + 8 +
      8 * body.listedKeys (switchOperandsStart offset) := by
    simp only [Layout.extent]
    omega
  rw [reach]
  refine (body.i32At_reads False _).bind (by omega) fun default _ _ => ?_
  refine (body.i32At_reads False _).bind (by omega) fun count countRead inside => ?_
  have keys : body.listedKeys (switchOperandsStart offset) = count.toNat := by
    simp only [listedKeys, countRead]
  simp only [Layout.extent, keys]
  exact (body.lookupCases_reads True _ inside).andThen fun _ _ inside => .ok inside rfl

theorem widenedAt_extent (offset : Nat) :
    body.Reads True (offset + Layout.extent body offset .widened)
      (fun decoded => decoded.2 = Layout.extent body offset .widened) (body.widenedAt offset) := by
  have least : 4 ≤ Layout.extent body offset .widened := by
    simp only [Layout.extent]
    split <;> omega
  refine (body.byteAt_reads False _).bind (by omega) fun byte held _ => ?_
  refine (body.u16At_reads False _).bind (by omega) fun index _ inside => ?_
  simp only [Layout.extent, opcodeAt?_of_byteAt held]
  split
  · rename_i increment
    rw [increment]
    exact (body.i16At_reads True (offset + 4)).andThen fun _ _ inside => .ok inside rfl
  · rename_i other
    split
    · exact .ok inside rfl
    · exact .ok inside rfl
    · -- an opcode that increments a local can only be the one that was ruled out
      rename_i layout
      obtain ⟨opcode, known, layout⟩ := Option.map_eq_some_iff.mp layout
      rw [known, Opcode.eq_iinc_of_layout layout] at other
      exact absurd rfl other
    · exact .ok inside rfl
    · exact .refused trivial inside nofun

theorem skipped_lt_extent {layout : Layout} (counted : layout ≠ .unsupported 0) (offset : Nat) :
    layout.skipped < layout.extent body offset := by
  have start := lt_switchOperandsStart offset
  cases layout with
  | invoke kind => cases kind <;> simp [Layout.skipped, Layout.extent]
  | tableSwitch | lookupSwitch =>
    simp only [Layout.skipped, Layout.extent]
    omega
  | widened =>
    simp only [Layout.skipped, Layout.extent]
    split <;> decide
  | unsupported length =>
    have positive : length ≠ 0 := fun zero => counted (congrArg _ zero)
    simp only [Layout.skipped, Layout.extent]
    omega
  | _ => simp [Layout.skipped, Layout.extent]

theorem operationAt_extent {offset : Nat} (start : offset < body.size) {layout : Layout}
    (counted : layout ≠ .unsupported 0)
    (found : layout = .multiArray → ∀ index, body.u16At (offset + 1) = .ok index →
      ∃ name, body.pool.className index = .ok name) :
    body.Reads True (offset + layout.extent body offset - layout.skipped)
      (fun decoded => decoded.2 = layout.extent body offset) (body.operationAt offset layout) := by
  cases layout with
  | plain operation => exact .ok start rfl
  | byteImmediate =>
    exact (body.i8At_reads True (offset + 1)).andThen fun _ _ inside => .ok inside rfl
  | shortImmediate | branch | goto | jsr =>
    exact (body.i16At_reads True (offset + 1)).andThen fun _ _ inside => .ok inside rfl
  | loadLocal | storeLocal | ret =>
    exact (body.u8At_reads True (offset + 1)).andThen fun _ _ inside => .ok inside rfl
  | gotoWide | jsrWide =>
    exact (body.i32At_reads True (offset + 1)).andThen fun _ _ inside => .ok inside rfl
  | shortConstant =>
    refine (body.u8At_reads True (offset + 1)).andThen fun _ _ inside => ?_
    exact (constant_reads inside _ _).andThen fun _ _ inside => .ok inside rfl
  | constant =>
    refine (body.u16At_reads True (offset + 1)).andThen fun _ _ inside => ?_
    exact (constant_reads inside _ _).andThen fun _ _ inside => .ok inside rfl
  | incrementLocal =>
    refine (body.u8At_reads False (offset + 1)).bind (Nat.le_succ _) fun _ _ inside => ?_
    exact (body.i8At_reads True (offset + 2)).andThen fun _ _ inside => .ok inside rfl
  | field =>
    refine (body.u16At_reads True (offset + 1)).andThen fun _ _ inside => ?_
    refine (fieldRef_reads inside _ _).andThen fun _ _ inside => ?_
    exact (fieldKind_reads inside _).andThen fun _ _ inside => .ok inside rfl
  | invoke kind =>
    have looked : offset + Layout.extent body offset (.invoke kind) -
        Layout.skipped (.invoke kind) = offset + 1 + 2 := by
      cases kind <;> rfl
    rw [looked]
    refine (body.u16At_reads True (offset + 1)).andThen fun _ _ inside => ?_
    refine (methodRef_reads inside _ _).andThen fun _ _ inside => ?_
    exact (parse_reads inside _).andThen fun _ _ inside => .ok inside rfl
  | classOperand =>
    refine (body.u16At_reads True (offset + 1)).andThen fun _ _ inside => ?_
    exact (className_reads inside _ _).andThen fun _ _ inside => .ok inside rfl
  | primitiveArray =>
    refine (body.byteAt_reads True (offset + 1)).andThen fun _ _ inside => ?_
    split
    · exact .ok inside rfl
    · exact .refused trivial inside nofun
  | multiArray =>
    -- the only lookup before the last read: if it failed, a missing byte would go unnoticed
    refine (body.u16At_reads False (offset + 1)).bind (Nat.le_succ _) fun index read inside => ?_
    obtain ⟨name, named⟩ := found rfl index read
    rw [named]
    exact (body.u8At_reads True (offset + 3)).andThen fun _ _ inside => .ok inside rfl
  | tableSwitch => exact tableSwitchAt_extent offset
  | lookupSwitch => exact lookupSwitchAt_extent offset
  | widened => exact widenedAt_extent offset
  | unsupported length =>
    have positive : length ≠ 0 := fun zero => counted (congrArg _ zero)
    refine .ok ?_ rfl
    simp only [Layout.extent, Layout.skipped]
    omega

variable (body)

/-! ## Instructions -/

/-- The instruction makes an array of arrays of a class that the pool does not have. -/
def UnknownClass (offset : Nat) : Prop :=
  body.opcodeAt? offset = some .multianewarray ∧ ∃ index error,
    body.u16At (offset + 1) = .ok index ∧ body.pool.className index = .error error

theorem skipped_of_opcodeAt? {offset : Nat} {opcode : Opcode}
    (held : body.opcodeAt? offset = some opcode) : body.skipped offset = opcode.layout.skipped := by
  rw [skipped, held]
  cases opcode <;> rfl

theorem skipped_lt (offset : Nat) : body.skipped offset < body.extent offset := by
  cases held : body.opcodeAt? offset with
  | none => simp [skipped, extent, held]
  | some opcode =>
    rw [body.skipped_of_opcodeAt? held, extent, held]
    exact skipped_lt_extent opcode.layout_counted offset

variable {body}

theorem decode_extent {offset : Nat} (known : ¬body.UnknownClass offset) :
    body.Reads True (offset + body.extent offset - body.skipped offset)
      (fun instruction => instruction.length = body.extent offset) (body.decode offset) := by
  have looked := body.skipped_lt offset
  refine (body.byteAt_reads False offset).bind (by omega) fun byte held start => ?_
  have opcodeHeld := opcodeAt?_of_byteAt held
  cases decoded : Opcode.ofByte? byte with
  | none =>
    simp only [extent, skipped, opcodeHeld, decoded]
    exact .ok start rfl
  | some opcode =>
    rw [body.skipped_of_opcodeAt? (opcodeHeld.trans decoded)]
    simp only [extent, opcodeHeld, decoded]
    refine (operationAt_extent start opcode.layout_counted ?_).andThen fun _ length inside =>
      .ok inside length
    intro layout index read
    rw [decoded, Opcode.eq_multianewarray_of_layout layout] at opcodeHeld
    cases named : body.pool.className index with
    | ok name => exact ⟨name, rfl⟩
    | error error => exact absurd ⟨opcodeHeld, index, error, read, named⟩ known

theorem byteAt_of_opcodeAt? {offset : Nat} {opcode : Opcode}
    (held : body.opcodeAt? offset = some opcode) :
    ∃ byte, body.byteAt offset = .ok byte ∧ Opcode.ofByte? byte = some opcode := by
  obtain ⟨byte, there, known⟩ := Option.bind_eq_some_iff.mp held
  exact ⟨byte, by simp only [byteAt, there], known⟩

/-- The class is looked for before the number of dimensions is read. -/
theorem decode_unknownClass {offset : Nat} (unknown : body.UnknownClass offset) :
    ∃ error, body.decode offset = .error error ∧ ∀ place, error ≠ .truncated place := by
  obtain ⟨held, index, error, read, refused⟩ := unknown
  obtain ⟨byte, there, known⟩ := byteAt_of_opcodeAt? held
  refine ⟨error, ?_, ?_⟩
  · have failed : body.operationAt offset .multiArray = .error error := by
      simp only [operationAt, read, Bind.bind, Except.bind, refused]
    have layout : Opcode.multianewarray.layout = .multiArray := rfl
    simp only [decode, there, Bind.bind, Except.bind, known, layout, failed]
  · have lookup := className_reads (Nat.zero_le body.size) body.pool index
    rw [refused] at lookup
    cases lookup with
    | truncated _ before => cases before
    | refused _ _ other => exact other

theorem decode_length_pos {offset : Nat} {instruction : Instruction}
    (decoded : body.decode offset = .ok instruction) : 0 < instruction.length := by
  have known : ¬body.UnknownClass offset := by
    intro unknown
    obtain ⟨error, refused, _⟩ := decode_unknownClass unknown
    cases refused.symm.trans decoded
  have reads := decode_extent known
  rw [decoded] at reads
  cases reads with
  | ok _ length => exact length ▸ Nat.zero_lt_of_lt (body.skipped_lt offset)

/-- A decoded instruction takes as many bytes as its format says, and all of them are in the code
but those that are skipped. It is cut short exactly if a byte that is not skipped is missing, unless
its class is found to be unknown before, and the reported place is that of a missing byte. -/
theorem decode_inside_unless_skipped (body : MethodBody) (offset : Nat) :
    (∀ instruction, body.decode offset = .ok instruction →
      1 ≤ instruction.length ∧ instruction.length = body.extent offset ∧
      offset + instruction.length ≤ body.size + body.skipped offset) ∧
    ((∃ place, body.decode offset = .error (.truncated place)) ↔
      body.size + body.skipped offset < offset + body.extent offset ∧
        ¬body.UnknownClass offset) ∧
    (∀ place, body.decode offset = .error (.truncated place) →
      body.size ≤ place ∧ place < offset + body.extent offset) := by
  have looked := body.skipped_lt offset
  by_cases unknown : body.UnknownClass offset
  · obtain ⟨error, refused, other⟩ := decode_unknownClass unknown
    rw [refused]
    refine ⟨?_, ?_, ?_⟩
    · intro instruction decoded
      cases decoded
    · simp [unknown, other]
    · intro place cut
      cases cut
      exact absurd rfl (other place)
  · have reads := decode_extent unknown
    refine ⟨?_, ?_, ?_⟩
    · intro instruction decoded
      rw [decoded] at reads
      cases reads with
      | ok inside length => omega
    · rw [reads.truncated_iff, and_iff_left unknown]
      omega
    · intro place cut
      rw [cut] at reads
      cases reads with
      | truncated past before => omega
      | refused _ _ other => exact absurd rfl (other place)

end MethodBody

def listedKey : MethodBody where
  code := #[0, 171, 0, 0, 0, 0, 0, 20, 0, 0, 0, 1, 255, 255, 255, 255, 0, 0, 0, 19]
  pool := .empty

def listedKeyCut : MethodBody where
  code := #[0, 171, 0, 0, 0, 0, 0, 20, 0, 0, 0, 1, 255, 255, 255, 255, 0, 0, 0]
  pool := .empty

theorem decode_inside_unless_skipped_listed :
    (∃ instruction, listedKey.decode 1 = .ok instruction ∧ instruction.length = 19 ∧
      1 + instruction.length ≤ listedKey.size) ∧
    ∃ place, listedKeyCut.decode 1 = .error (.truncated place) ∧ 19 ≤ place ∧ place < 20 := by
  have held : listedKey.Holds 1 [Opcode.lookupswitch.byte] := ⟨rfl, trivial⟩
  have start : switchOperandsStart 1 = 4 := rfl
  have default : listedKey.i32At 4 = .ok 20 := by decide
  have count : listedKey.i32At 8 = .ok 1 := by decide
  have key : listedKey.i32At 12 = .ok (-1) := by decide
  have target : listedKey.i32At 16 = .ok 19 := by decide
  have switch : listedKey.lookupSwitchAt 1 = .ok (.switch ⟨20, [(-1, 19)]⟩, 19) := by
    simp [MethodBody.lookupSwitchAt, MethodBody.lookupCases, start, default, count, key, target,
      Bind.bind, Except.bind, Pure.pure, Except.pure]
  have whole := (MethodBody.decode_inside_unless_skipped listedKey 1).1 _ (held.decode switch)
  obtain ⟨_, cut, places⟩ := MethodBody.decode_inside_unless_skipped listedKeyCut 1
  have extent : listedKeyCut.extent 1 = 19 := by decide
  obtain ⟨place, short⟩ := cut.mpr ⟨by rw [extent]; decide, by rintro ⟨⟨⟩, _⟩⟩
  exact ⟨⟨_, held.decode switch, rfl, whole.2.2⟩, place, short, places place short⟩

def interfaceCallCut : MethodBody where
  code := #[185, 0, 1]
  pool := ⟨#[.interfaceMethodRef ⟨"A", "m", "()V"⟩]⟩

/-- A call of an interface without its last two bytes, and a dynamic call without its operands, are
decoded as if these were there. An unknown class hides that the number of dimensions is missing. -/
theorem missing_bytes_accepted :
    interfaceCallCut.decode 0 = .ok ⟨0, 185, some .invokeinterface, 5,
      .effect (.invoke .interface ⟨"A", "m", "()V"⟩ ⟨[], none⟩)⟩ ∧
    (⟨#[186], .empty⟩ : MethodBody).decode 0 =
      .ok ⟨0, 186, some .invokedynamic, 5, .unsupported⟩ ∧
    (⟨#[197, 0, 0], .empty⟩ : MethodBody).decode 0 = .error (.poolIndex 0) := by
  refine ⟨?_, rfl, rfl⟩
  have held : interfaceCallCut.Holds 0 [Opcode.invokeinterface.byte] := ⟨rfl, trivial⟩
  have read : interfaceCallCut.u16At 1 = .ok 1 := by decide
  have found : interfaceCallCut.pool.methodRef 1 = .ok ⟨"A", "m", "()V"⟩ := rfl
  have parsed : MethodDescriptor.parse "()V" = .ok ⟨[], none⟩ := by decide +kernel
  have layout : Opcode.invokeinterface.layout = .invoke .interface := rfl
  refine held.decode ?_
  simp only [layout, MethodBody.operationAt, read, found, parsed, Bind.bind, Except.bind]
  rfl

end MethodFlow

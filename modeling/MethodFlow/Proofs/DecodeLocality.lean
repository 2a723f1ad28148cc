import MethodFlow.Proofs.Failure
import MethodFlow.Proofs.InstructionExtent

/-! Decoding looks at the bytes of the instruction and at nothing else of the code. What was decoded
stays decoded in every body with the same pool that has these bytes at their places, whatever is
appended or written over elsewhere. -/
namespace MethodFlow

/-- A body has the pool of another, and its bytes from a start up to a stop, as far as they go. -/
structure MethodBody.Shares (p q : MethodBody) (start stop : Nat) : Prop where
  pool : q.pool = p.pool
  bytes : ∀ place byte, start ≤ place → place < stop → p.code[place]? = some byte →
    q.code[place]? = some byte

namespace MethodBody.Shares

variable {p q : MethodBody} {start stop place : Nat}

section Readers

variable (shares : p.Shares q start stop) (above : start ≤ place)

include shares above

theorem byteAt {byte : UInt8} (below : place + 1 ≤ stop) (read : p.byteAt place = .ok byte) :
    q.byteAt place = .ok byte := by
  unfold MethodBody.byteAt at read
  split at read
  · rename_i held
    cases read
    simp only [MethodBody.byteAt, shares.bytes place byte above below held]
  · cases read

theorem u8At {value : Nat} (below : place + 1 ≤ stop) (read : p.u8At place = .ok value) :
    q.u8At place = .ok value := by
  obtain ⟨byte, held, made⟩ := map_eq_ok.mp read
  exact map_eq_ok.mpr ⟨byte, shares.byteAt above below held, made⟩

theorem i8At {value : Int} (below : place + 1 ≤ stop) (read : p.i8At place = .ok value) :
    q.i8At place = .ok value := by
  obtain ⟨byte, held, made⟩ := bind_eq_ok.mp read
  exact bind_eq_ok.mpr ⟨byte, shares.u8At above below held, made⟩

theorem u16At {value : Nat} (below : place + 2 ≤ stop) (read : p.u16At place = .ok value) :
    q.u16At place = .ok value := by
  simp only [MethodBody.u16At, bind_eq_ok] at read ⊢
  obtain ⟨high, highRead, low, lowRead, made⟩ := read
  exact ⟨high, shares.u8At above (by omega) highRead,
    low, shares.u8At (by omega) (by omega) lowRead, made⟩

theorem i16At {value : Int} (below : place + 2 ≤ stop) (read : p.i16At place = .ok value) :
    q.i16At place = .ok value := by
  obtain ⟨word, held, made⟩ := bind_eq_ok.mp read
  exact bind_eq_ok.mpr ⟨word, shares.u16At above below held, made⟩

theorem i32At {value : Int} (below : place + 4 ≤ stop) (read : p.i32At place = .ok value) :
    q.i32At place = .ok value := by
  simp only [MethodBody.i32At, bind_eq_ok] at read ⊢
  obtain ⟨high, highRead, low, lowRead, made⟩ := read
  exact ⟨high, shares.u16At above (by omega) highRead,
    low, shares.u16At (by omega) (by omega) lowRead, made⟩

end Readers

/-! The cases of a switch are read one after another, each where the one before ended. -/
section Tables

variable (shares : p.Shares q start stop) {cases : List (Int × Int)} {count : Nat}

include shares

theorem tableCases {key : Int} (above : start ≤ place) (below : place + 4 * count ≤ stop)
    (read : p.tableCases key place count = .ok cases) :
    q.tableCases key place count = .ok cases := by
  induction count generalizing key place cases with
  | zero => exact read
  | succ count ih =>
    simp only [MethodBody.tableCases, bind_eq_ok] at read ⊢
    obtain ⟨target, targetRead, rest, restRead, made⟩ := read
    exact ⟨target, shares.i32At above (by omega) targetRead,
      rest, ih (by omega) (by omega) restRead, made⟩

theorem lookupCases (above : start ≤ place) (below : place + 8 * count ≤ stop)
    (read : p.lookupCases place count = .ok cases) : q.lookupCases place count = .ok cases := by
  induction count generalizing place cases with
  | zero => exact read
  | succ count ih =>
    simp only [MethodBody.lookupCases, bind_eq_ok] at read ⊢
    obtain ⟨key, keyRead, target, targetRead, rest, restRead, made⟩ := read
    exact ⟨key, shares.i32At above (by omega) keyRead,
      target, shares.i32At (by omega) (by omega) targetRead,
      rest, ih (by omega) (by omega) restRead, made⟩

end Tables

variable {offset length : Nat} {operation : Operation}
  (shares : p.Shares q offset (offset + length))

include shares

theorem tableSwitchAt (read : p.tableSwitchAt offset = .ok (operation, length)) :
    q.tableSwitchAt offset = .ok (operation, length) := by
  have start := lt_switchOperandsStart offset
  simp only [MethodBody.tableSwitchAt, bind_eq_ok] at read ⊢
  obtain ⟨default, defaultRead, low, lowRead, high, highRead, cases, casesRead, made⟩ := read
  cases made
  exact ⟨default, shares.i32At (by omega) (by omega) defaultRead,
    low, shares.i32At (by omega) (by omega) lowRead,
    high, shares.i32At (by omega) (by omega) highRead,
    cases, shares.tableCases (by omega) (by omega) casesRead, rfl⟩

theorem lookupSwitchAt (read : p.lookupSwitchAt offset = .ok (operation, length)) :
    q.lookupSwitchAt offset = .ok (operation, length) := by
  have start := lt_switchOperandsStart offset
  simp only [MethodBody.lookupSwitchAt, bind_eq_ok] at read ⊢
  obtain ⟨default, defaultRead, count, countRead, cases, casesRead, made⟩ := read
  cases made
  exact ⟨default, shares.i32At (by omega) (by omega) defaultRead,
    count, shares.i32At (by omega) (by omega) countRead,
    cases, shares.lookupCases (by omega) (by omega) casesRead, rfl⟩

theorem widenedAt (read : p.widenedAt offset = .ok (operation, length)) :
    q.widenedAt offset = .ok (operation, length) := by
  -- the index is read before it is known which opcode is widened
  have enough : 4 ≤ length := by
    have reads : p.Reads True _ _ (p.widenedAt offset) := widenedAt_extent offset
    rw [read] at reads
    cases reads with
    | ok _ counted =>
      have same : length = Layout.extent p offset .widened := counted
      rw [same, Layout.extent]
      split <;> decide
  simp only [MethodBody.widenedAt, bind_eq_ok] at read ⊢
  obtain ⟨byte, byteRead, index, indexRead, made⟩ := read
  refine ⟨byte, shares.byteAt (by omega) (by omega) byteRead,
    index, shares.u16At (by omega) (by omega) indexRead, ?_⟩
  revert made
  split
  · exact id
  · exact id
  · intro made
    obtain ⟨delta, deltaRead, made⟩ := bind_eq_ok.mp made
    cases made
    exact bind_eq_ok.mpr ⟨delta, shares.i16At (by omega) (by omega) deltaRead, rfl⟩
  · exact id
  · exact id

theorem operationAt {layout : Layout}
    (read : p.operationAt offset layout = .ok (operation, length)) :
    q.operationAt offset layout = .ok (operation, length) := by
  have pool := shares.pool
  cases layout with
  | plain | unsupported => exact read
  | byteImmediate =>
    obtain ⟨value, valueRead, made⟩ := bind_eq_ok.mp read
    cases made
    exact bind_eq_ok.mpr ⟨value, shares.i8At (by omega) (by omega) valueRead, rfl⟩
  | shortImmediate | branch | goto | jsr =>
    obtain ⟨value, valueRead, made⟩ := bind_eq_ok.mp read
    cases made
    exact bind_eq_ok.mpr ⟨value, shares.i16At (by omega) (by omega) valueRead, rfl⟩
  | gotoWide | jsrWide =>
    obtain ⟨value, valueRead, made⟩ := bind_eq_ok.mp read
    cases made
    exact bind_eq_ok.mpr ⟨value, shares.i32At (by omega) (by omega) valueRead, rfl⟩
  | loadLocal | storeLocal | ret =>
    obtain ⟨index, indexRead, made⟩ := bind_eq_ok.mp read
    cases made
    exact bind_eq_ok.mpr ⟨index, shares.u8At (by omega) (by omega) indexRead, rfl⟩
  | incrementLocal =>
    simp only [MethodBody.operationAt, bind_eq_ok] at read ⊢
    obtain ⟨index, indexRead, delta, deltaRead, made⟩ := read
    cases made
    exact ⟨index, shares.u8At (by omega) (by omega) indexRead,
      delta, shares.i8At (by omega) (by omega) deltaRead, rfl⟩
  | shortConstant =>
    simp only [MethodBody.operationAt, bind_eq_ok, pool] at read ⊢
    obtain ⟨index, indexRead, constant, found, made⟩ := read
    cases made
    exact ⟨index, shares.u8At (by omega) (by omega) indexRead, constant, found, rfl⟩
  | constant | classOperand =>
    simp only [MethodBody.operationAt, bind_eq_ok, pool] at read ⊢
    obtain ⟨index, indexRead, entry, found, made⟩ := read
    cases made
    exact ⟨index, shares.u16At (by omega) (by omega) indexRead, entry, found, rfl⟩
  | field =>
    simp only [MethodBody.operationAt, bind_eq_ok, pool] at read ⊢
    obtain ⟨index, indexRead, field, found, kind, stated, made⟩ := read
    cases made
    exact ⟨index, shares.u16At (by omega) (by omega) indexRead, field, found, kind, stated, rfl⟩
  | invoke invocation =>
    simp only [MethodBody.operationAt, bind_eq_ok, pool] at read ⊢
    obtain ⟨index, indexRead, method, found, descriptor, stated, made⟩ := read
    have enough : 3 ≤ length := by
      cases made
      split <;> decide
    exact ⟨index, shares.u16At (by omega) (by omega) indexRead, method, found, descriptor, stated,
      made⟩
  | primitiveArray =>
    obtain ⟨code, codeRead, made⟩ := bind_eq_ok.mp read
    have enough : 2 ≤ length := by
      split at made
      · cases made
        decide
      · cases made
    exact bind_eq_ok.mpr ⟨code, shares.byteAt (by omega) (by omega) codeRead, made⟩
  | multiArray =>
    simp only [MethodBody.operationAt, bind_eq_ok, pool] at read ⊢
    obtain ⟨index, indexRead, name, found, dimensions, dimensionsRead, made⟩ := read
    cases made
    exact ⟨index, shares.u16At (by omega) (by omega) indexRead, name, found,
      dimensions, shares.u8At (by omega) (by omega) dimensionsRead, rfl⟩
  | tableSwitch => exact shares.tableSwitchAt read
  | lookupSwitch => exact shares.lookupSwitchAt read
  | widened => exact shares.widenedAt read

end MethodBody.Shares

namespace MethodBody

variable {p q : MethodBody} {offset : Nat} {instruction : Instruction}

theorem Shares.decode (shares : p.Shares q offset (offset + instruction.length))
    (decoded : p.decode offset = .ok instruction) : q.decode offset = .ok instruction := by
  -- no instruction is empty, so its opcode is among the shared bytes
  have counted := decode_length_pos decoded
  simp only [MethodBody.decode, bind_eq_ok] at decoded ⊢
  obtain ⟨byte, held, made⟩ := decoded
  refine ⟨byte, shares.byteAt (by omega) (by omega) held, ?_⟩
  revert made
  split
  · exact id
  · intro made
    obtain ⟨⟨operation, length⟩, read, made⟩ := bind_eq_ok.mp made
    cases made
    exact bind_eq_ok.mpr ⟨_, shares.operationAt read, rfl⟩

end MethodBody

theorem Assembly.getElem?_overwrite {code : Array UInt8} {site place : Nat} {bytes : List UInt8}
    (outside : place < site ∨ site + bytes.length ≤ place) :
    (overwrite code site bytes)[place]? = code[place]? := by
  induction bytes generalizing code site with
  | nil => rfl
  | cons byte rest ih =>
    rw [List.length_cons] at outside
    rw [overwrite, ih (by omega), Array.getElem?_setIfInBounds_ne (by omega)]

/-- An instruction that was decoded is decoded again from every body with the same pool and the same
bytes in its place, as far as there were any. So it outlasts whatever is appended to the code, and
whatever is written over other parts of it. -/
theorem MethodBody.decode_local {p : MethodBody} {offset : Nat} {instruction : Instruction}
    (decoded : p.decode offset = .ok instruction) :
    (∀ q : MethodBody, q.pool = p.pool →
      (∀ place byte, offset ≤ place → place < offset + instruction.length →
        p.code[place]? = some byte → q.code[place]? = some byte) →
      q.decode offset = .ok instruction) ∧
    (∀ more, decode ⟨p.code ++ more, p.pool⟩ offset = .ok instruction) ∧
    (∀ site bytes, site + bytes.length ≤ offset ∨ offset + instruction.length ≤ site →
      decode ⟨Assembly.overwrite p.code site bytes, p.pool⟩ offset = .ok instruction) := by
  refine ⟨fun q pool bytes => Shares.decode ⟨pool, bytes⟩ decoded, ?_, ?_⟩
  · intro more
    have shares : p.Shares ⟨p.code ++ more, p.pool⟩ offset (offset + instruction.length) := by
      refine ⟨rfl, fun place byte _ _ held => ?_⟩
      have inside := (Array.getElem?_eq_some_iff.mp held).1
      exact (Array.getElem?_append_left inside).trans held
    exact shares.decode decoded
  · intro site bytes elsewhere
    have shares : p.Shares ⟨Assembly.overwrite p.code site bytes, p.pool⟩ offset
        (offset + instruction.length) := by
      refine ⟨rfl, fun place byte above below held => ?_⟩
      exact (Assembly.getElem?_overwrite (by omega)).trans held
    exact shares.decode decoded

def twoKeys : MethodBody where
  code := #[0, 170, 0, 0, 0, 0, 0, 23, 0, 0, 0, 7, 0, 0, 0, 8, 0, 0, 0, 23, 255, 255, 255, 255]
  pool := .empty

/-- A switch is decoded as before when the byte in front of it changes and others follow; so is a
dynamic call whose operands were missing. -/
theorem decode_local_switch :
    let switch : Instruction :=
      ⟨1, 170, some .tableswitch, 23, .switch ⟨23, [(7, 23), (8, -1)]⟩⟩
    twoKeys.decode 1 = .ok switch ∧
      (∀ more, MethodBody.decode ⟨twoKeys.code ++ more, .empty⟩ 1 = .ok switch) ∧
      MethodBody.decode ⟨Assembly.overwrite twoKeys.code 0 [3], .empty⟩ 1 = .ok switch ∧
      MethodBody.decode ⟨#[186, 0, 1, 0, 0], .empty⟩ 0 =
        .ok ⟨0, 186, some .invokedynamic, 5, .unsupported⟩ := by
  intro switch
  have held : twoKeys.Holds 1 [Opcode.tableswitch.byte] := ⟨rfl, trivial⟩
  have start : switchOperandsStart 1 = 4 := rfl
  have default : twoKeys.i32At 4 = .ok 23 := by decide
  have low : twoKeys.i32At 8 = .ok 7 := by decide
  have high : twoKeys.i32At 12 = .ok 8 := by decide
  have first : twoKeys.i32At 16 = .ok 23 := by decide
  have second : twoKeys.i32At 20 = .ok (-1) := by decide
  have read : twoKeys.tableSwitchAt 1 = .ok (switch.operation, 23) := by
    simp [MethodBody.tableSwitchAt, MethodBody.tableCases, start, default, low, high, first, second,
      Bind.bind, Except.bind, Pure.pure, Except.pure, switch]
  have decoded : twoKeys.decode 1 = .ok switch := held.decode read
  obtain ⟨_, appended, patched⟩ := MethodBody.decode_local decoded
  have cut : (⟨#[186], .empty⟩ : MethodBody).decode 0 =
      .ok ⟨0, 186, some .invokedynamic, 5, .unsupported⟩ := rfl
  refine ⟨decoded, appended, patched 0 [3] (.inl (by decide)), ?_⟩
  refine (MethodBody.decode_local cut).1 _ rfl fun place byte _ _ there => ?_
  -- the one byte that was there
  obtain rfl : place = 0 := Nat.lt_one_iff.mp (Array.getElem?_eq_some_iff.mp there).1
  exact there

end MethodFlow

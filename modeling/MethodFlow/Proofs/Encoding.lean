import MethodFlow.Proofs.Emission

/-! Each directive is encoded: by one lemma for each way in which an assembly emits, with the short
and the long forms of an instruction as cases of it. -/
namespace MethodFlow

theorem Assembly.ldc_eq (assembly : Assembly) (constant : Constant) :
    assembly.ldc constant =
      { assembly with pool := (assembly.pool.intern (.constant constant)).2 }.append
        (if constant.isWide then
          Opcode.ldc2W.byte :: bytes16 (assembly.pool.intern (.constant constant)).1.toNat
        else if (assembly.pool.intern (.constant constant)).1.toNat ≤ 255 then
          [Opcode.ldc.byte, (assembly.pool.intern (.constant constant)).1.toUInt8]
        else Opcode.ldcW.byte :: bytes16 (assembly.pool.intern (.constant constant)).1.toNat) := by
  simp only [Assembly.ldc]
  split
  · rfl
  · split <;> rfl

theorem Opcode.exists_iconst {value : Int} (least : -1 ≤ value) (greatest : value ≤ 5) :
    ∃ opcode : Opcode, opcode.byte = UInt8.ofInt (Opcode.iconst0.byte.toNat + value) ∧
      opcode.layout = .plain (.effect (.push (.int (Int32.ofInt value)))) := by
  have cases : value = -1 ∨ value = 0 ∨ value = 1 ∨ value = 2 ∨ value = 3 ∨ value = 4 ∨
      value = 5 := by omega
  rcases cases with rfl | rfl | rfl | rfl | rfl | rfl | rfl
  · exact ⟨.iconstM1, rfl, rfl⟩
  · exact ⟨.iconst0, rfl, rfl⟩
  · exact ⟨.iconst1, rfl, rfl⟩
  · exact ⟨.iconst2, rfl, rfl⟩
  · exact ⟨.iconst3, rfl, rfl⟩
  · exact ⟨.iconst4, rfl, rfl⟩
  · exact ⟨.iconst5, rfl, rfl⟩

/-! ## Tables of a switch -/

theorem Fills.switchDefault {directives : List Directive} {body : MethodBody} {origin default : Nat}
    {rest : List Piece} {bytes : List UInt8}
    (filled : Fills directives ((List.replicate (switchOperandsStart origin - (origin + 1)) 0).map
      .byte ++ .hole origin default true :: rest) bytes)
    (held : body.Holds (origin + 1) bytes) :
    ∃ relative others, body.i32At (switchOperandsStart origin) = .ok relative ∧
      Lands directives origin true default relative ∧ Fills directives rest others ∧
      body.Holds (switchOperandsStart origin + 4) others ∧
      origin + 1 + bytes.length = switchOperandsStart origin + 4 + others.length := by
  obtain ⟨operands, rfl, holes⟩ := Fills.bytes_append filled
  have start : origin + 1 ≤ switchOperandsStart origin := by
    unfold switchOperandsStart
    omega
  have aligned := (MethodBody.holds_append.mp held).2
  rw [List.length_replicate, Nat.add_sub_cancel' start] at aligned
  obtain ⟨relative, others, found, jumps, filledRest, heldRest, length⟩ := holes.operandAt aligned
  refine ⟨relative, others, found, jumps, filledRest, heldRest, ?_⟩
  rw [List.length_append, List.length_replicate, length, if_pos rfl]
  omega

/-- The number of keys is kept exactly if there are at most 2^31 of them and the last one fits in 32
bits, or the number before the least one if there are none. -/
theorem tableHigh_count_iff {low : Int32} {count : Nat} :
    (Assembly.tableHigh low.toInt count - low.toInt + 1).toNat = count ↔
      count ≤ 2147483648 ∧ -2147483648 ≤ low.toInt + count - 1 ∧
        low.toInt + count - 1 ≤ 2147483647 := by
  have cut : (Int32.ofNat count - 1).toInt = ((count : Int) - 1).bmod 4294967296 := by
    rw [Int32.toInt_sub]
    simp
  have least := low.le_toInt
  have greatest := low.toInt_lt
  rw [Assembly.tableHigh, cut, Int.bmod_def]
  split <;> omega

theorem Fills.tableKeys {directives : List Directive} {body : MethodBody} {cursor count : Nat}
    {low : Int32} {rest : List Piece} {bytes : List UInt8}
    (filled : Fills directives
      ((bytes32 low.toInt ++ bytes32 (Assembly.tableHigh low.toInt count)).map .byte ++ rest) bytes)
    (held : body.Holds cursor bytes) :
    body.i32At cursor = .ok low.toInt ∧
      body.i32At (cursor + 4) = .ok (Assembly.tableHigh low.toInt count) ∧
      ∃ others, Fills directives rest others ∧ body.Holds (cursor + 8) others ∧
        bytes.length = others.length + 8 := by
  obtain ⟨others, rfl, holes⟩ := Fills.bytes_append filled
  obtain ⟨keys, table⟩ := MethodBody.holds_append.mp held
  have least := low.le_toInt
  have greatest := low.toInt_lt
  have lowRead := keys.i32At
  have highHeld : body.Holds (cursor + 4)
      (bytes32 (Assembly.tableHigh low.toInt count) ++ []) := by
    simpa using (MethodBody.holds_append.mp keys).2
  have highRead := highHeld.i32At
  rw [bmod_of_fits_int (by omega) (by omega)] at lowRead
  rw [bmod_of_fits_int (by unfold Assembly.tableHigh; omega)
    (by unfold Assembly.tableHigh; omega)] at highRead
  refine ⟨lowRead, highRead, others, holes, table, ?_⟩
  rw [List.length_append, List.length_append, length_bytes32, length_bytes32]
  omega

theorem Fills.tableCases {directives : List Directive} {body : MethodBody} {origin cursor : Nat}
    {targets : List Nat} {bytes : List UInt8} (key : Int)
    (filled : Fills directives (targets.flatMap fun goal => [.hole origin goal true]) bytes)
    (held : body.Holds cursor bytes) :
    bytes.length = 4 * targets.length ∧
      ∃ cases, body.tableCases key cursor targets.length = .ok cases ∧
        cases.map Prod.fst = (List.range targets.length).map (fun step : Nat => key + step) ∧
        List.Forall₂ (Lands directives origin true) targets (cases.map Prod.snd) := by
  induction targets generalizing cursor bytes key with
  | nil =>
    cases filled
    exact ⟨rfl, [], rfl, rfl, .nil⟩
  | cons goal rest ih =>
    obtain ⟨relative, others, found, jumps, filledRest, heldRest, length⟩ :=
      Fills.operandAt filled held
    obtain ⟨count, cases, read, keys, goals⟩ := ih (key + 1) filledRest heldRest
    refine ⟨?_, (key, relative) :: cases, ?_, ?_, .cons jumps goals⟩
    · rw [length, count, if_pos rfl, List.length_cons]
      omega
    · have first : body.i32At cursor = .ok relative := found
      have others : body.tableCases (key + 1) (cursor + 4) rest.length = .ok cases := read
      simp only [List.length_cons, MethodBody.tableCases, first, others, Bind.bind, Except.bind]
      rfl
    · rw [List.map_cons, keys, List.length_cons, List.range_succ_eq_map, List.map_cons,
        List.map_map]
      refine congrArg₂ List.cons (by simp) (List.map_congr_left fun step _ => ?_)
      simp only [Function.comp_apply, Nat.succ_eq_add_one, Nat.cast_add, Nat.cast_one]
      omega

theorem Fills.lookupCases {directives : List Directive} {body : MethodBody} {origin cursor : Nat}
    {sorted : List (Int32 × Nat)} {bytes : List UInt8}
    (filled : Fills directives
      (sorted.flatMap fun case => (bytes32 case.1.toInt).map .byte ++ [.hole origin case.2 true])
      bytes)
    (held : body.Holds cursor bytes) :
    bytes.length = 8 * sorted.length ∧
      ∃ cases, body.lookupCases cursor sorted.length = .ok cases ∧
        cases.map Prod.fst = sorted.map (·.1.toInt) ∧
        List.Forall₂ (Lands directives origin true) (sorted.map Prod.snd)
          (cases.map Prod.snd) := by
  induction sorted generalizing cursor bytes with
  | nil =>
    cases filled
    exact ⟨rfl, [], rfl, rfl, .nil⟩
  | cons case rest ih =>
    obtain ⟨key, goal⟩ := case
    have least := key.le_toInt
    have greatest := key.toInt_lt
    rw [List.flatMap_cons, List.append_assoc] at filled
    obtain ⟨operand, rfl, holes⟩ := Fills.bytes_append filled
    have keyRead : body.i32At cursor = .ok (key.toInt.bmod 4294967296) := held.i32At
    rw [bmod_of_fits_int (by omega) (by omega)] at keyRead
    have operandHeld : body.Holds (cursor + 4) operand := (MethodBody.holds_append.mp held).2
    obtain ⟨relative, others, found, jumps, filledRest, heldRest, length⟩ :=
      Fills.operandAt holes operandHeld
    obtain ⟨count, cases, read, keys, goals⟩ := ih filledRest heldRest
    refine ⟨?_, (key.toInt, relative) :: cases, ?_, ?_, .cons jumps goals⟩
    · rw [List.length_append, length_bytes32, length, count, if_pos rfl, List.length_cons]
      omega
    · have first : body.i32At (cursor + 4) = .ok relative := found
      have others : body.lookupCases (cursor + 8) rest.length = .ok cases := read
      simp only [List.length_cons, MethodBody.lookupCases, keyRead, first, others, Bind.bind,
        Except.bind]
      rfl
    · rw [List.map_cons, keys, List.map_cons]

theorem mergeSort_toInt (cases : List (Int32 × Nat)) :
    (cases.map fun (key, label) => (key.toInt, label)).mergeSort
        (fun left right => left.1 ≤ right.1) =
      (cases.mergeSort fun left right => left.1.toInt ≤ right.1.toInt).map
        fun (key, label) => (key.toInt, label) := by
  symm
  apply List.map_mergeSort
  intro left _ right _
  rfl

theorem StablySorted.mergeSort (cases : List (Int32 × Nat)) :
    StablySorted cases (cases.mergeSort fun left right => left.1.toInt ≤ right.1.toInt) := by
  have transitive (a b c : Int32 × Nat) (first : decide (a.1.toInt ≤ b.1.toInt) = true)
      (second : decide (b.1.toInt ≤ c.1.toInt) = true) :
      decide (a.1.toInt ≤ c.1.toInt) = true := by
    simp only [decide_eq_true_eq] at first second ⊢
    omega
  have total (a b : Int32 × Nat) :
      (decide (a.1.toInt ≤ b.1.toInt) || decide (b.1.toInt ≤ a.1.toInt)) = true := by
    simp only [Bool.or_eq_true, decide_eq_true_eq]
    omega
  have perm := List.mergeSort_perm cases fun left right => left.1.toInt ≤ right.1.toInt
  refine ⟨perm, ?_, fun key => ?_⟩
  · exact (List.pairwise_mergeSort transitive total cases).imp of_decide_eq_true
  -- The cases of one key are a sublist that is in order already, so they stay in their order.
  · have ordered : (cases.filter (·.1 == key)).Pairwise fun left right =>
        decide (left.1.toInt ≤ right.1.toInt) = true := by
      refine List.pairwise_of_forall_mem_list fun left inLeft right inRight => ?_
      have leftKey : left.1 = key := by simpa using (List.mem_filter.mp inLeft).2
      have rightKey : right.1 = key := by simpa using (List.mem_filter.mp inRight).2
      rw [leftKey, rightKey]
      exact decide_eq_true (Int.le_refl _)
    have kept := (List.sublist_mergeSort transitive total ordered List.filter_sublist).filter
      (·.1 == key)
    rw [List.filter_filter] at kept
    simp only [Bool.and_self] at kept
    exact (kept.eq_of_length (perm.filter _).length_eq.symm).symm

/-! ## Instructions -/

namespace Encodes

variable {directives : List Directive} {assembly : Assembly}

theorem op {opcode : Opcode} {operation : Operation}
    (read : ∀ body : MethodBody,
      body.operationAt assembly.code.size opcode.layout = .ok (operation, 1)) :
    Encodes directives assembly (assembly.append [opcode.byte]) (· = operation) :=
  of_bytes (Emits.append assembly [opcode.byte]) fun body _ _ => ⟨operation, read body, rfl⟩

theorem bipush {value : Int} (least : -128 ≤ value) (greatest : value ≤ 127) :
    Encodes directives assembly (assembly.append [Opcode.bipush.byte, UInt8.ofInt value])
      (· = .effect (.push (.int (Int32.ofInt value)))) := by
  refine of_bytes (Emits.append assembly [Opcode.bipush.byte, UInt8.ofInt value])
    fun body held _ => ⟨_, ?_, rfl⟩
  have read : body.i8At (assembly.code.size + 1) = .ok value := by
    rw [held.i8At, bmod_ofInt_byte, bmod_of_fits_byte least greatest]
  show body.operationAt assembly.code.size .byteImmediate = _
  simp only [MethodBody.operationAt, read]
  rfl

theorem sipush {value : Int} (least : -32768 ≤ value) (greatest : value ≤ 32767) :
    Encodes directives assembly (assembly.append (Opcode.sipush.byte :: bytes16 value))
      (· = .effect (.push (.short (Int16.ofInt value)))) := by
  refine of_bytes (Emits.append assembly (Opcode.sipush.byte :: bytes16 value))
    fun body held _ => ⟨_, ?_, rfl⟩
  have operand : body.Holds (assembly.code.size + 1) (bytes16 value ++ []) := held
  have read : body.i16At (assembly.code.size + 1) = .ok value := by
    rw [operand.i16At, bmod_of_fits_short least greatest]
  show body.operationAt assembly.code.size .shortImmediate = _
  simp only [MethodBody.operationAt, read]
  rfl

/-- The three forms agree on what they load: the wide one is for wide constants, and the short one
for an index of one byte. -/
theorem ldc (constant : Constant) :
    Encodes directives assembly (assembly.ldc constant) fun operation =>
      ∃ stored, operation = .effect (.push (.pooled stored constant.isWide)) ∧
        stored.Same constant := by
  have indexed (opcode : Opcode) (layout : opcode.layout = .constant constant.isWide) :
      Encodes directives assembly
        ({ assembly with pool := (assembly.pool.intern (.constant constant)).2 }.append
          (opcode.byte :: bytes16 (assembly.pool.intern (.constant constant)).1.toNat))
        fun operation => ∃ stored, operation = .effect (.push (.pooled stored constant.isWide)) ∧
          stored.Same constant := by
    refine of_index (.constant constant) [] (Emits.interned assembly (.constant constant) _) rfl
      fun body index _ grown small => ?_
    obtain ⟨stored, found, same⟩ := ConstantPool.constant_intern grown small
    refine ⟨_, ?_, stored, rfl, same⟩
    simp only [layout, MethodBody.operationAt, index, Bind.bind, Except.bind, found]
    rfl
  rw [Assembly.ldc_eq]
  split
  · rename_i wide
    exact indexed .ldc2W (by rw [wide]; rfl)
  · rename_i narrow
    have single : constant.isWide = false := by simpa using narrow
    split
    · rename_i near
      refine of_bytes (Emits.interned assembly (.constant constant) _) fun body held readable => ?_
      obtain ⟨stored, found, same⟩ :=
        ConstantPool.constant_intern readable.pool readable.entries
      have index := held.u8At
      rw [UInt16.toNat_toUInt8, Nat.mod_eq_of_lt (Nat.lt_succ_of_le near)] at index
      refine ⟨_, ?_, stored, rfl, same⟩
      show body.operationAt assembly.code.size .shortConstant = _
      simp only [single, MethodBody.operationAt, index, Bind.bind, Except.bind, found]
      rfl
    · exact indexed .ldcW (by rw [single]; rfl)

theorem int (value : Int32) :
    Encodes directives assembly (assembly.int value.toInt) fun operation =>
      ∃ literal, operation = .effect (.push literal) ∧
        Word.ofLiteral literal = some (.ofInt32 value) := by
  have pushed : Word.ofLiteral (.int (Int32.ofInt value.toInt)) = some (.ofInt32 value) := by
    rw [Int32.ofInt_toInt]
    rfl
  unfold Assembly.int
  split
  · rename_i within
    obtain ⟨least, greatest⟩ : -1 ≤ value.toInt ∧ value.toInt ≤ 5 := by simpa using within
    obtain ⟨opcode, byte, layout⟩ := Opcode.exists_iconst least greatest
    rw [← byte]
    exact (op fun body => by rw [layout]; rfl).imp fun _ same => ⟨_, same, pushed⟩
  split
  · rename_i within
    obtain ⟨least, greatest⟩ : -128 ≤ value.toInt ∧ value.toInt ≤ 127 := by simpa using within
    exact (bipush least greatest).imp fun _ same => ⟨_, same, pushed⟩
  split
  · rename_i within
    obtain ⟨least, greatest⟩ : -32768 ≤ value.toInt ∧ value.toInt ≤ 32767 := by
      simpa using within
    refine (sipush least greatest).imp fun _ same => ⟨_, same, ?_⟩
    have widened : (Int16.ofInt value.toInt).toInt32 = value := by
      rw [Int16.toInt32_ofInt (by simpa using least) (by rw [Int16.toInt_maxValue]; omega),
        Int32.ofInt_toInt]
    rw [Word.ofLiteral, widened]
  · refine (ldc (.integer (Int32.ofInt value.toInt))).imp fun _ loaded => ?_
    obtain ⟨stored, same, equal⟩ := loaded
    refine ⟨_, same, ?_⟩
    cases stored with
    | integer found =>
      cases equal
      rw [Int32.ofInt_toInt]
      rfl
    | _ => cases equal

theorem localAccess {opcode : Opcode} {index : UInt16} {operation : Operation}
    (short : ∀ body : MethodBody, body.u8At (assembly.code.size + 1) = .ok index.toNat →
      body.operationAt assembly.code.size opcode.layout = .ok (operation, 2))
    (long : ∀ body : MethodBody, body.byteAt (assembly.code.size + 1) = .ok opcode.byte →
      body.u16At (assembly.code.size + 2) = .ok index.toNat →
      body.widenedAt assembly.code.size = .ok (operation, 4)) :
    Encodes directives assembly (assembly.localAccess opcode index.toNat) (· = operation) := by
  unfold Assembly.localAccess
  split
  · rename_i near
    refine of_bytes (Emits.append assembly _) fun body held _ => ⟨operation, ?_, rfl⟩
    have read := held.u8At
    rw [toNat_ofNat_byte near] at read
    exact short body read
  · refine of_bytes (Emits.append assembly _) fun body held _ => ⟨operation, ?_, rfl⟩
    have operand : body.Holds (assembly.code.size + 2) (bytes16 index.toNat ++ []) := held.2
    exact long body held.byteAt (operand.indexAt (Nat.le_of_lt_succ index.toNat_lt))

theorem iinc (index : UInt16) (delta : Int16) :
    Encodes directives assembly (assembly.iinc index.toNat delta.toInt)
      (· = .effect (.increment index.toNat delta.toInt32)) := by
  rw [← Int32.ofInt_int16ToInt]
  unfold Assembly.iinc
  split
  · rename_i within
    obtain ⟨⟨near, least⟩, greatest⟩ :
        (index.toNat ≤ 255 ∧ -128 ≤ delta.toInt) ∧ delta.toInt ≤ 127 := by simpa using within
    refine of_bytes (Emits.append assembly _) fun body held _ => ⟨_, ?_, rfl⟩
    have place := held.u8At
    have added := held.2.i8At
    rw [toNat_ofNat_byte near] at place
    rw [bmod_ofInt_byte, bmod_of_fits_byte least greatest] at added
    show body.operationAt assembly.code.size .incrementLocal = _
    simp only [MethodBody.operationAt, place, Bind.bind, Except.bind, added]
    rfl
  · refine of_bytes (Emits.append assembly _) fun body held _ => ⟨_, ?_, rfl⟩
    have operand : body.Holds (assembly.code.size + 2)
        (bytes16 index.toNat ++ (bytes16 delta.toInt ++ [])) := held.2
    have place := operand.indexAt (Nat.le_of_lt_succ index.toNat_lt)
    have added : body.i16At (assembly.code.size + 4) = _ :=
      MethodBody.Holds.i16At (MethodBody.holds_append.mp operand).2
    have least := delta.le_toInt
    have greatest := delta.toInt_lt
    rw [bmod_of_fits_short (by omega) (by omega)] at added
    show body.widenedAt assembly.code.size = _
    simp only [MethodBody.widenedAt, held.byteAt, Bind.bind, Except.bind, place,
      Opcode.ofByte?_byte, added]
    rfl

theorem branch {opcode : Opcode} {goal : Nat} {wide : Bool} {operation : Int → Operation}
    (read : ∀ (body : MethodBody) (relative : Int),
      body.operandAt wide (assembly.code.size + 1) = .ok relative →
      body.operationAt assembly.code.size opcode.layout =
        .ok (operation relative, (if wide then 4 else 2) + 1)) :
    Encodes directives assembly
      ((assembly.append [opcode.byte]).jump assembly.code.size goal wide) fun decoded =>
        ∃ relative, decoded = operation relative ∧
          Jumps directives assembly.code.size goal relative := by
  have emitted := (Emits.append assembly [opcode.byte]).trans
    (Emits.jump (assembly.append [opcode.byte]) assembly.code.size goal wide)
  refine ⟨opcode, [.hole assembly.code.size goal wide], emitted,
    fun body bytes filled held readable => ?_⟩
  obtain ⟨relative, others, operand, lands, none, _, length⟩ := filled.operandAt held
  cases none
  refine ⟨operation relative, ?_, relative, rfl, lands.jumps (readable.near goal)⟩
  rw [read body relative operand, length]
  simp

/-- What both switches share: padding up to the operands, and the default first. -/
theorem of_switch {opcode : Opcode} {default : Nat} {rest : List Piece} {after : Assembly}
    {means : Operation → Prop}
    (emitted : Emits ((assembly.openSwitch opcode).jump assembly.code.size default true) after rest)
    (read : ∀ (body : MethodBody) (bytes : List UInt8) (relative : Int),
      body.i32At (switchOperandsStart assembly.code.size) = .ok relative →
      Jumps directives assembly.code.size default relative → Fills directives rest bytes →
      body.Holds (switchOperandsStart assembly.code.size + 4) bytes → body.size < 2147483648 →
      (∀ goal, Near directives assembly.code.size goal) →
      ∃ operation, body.operationAt assembly.code.size opcode.layout =
        .ok (operation, switchOperandsStart assembly.code.size + 4 + bytes.length -
          assembly.code.size) ∧ means operation) :
    Encodes directives assembly after means := by
  have whole := ((Emits.append assembly _).trans (Emits.jump _ _ _ _)).trans emitted
  rw [List.append_assoc] at whole
  refine ⟨opcode, _, whole, fun body bytes filled held readable => ?_⟩
  obtain ⟨relative, further, found, lands, filledRest, heldRest, length⟩ :=
    Fills.switchDefault filled held
  obtain ⟨operation, decoded, meant⟩ := read body further relative found
    (lands.jumps (readable.near default)) filledRest heldRest readable.size readable.near
  refine ⟨operation, ?_, meant⟩
  rw [decoded]
  exact congrArg Except.ok (congrArg _ (by omega))

theorem tableswitch {low : Int32} {default : Nat} {targets : List Nat}
    (least : -2147483648 ≤ low.toInt + targets.length - 1)
    (greatest : low.toInt + targets.length - 1 ≤ 2147483647) :
    Encodes directives assembly (assembly.tableswitch low.toInt default targets)
      (Directive.Means directives assembly.code.size (.tableswitch low default targets)) := by
  have emitted : Emits ((assembly.openSwitch .tableswitch).jump assembly.code.size default true)
      (assembly.tableswitch low.toInt default targets)
      ((bytes32 low.toInt ++ bytes32 (Assembly.tableHigh low.toInt targets.length)).map .byte ++
        targets.flatMap fun goal => [.hole assembly.code.size goal true]) :=
    (Emits.append _ _).trans
      (Emits.foldl (fun current goal => Emits.jump current assembly.code.size goal true) _ targets)
  refine of_switch emitted fun body bytes relative first jumps filled held short near => ?_
  obtain ⟨lowRead, highRead, others, holes, table, size⟩ := Fills.tableKeys filled held
  obtain ⟨length, cases, read, keyed, goals⟩ := Fills.tableCases low.toInt holes table
  have count : (Assembly.tableHigh low.toInt targets.length - low.toInt + 1).toNat =
      targets.length := by
    have inside := table.length_le
    exact tableHigh_count_iff.mpr (by omega)
  refine ⟨.switch ⟨relative, cases⟩, ?_, _, rfl, jumps, keyed,
    goals.imp fun goal _ lands => lands.jumps (near goal)⟩
  show body.tableSwitchAt assembly.code.size = _
  simp only [MethodBody.tableSwitchAt, first, lowRead, highRead, Bind.bind, Except.bind, count,
    read, size, length]
  refine congrArg Except.ok (congrArg _ ?_)
  omega

theorem lookupswitch (default : Nat) (cases : List (Int32 × Nat)) :
    Encodes directives assembly
      (assembly.lookupswitch default (cases.map fun (key, label) => (key.toInt, label)))
      (Directive.Means directives assembly.code.size (.lookupswitch default cases)) := by
  have sorting := StablySorted.mergeSort cases
  -- From here on only the sorted cases matter, not how they were sorted.
  unfold Assembly.lookupswitch
  simp only [mergeSort_toInt, List.foldl_map, List.length_map]
  generalize cases.mergeSort (fun left right => left.1.toInt ≤ right.1.toInt) = sorted at sorting ⊢
  have emitted := (Emits.append
      ((assembly.openSwitch .lookupswitch).jump assembly.code.size default true)
      (bytes32 sorted.length)).trans
    (Emits.foldl (fun current (case : Int32 × Nat) =>
      (Emits.append current (bytes32 case.1.toInt)).trans
        (Emits.jump _ assembly.code.size case.2 true)) _ sorted)
  refine of_switch emitted fun body bytes relative first jumps filled held short near => ?_
  obtain ⟨others, rfl, holes⟩ := Fills.bytes_append filled
  have table := (MethodBody.holds_append.mp held).2
  obtain ⟨size, cases, read, keys, goals⟩ := Fills.lookupCases holes table
  have inside := table.length_le
  have countRead := held.i32At
  rw [bmod_of_fits_int (by omega) (by omega)] at countRead
  have casesRead : body.lookupCases (switchOperandsStart assembly.code.size + 8)
      sorted.length = .ok cases := by simpa using read
  refine ⟨.switch ⟨relative, cases⟩, ?_, _, sorted, rfl, jumps, sorting, keys,
    goals.imp fun goal _ lands => lands.jumps (near goal)⟩
  show body.lookupSwitchAt assembly.code.size = _
  simp only [MethodBody.lookupSwitchAt, first, countRead, Int.toNat_natCast, Bind.bind, Except.bind,
    casesRead, List.length_append, size, length_bytes32]
  refine congrArg Except.ok (congrArg _ ?_)
  omega

theorem field {opcode : Opcode} {member : MemberRef} {effect : FieldAccess → Effect} {kind : Kind}
    (layout : opcode.layout = .field effect) (parsed : fieldKind member.descriptor = .ok kind) :
    Encodes directives assembly (assembly.indexed opcode (.fieldRef member))
      (· = .effect (effect ⟨member, kind⟩)) := by
  refine of_index (.fieldRef member) [] (Emits.interned assembly (.fieldRef member) _) rfl
    fun body index _ grown small => ⟨_, ?_, rfl⟩
  simp only [layout, MethodBody.operationAt, index, ConstantPool.fieldRef_intern grown small,
    parsed, Bind.bind, Except.bind]
  rfl

theorem classOp {opcode : Opcode} {name : String} {effect : String → Effect}
    (layout : opcode.layout = .classOperand effect) :
    Encodes directives assembly (assembly.indexed opcode (.constant (.classRef name)))
      (· = .effect (effect name)) := by
  refine of_index (.constant (.classRef name)) [] (Emits.interned assembly _ _) rfl
    fun body index _ grown small => ⟨_, ?_, rfl⟩
  simp only [layout, MethodBody.operationAt, index, ConstantPool.className_intern grown small,
    Bind.bind, Except.bind]
  rfl

theorem multianewarray (name : String) (dimensions : UInt8) :
    Encodes directives assembly
      ((assembly.indexed .multianewarray (.constant (.classRef name))).append [dimensions])
      (· = .effect (.allocate (.multiArray name dimensions.toNat))) := by
  refine of_index (.constant (.classRef name)) [dimensions] (Emits.indexed assembly _ _ _) rfl
    fun body index held grown small => ⟨_, ?_, rfl⟩
  show body.operationAt assembly.code.size .multiArray = _
  simp only [MethodBody.operationAt, index, ConstantPool.className_intern grown small, held.u8At,
    Bind.bind, Except.bind]
  rfl

theorem newarray {element : Kind} {code : UInt8} (coded : elementCode? element = some code) :
    Encodes directives assembly (assembly.append [Opcode.newarray.byte, code])
      (· = .effect (.allocate (.array element))) := by
  have decoded : elementKind? code = some element := by
    unfold elementCode? at coded
    split at coded <;> cases coded <;> rfl
  refine of_bytes (Emits.append assembly _) fun body held _ => ⟨_, ?_, rfl⟩
  show body.operationAt assembly.code.size .primitiveArray = _
  simp only [MethodBody.operationAt, held.byteAt, decoded, Bind.bind, Except.bind]
  rfl

theorem invoke {opcode : Opcode} {member : MemberRef} {kind : InvokeKind}
    {descriptor : MethodDescriptor} (layout : opcode.layout = .invoke kind)
    (parsed : MethodDescriptor.parse member.descriptor = .ok descriptor) :
    Encodes directives assembly (assembly.invoke opcode member)
      (· = .effect (.invoke kind member descriptor)) := by
  have read {body : MethodBody} {index : Nat}
      (held : body.u16At (assembly.code.size + 1) = .ok index)
      (found : body.pool.methodRef index = .ok member) :
      body.operationAt assembly.code.size opcode.layout =
        .ok (.effect (.invoke kind member descriptor), if kind = .interface then 5 else 3) := by
    simp only [layout, MethodBody.operationAt, held, found, parsed, Bind.bind, Except.bind]
    rfl
  by_cases interface : kind = .interface
  · subst interface
    simp only [Assembly.invoke, layout, parsed]
    exact of_index (.interfaceMethodRef member) _ (Emits.indexed assembly _ _ _) rfl
      fun body index _ grown small =>
        ⟨_, read index (ConstantPool.methodRef_intern (.inr rfl) grown small), rfl⟩
  · have plain : assembly.invoke opcode member = assembly.indexed opcode (.methodRef member) := by
      cases kind <;> simp_all [Assembly.invoke]
    rw [if_neg interface] at read
    rw [plain]
    exact of_index (.methodRef member) [] (Emits.interned assembly _ _) rfl
      fun body index _ grown small =>
        ⟨_, read index (ConstantPool.methodRef_intern (.inl rfl) grown small), rfl⟩

end Encodes

/-! ## Directives -/

theorem Assembly.fail_error (assembly : Assembly) (error : AssembleError) :
    (assembly.fail error).error ≠ none := by
  cases kept : assembly.error <;> simp [Assembly.fail, kept]

def Encoded (directives : List Directive) (assembly : Assembly) (directive : Directive) : Prop :=
  Encodes directives assembly (assembly.emit directive) fun operation =>
    directive.Means directives assembly.code.size operation

section

variable {directives : List Directive} {assembly : Assembly} {opcode : Opcode}

theorem encoded_op (encodable : (Directive.op opcode).Encodable) :
    Encoded directives assembly (.op opcode) := by
  simp only [Directive.Encodable] at encodable
  split at encodable
  · rename_i operation layout
    refine (Encodes.op fun body => by rw [layout]; rfl).imp fun _ same => ?_
    simpa only [Directive.Means, layout] using same
  · rename_i layout
    refine (Encodes.op fun body => by rw [layout]; rfl).imp fun _ same => ?_
    simpa only [Directive.Means, layout] using same
  · cases encodable

theorem encoded_bipush (value : Int8) : Encoded directives assembly (.bipush value) := by
  have least := value.le_toInt
  have greatest := value.toInt_lt
  refine (Encodes.bipush (by omega) (by omega)).imp fun _ same => ?_
  rw [same, Int32.ofInt_int8ToInt]
  rfl

theorem encoded_sipush (value : Int16) : Encoded directives assembly (.sipush value) := by
  have least := value.le_toInt
  have greatest := value.toInt_lt
  refine (Encodes.sipush (by omega) (by omega)).imp fun _ same => ?_
  rw [same, Int16.ofInt_toInt]
  rfl

theorem encoded_localAccess {index : UInt16}
    (accepted : (assembly.emit (.localAccess opcode index)).error = none) :
    Encoded directives assembly (.localAccess opcode index) := by
  simp only [Encoded, Assembly.emit] at accepted ⊢
  cases layout : opcode.layout with
  | loadLocal | storeLocal | ret =>
    simp only [Directive.Means, layout]
    refine Encodes.localAccess (fun body read => ?_) fun body byte read => ?_
    · simp only [layout, MethodBody.operationAt, read]
      rfl
    · simp only [MethodBody.widenedAt, byte, read, Opcode.ofByte?_byte, Bind.bind, Except.bind,
        Option.map_eq_map, Option.map_some, layout]
      rfl
  | _ =>
    rw [layout] at accepted
    exact absurd accepted (assembly.fail_error _)

theorem encoded_branch {goal : Nat}
    (accepted : (assembly.emit (.branch opcode goal)).error = none) :
    Encoded directives assembly (.branch opcode goal) := by
  simp only [Encoded, Assembly.emit] at accepted ⊢
  cases layout : opcode.layout with
  | branch | goto | jsr =>
    simp only [Directive.Means, layout]
    refine Encodes.branch fun body relative read => ?_
    have operand : body.i16At (assembly.code.size + 1) = .ok relative := read
    simp only [layout, MethodBody.operationAt, operand]
    rfl
  | gotoWide | jsrWide =>
    simp only [Directive.Means, layout]
    refine Encodes.branch fun body relative read => ?_
    have operand : body.i32At (assembly.code.size + 1) = .ok relative := read
    simp only [layout, MethodBody.operationAt, operand]
    rfl
  | _ =>
    rw [layout] at accepted
    exact absurd accepted (assembly.fail_error _)

theorem encoded_field {member : MemberRef} (encodable : (Directive.field opcode member).Encodable)
    (accepted : (assembly.emit (.field opcode member)).error = none) :
    Encoded directives assembly (.field opcode member) := by
  obtain ⟨kind, parsed⟩ := encodable
  simp only [Encoded, Assembly.emit] at accepted ⊢
  cases layout : opcode.layout with
  | field effect =>
    simp only [Directive.Means, layout]
    exact (Encodes.field layout parsed).imp fun _ same => ⟨kind, parsed, same⟩
  | _ =>
    rw [layout] at accepted
    exact absurd accepted (assembly.fail_error _)

theorem encoded_invoke {member : MemberRef}
    (encodable : (Directive.invoke opcode member).Encodable)
    (accepted : (assembly.emit (.invoke opcode member)).error = none) :
    Encoded directives assembly (.invoke opcode member) := by
  obtain ⟨descriptor, parsed⟩ := encodable
  simp only [Encoded, Assembly.emit] at accepted ⊢
  cases layout : opcode.layout with
  | invoke kind =>
    simp only [Directive.Means, layout]
    exact (Encodes.invoke layout parsed).imp fun _ same => ⟨descriptor, parsed, same⟩
  | _ =>
    rw [Assembly.invoke, layout] at accepted
    exact absurd accepted (assembly.fail_error _)

theorem encoded_classOp {name : String}
    (accepted : (assembly.emit (.classOp opcode name)).error = none) :
    Encoded directives assembly (.classOp opcode name) := by
  simp only [Encoded, Assembly.emit] at accepted ⊢
  cases layout : opcode.layout with
  | classOperand effect =>
    simp only [Directive.Means, layout]
    exact Encodes.classOp layout
  | _ =>
    rw [layout] at accepted
    exact absurd accepted (assembly.fail_error _)

theorem encoded_newarray {element : Kind}
    (accepted : (assembly.emit (.newarray element)).error = none) :
    Encoded directives assembly (.newarray element) := by
  simp only [Encoded, Assembly.emit] at accepted ⊢
  cases coded : elementCode? element with
  | some code => exact Encodes.newarray coded
  | none =>
    rw [coded] at accepted
    exact absurd accepted (assembly.fail_error _)

end

/-- Every directive that is accepted and stands for an instruction is encoded as that. -/
theorem encoded_emit (directives : List Directive) {assembly : Assembly} {directive : Directive}
    (emitting : directive.emits = true) (encodable : directive.Encodable)
    (accepted : (assembly.emit directive).error = none) :
    Encoded directives assembly directive := by
  cases directive with
  | label | bind | intern => cases emitting
  | raw => cases encodable
  | op opcode => exact encoded_op encodable
  | int value => exact Encodes.int value
  | bipush value => exact encoded_bipush value
  | sipush value => exact encoded_sipush value
  | ldc constant => exact Encodes.ldc constant
  | localAccess opcode index => exact encoded_localAccess accepted
  | iinc index delta => exact Encodes.iinc index delta
  | branch opcode goal => exact encoded_branch accepted
  | tableswitch low default targets => exact Encodes.tableswitch encodable.1 encodable.2
  | lookupswitch default cases => exact Encodes.lookupswitch default cases
  | field opcode member => exact encoded_field encodable accepted
  | invoke opcode member => exact encoded_invoke encodable accepted
  | classOp opcode name => exact encoded_classOp accepted
  | newarray element => exact encoded_newarray accepted
  | multianewarray name dimensions => exact Encodes.multianewarray name dimensions

end MethodFlow

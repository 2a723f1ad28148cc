import MethodFlow.Proofs.FirstProblem

/-! Table switches as they are assembled and read back. Only the least and the greatest key are
encoded, and the greatest is cut to 32 bits, as distances are. So a table is read back exactly if
its keys and distances fit; one that has too many keys, or none and the least of all ints as its
least key, is accepted but read as a table of another length. -/
namespace MethodFlow

namespace MethodBody

variable {body : MethodBody} {offset : Nat}

theorem tableCases_length {key : Int} {cursor count : Nat} {cases : List (Int × Int)}
    (read : body.tableCases key cursor count = .ok cases) : cases.length = count := by
  induction count generalizing key cursor cases with
  | zero =>
    cases read
    rfl
  | succ count ih =>
    simp only [tableCases, bind_eq_ok] at read
    obtain ⟨target, _, rest, others, made⟩ := read
    cases made
    rw [List.length_cons, ih others]

theorem tableSwitchAt_length {low high : Int} {table : SwitchTable} {length : Nat}
    (lowRead : body.i32At (switchOperandsStart offset + 4) = .ok low)
    (highRead : body.i32At (switchOperandsStart offset + 8) = .ok high)
    (read : body.tableSwitchAt offset = .ok (.switch table, length)) :
    table.cases.length = (high - low + 1).toNat := by
  simp only [tableSwitchAt, lowRead, highRead, bind_eq_ok, Except.ok.injEq] at read
  obtain ⟨default, _, _, rfl, _, rfl, cases, found, made⟩ := read
  cases made
  exact tableCases_length found

theorem decode_tableswitch {instruction : Instruction}
    (held : body.byteAt offset = .ok Opcode.tableswitch.byte)
    (decoded : body.decode offset = .ok instruction) :
    body.tableSwitchAt offset = .ok (instruction.operation, instruction.length) := by
  simp only [decode, held, bind_eq_ok, Except.ok.injEq] at decoded
  obtain ⟨_, rfl, decoded⟩ := decoded
  rw [Opcode.ofByte?_byte] at decoded
  obtain ⟨⟨operation, length⟩, read, made⟩ := bind_eq_ok.mp decoded
  cases made
  exact read

end MethodBody

section

variable {directives : List Directive} {origin : Nat}

theorem BoundAt.unique {body : MethodBody} (assembled : assemble directives = .ok body)
    {label first second : Nat} (one : BoundAt directives label first)
    (other : BoundAt directives label second) : first = second := by
  have accepted := (Assembly.run_error directives).1.mp (error_of_assemble assembled)
  rw [Assembly.boundAt_eq_labels accepted] at one other
  exact Option.some.inj (Option.some.inj (one.symm.trans other))

theorem Lands.jumps_iff {body : MethodBody} (assembled : assemble directives = .ok body)
    {wide : Bool} {label : Nat} {relative : Int}
    (lands : Lands directives origin wide label relative) :
    Jumps directives origin label relative ↔ Near directives origin label := by
  constructor
  · rintro ⟨target, bound, same⟩ other otherBound
    obtain rfl := bound.unique assembled otherBound
    obtain ⟨goal, goalBound, rest, _⟩ := lands
    obtain rfl := bound.unique assembled goalBound
    have least := Int.le_bmod (x := (target : Int) - origin) (m := 4294967296) (by decide)
    have greatest := Int.bmod_lt (x := (target : Int) - origin) (m := 4294967296) (by decide)
    omega
  · exact lands.jumps

theorem Lands.forall₂_jumps_iff {body : MethodBody} (assembled : assemble directives = .ok body)
    {wide : Bool} {goals : List Nat} {distances : List Int}
    (lands : List.Forall₂ (Lands directives origin wide) goals distances) :
    List.Forall₂ (Jumps directives origin) goals distances ↔
      ∀ goal ∈ goals, Near directives origin goal := by
  induction lands with
  | nil => exact iff_of_true .nil nofun
  | cons first _ ih =>
    rw [List.forall₂_cons, List.forall_mem_cons, first.jumps_iff assembled, ih]

end

/-- An assembled table switch is decoded as it was meant, and the next instruction starts behind it,
exactly if it has at most 2^31 keys, these fit in 32 bits, and so do the distances. -/
theorem tableswitch_decodes_iff {before after : List Directive} {low : Int32} {default : Nat}
    {targets : List Nat} {body : MethodBody}
    (assembled : assemble (before ++ .tableswitch low default targets :: after) = .ok body) :
    (∃ instruction, body.decode (Assembly.run before).code.size = .ok instruction ∧
      (Directive.tableswitch low default targets).Means
        (before ++ .tableswitch low default targets :: after) (Assembly.run before).code.size
        instruction.operation ∧
      (Assembly.run before).code.size + instruction.length =
        (Assembly.run (before ++ [.tableswitch low default targets])).code.size) ↔
      (targets.length ≤ 2147483648 ∧ -2147483648 ≤ low.toInt + targets.length - 1 ∧
        low.toInt + targets.length - 1 ≤ 2147483647) ∧
      ∀ goal ∈ default :: targets,
        Near (before ++ .tableswitch low default targets :: after) (Assembly.run before).code.size
          goal := by
  have emitted := Emits.tableswitch (Assembly.run before) low.toInt default targets
  obtain ⟨bytes, filled, held, size⟩ := holds_emitted assembled emitted.toLays
  rw [size, ← tableHigh_count_iff]
  generalize (Assembly.run before).code.size = origin at filled held
  generalize before ++ .tableswitch low default targets :: after = all at assembled filled
  cases filled with
  | byte filled =>
    rename_i operands
    obtain ⟨relative, others, first, lands, filled, operandsHeld, start⟩ :=
      Fills.switchDefault filled held.2
    obtain ⟨lowRead, highRead, others, filled, casesHeld, length⟩ :=
      Fills.tableKeys filled operandsHeld
    obtain ⟨sizes, cases, read, keys, goals⟩ := Fills.tableCases low.toInt filled casesHeld
    -- With the right number of keys the table is read, but perhaps with other distances.
    have switch (count : (Assembly.tableHigh low.toInt targets.length - low.toInt + 1).toNat =
        targets.length) :
        body.tableSwitchAt origin = .ok (.switch ⟨relative, cases⟩, operands.length + 1) := by
      simp only [MethodBody.tableSwitchAt, first, lowRead, highRead, Bind.bind, Except.bind, count,
        read]
      exact congrArg Except.ok (congrArg _ (by omega))
    have near_iff : (Jumps all origin default relative ∧
        List.Forall₂ (Jumps all origin) targets (cases.map Prod.snd)) ↔
          ∀ goal ∈ default :: targets, Near all origin goal := by
      rw [List.forall_mem_cons, lands.jumps_iff assembled, Lands.forall₂_jumps_iff assembled goals]
    constructor
    · rintro ⟨instruction, decoded, ⟨table, operation, jumps, tableKeys, tableGoals⟩, _⟩
      have found := MethodBody.decode_tableswitch held.byteAt decoded
      rw [operation] at found
      have count : (Assembly.tableHigh low.toInt targets.length - low.toInt + 1).toNat =
          targets.length := by
        rw [← MethodBody.tableSwitchAt_length lowRead highRead found]
        simpa using congrArg List.length tableKeys
      have same := Except.ok.inj (found.symm.trans (switch count))
      obtain rfl := Operation.switch.inj (Prod.mk.inj same).1
      exact ⟨count, near_iff.mp ⟨jumps, tableGoals⟩⟩
    · rintro ⟨count, near⟩
      obtain ⟨jumps, jumpGoals⟩ := near_iff.mpr near
      refine ⟨_, held.decode (switch count), ⟨⟨relative, cases⟩, rfl, jumps, keys, jumpGoals⟩, ?_⟩
      simp

/-- A switch that jumps back and forth, at an odd offset, and whose last key is the greatest int. -/
def greatestKey : Directive := .tableswitch 2147483646 0 [0, 1]

def beforeGreatestKey : List Directive := [.label, .label, .bind 0, .op .nop]

def greatestKeyBody : MethodBody where
  code := #[0, 170, 0, 0, 255, 255, 255, 255, 127, 255, 255, 254, 127, 255, 255, 255, 255, 255, 255,
    255, 0, 0, 0, 23, 177]
  pool := ⟨#[]⟩

theorem tableswitch_decodes_iff_greatest :
    assemble (beforeGreatestKey ++ greatestKey :: [.bind 1, .op .returnVoid]) =
        .ok greatestKeyBody ∧
      ∃ instruction,
        greatestKeyBody.decode (Assembly.run beforeGreatestKey).code.size = .ok instruction ∧
        greatestKey.Means (beforeGreatestKey ++ greatestKey :: [.bind 1, .op .returnVoid])
          (Assembly.run beforeGreatestKey).code.size instruction.operation ∧
        (Assembly.run beforeGreatestKey).code.size + instruction.length =
          (Assembly.run (beforeGreatestKey ++ [greatestKey])).code.size := by
  have assembled : assemble (beforeGreatestKey ++ greatestKey :: [.bind 1, .op .returnVoid]) =
      .ok greatestKeyBody := rfl
  refine ⟨assembled, (tableswitch_decodes_iff assembled).mpr ⟨by decide, ?_⟩⟩
  rintro goal _ target bound
  have limit : target ≤ 25 := bound.target_le
  have origin : (Assembly.run beforeGreatestKey).code.size = 1 := rfl
  omega

def overflowingBody : MethodBody where
  code := #[170, 0, 0, 0, 0, 0, 0, 0, 127, 255, 255, 255, 127, 255, 255, 255, 0, 0, 0, 0, 0, 0, 0,
    0, 177]
  pool := ⟨#[]⟩

/-- A table without keys that starts at the least int is read past the end of the code, and one
with a key above the greatest int is read without that key, so its last jump is taken for code. -/
theorem tableswitch_misread :
    (∃ body, assemble [.label, .bind 0, .tableswitch (-2147483648) 0 []] = .ok body ∧
      body.decode 0 = .error (.truncated 16)) ∧
    assemble [.label, .bind 0, .tableswitch 2147483647 0 [0, 0], .op .returnVoid] =
      .ok overflowingBody ∧
    overflowingBody.decode 0 =
      .ok ⟨0, 170, some .tableswitch, 20, .switch ⟨0, [(2147483647, 0)]⟩⟩ ∧
    (Assembly.run [.label, .bind 0, .tableswitch 2147483647 0 [0, 0]]).code.size = 24 := by
  have held : overflowingBody.Holds 0 [Opcode.tableswitch.byte] := ⟨rfl, trivial⟩
  have start : switchOperandsStart 0 = 4 := rfl
  have default : overflowingBody.i32At 4 = .ok 0 := by decide
  have low : overflowingBody.i32At 8 = .ok 2147483647 := by decide
  have high : overflowingBody.i32At 12 = .ok 2147483647 := by decide
  have target : overflowingBody.i32At 16 = .ok 0 := by decide
  have switch : overflowingBody.tableSwitchAt 0 =
      .ok (.switch ⟨0, [(2147483647, 0)]⟩, 20) := by
    simp [MethodBody.tableSwitchAt, MethodBody.tableCases, start, default, low, high, target,
      Bind.bind, Except.bind, Pure.pure, Except.pure]
  refine ⟨⟨⟨#[170, 0, 0, 0, 0, 0, 0, 0, 128, 0, 0, 0, 128, 0, 0, 0], ⟨#[]⟩⟩, rfl, rfl⟩, rfl,
    held.decode switch, rfl⟩

end MethodFlow

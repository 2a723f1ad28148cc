import MethodFlow.Proofs.CodeBytes
import MethodFlow.Proofs.Decoding
import MethodFlow.Proofs.DenotedValues
import MethodFlow.Proofs.Exploration
import MethodFlow.Proofs.FrameInvariants

/-! Where switches lead. The encoded table says for every value how far the switch jumps; a state
that knows all values of the selector has exactly their targets explored, each on a path of its
own. -/
namespace MethodFlow

/-! ## Encoded tables -/

/-- The operands of a switch start at the base, and send the value to the relative offset. -/
inductive MethodBody.Sends (body : MethodBody) (base : Nat) (value relative : Int) : Opcode → Prop
  | entry {low high : Int} (lowRead : body.i32At (base + 4) = .ok low)
      (highRead : body.i32At (base + 8) = .ok high) (notBelow : low ≤ value)
      (notAbove : value ≤ high)
      (jump : body.i32At (base + 12 + 4 * (value - low).toNat) = .ok relative) :
      Sends body base value relative .tableswitch
  | outside {low high : Int} (lowRead : body.i32At (base + 4) = .ok low)
      (highRead : body.i32At (base + 8) = .ok high) (outside : value < low ∨ high < value)
      (jump : body.i32At base = .ok relative) : Sends body base value relative .tableswitch
  | pair {count : Int} {index : Nat} (countRead : body.i32At (base + 4) = .ok count)
      (inside : index < count) (key : body.i32At (base + 8 + 8 * index) = .ok value)
      (first : ∀ earlier < index, body.i32At (base + 8 + 8 * earlier) ≠ .ok value)
      (jump : body.i32At (base + 8 + 8 * index + 4) = .ok relative) :
      Sends body base value relative .lookupswitch
  | absent {count : Int} (countRead : body.i32At (base + 4) = .ok count)
      (unlisted : ∀ index : Nat, index < count → body.i32At (base + 8 + 8 * index) ≠ .ok value)
      (jump : body.i32At base = .ok relative) : Sends body base value relative .lookupswitch

namespace MethodBody

variable {body : MethodBody} {offset cursor count : Nat} {cases : List (Int × Int)}

theorem tableCases_lookup {low : Int} (read : body.tableCases low cursor count = .ok cases)
    (value : Int) :
    if low ≤ value ∧ value < low + count then
      ∃ relative, cases.lookup value = some relative ∧
        body.i32At (cursor + 4 * (value - low).toNat) = .ok relative
    else cases.lookup value = none := by
  induction count generalizing low cursor cases with
  | zero =>
    cases read
    rw [if_neg (by omega)]
    rfl
  | succ count ih =>
    simp only [tableCases, bind_eq_ok] at read
    obtain ⟨target, here, rest, others, made⟩ := read
    cases made
    have later := ih others
    rw [List.lookup_cons]
    by_cases same : value = low
    · subst same
      rw [if_pos (by omega), beq_self_eq_true]
      exact ⟨target, rfl, by simpa using here⟩
    · rw [beq_false_of_ne same]
      by_cases inside : low + 1 ≤ value ∧ value < low + 1 + count
      · rw [if_pos inside] at later
        rw [if_pos (by omega)]
        obtain ⟨relative, found, jump⟩ := later
        have place : cursor + 4 * (value - low).toNat =
            cursor + 4 + 4 * (value - (low + 1)).toNat := by omega
        exact ⟨relative, found, place ▸ jump⟩
      · rw [if_neg inside] at later
        rw [if_neg (by omega)]
        exact later

/-- A key that is listed more than once has the jump of its first pair. -/
theorem lookupCases_lookup (read : body.lookupCases cursor count = .ok cases) (value : Int) :
    (∃ index relative, index < count ∧ cases.lookup value = some relative ∧
      body.i32At (cursor + 8 * index) = .ok value ∧
      (∀ earlier < index, body.i32At (cursor + 8 * earlier) ≠ .ok value) ∧
      body.i32At (cursor + 8 * index + 4) = .ok relative) ∨
    (∀ index < count, body.i32At (cursor + 8 * index) ≠ .ok value) ∧ cases.lookup value = none := by
  induction count generalizing cursor cases with
  | zero =>
    cases read
    exact .inr ⟨nofun, rfl⟩
  | succ count ih =>
    simp only [lookupCases, bind_eq_ok] at read
    obtain ⟨key, keyRead, target, here, rest, others, made⟩ := read
    cases made
    rw [List.lookup_cons]
    by_cases same : value = key
    · subst same
      rw [beq_self_eq_true]
      exact .inl ⟨0, target, count.succ_pos, rfl, keyRead, nofun, here⟩
    · rw [beq_false_of_ne same]
      -- The pairs behind the first one are those from the next cursor on.
      have next (index : Nat) : cursor + 8 + 8 * index = cursor + 8 * (index + 1) := by omega
      have different : body.i32At cursor ≠ .ok value := by
        rw [keyRead]
        exact fun equal => same (Except.ok.inj equal).symm
      have later := ih others
      simp only [next] at later
      rcases later with ⟨index, relative, inside, found, isKey, first, jump⟩ | ⟨absent, none⟩
      · refine .inl ⟨index + 1, relative, Nat.succ_lt_succ inside, found, isKey, ?_, jump⟩
        rw [Nat.forall_lt_succ_left]
        exact ⟨different, first⟩
      · refine .inr ⟨?_, none⟩
        rw [Nat.forall_lt_succ_left]
        exact ⟨different, absent⟩

theorem tableSwitchAt_sends {operation : Operation} {length : Nat}
    (read : body.tableSwitchAt offset = .ok (operation, length)) :
    ∃ table, operation = .switch table ∧ ∀ value,
      body.Sends (switchOperandsStart offset) value (table.offsetFor value) .tableswitch := by
  simp only [tableSwitchAt, bind_eq_ok] at read
  obtain ⟨default, first, low, lowRead, high, highRead, cases, others, made⟩ := read
  cases made
  refine ⟨_, rfl, fun value => ?_⟩
  rw [SwitchTable.offsetFor_eq]
  have looked := tableCases_lookup others value
  split at looked
  · obtain ⟨relative, found, jump⟩ := looked
    rw [found]
    exact .entry lowRead highRead (by omega) (by omega) jump
  · rw [looked]
    exact .outside lowRead highRead (by omega) first

theorem lookupSwitchAt_sends {operation : Operation} {length : Nat}
    (read : body.lookupSwitchAt offset = .ok (operation, length)) :
    ∃ table, operation = .switch table ∧ ∀ value,
      body.Sends (switchOperandsStart offset) value (table.offsetFor value) .lookupswitch := by
  simp only [lookupSwitchAt, bind_eq_ok] at read
  obtain ⟨default, first, count, countRead, cases, others, made⟩ := read
  cases made
  refine ⟨_, rfl, fun value => ?_⟩
  rw [SwitchTable.offsetFor_eq]
  rcases lookupCases_lookup others value with
    ⟨index, relative, inside, found, key, earlier, jump⟩ | ⟨absent, none⟩
  · rw [found]
    exact .pair countRead (by omega) key earlier jump
  · rw [none]
    exact .absent countRead (fun index inside => absent index (by omega)) first

theorem decode_sends {instruction : Instruction} {opcode : Opcode}
    (decoded : body.decode offset = .ok instruction) (known : instruction.opcode = some opcode)
    (switch : opcode = .tableswitch ∨ opcode = .lookupswitch) :
    ∃ table, instruction.operation = .switch table ∧ ∀ value,
      body.Sends (switchOperandsStart offset) value (table.offsetFor value) opcode := by
  have read := decode_operationAt decoded known
  rcases switch with rfl | rfl
  · exact tableSwitchAt_sends read
  · exact lookupSwitchAt_sends read

end MethodBody

/-! ## Selectors with few values -/

namespace Interval

variable {kind : IntKind} {low high : Int} {ordered : low ≤ high}

theorem contains_span {value : Int} :
    (AbstractValue.concretize (integral kind (.span low high ordered))).contains (.int value) =
      true ↔ low ≤ value ∧ value ≤ high := by
  simp [AbstractValue.concretize, concretize, Concretization.contains]

theorem fewIntegers_span {limit : Nat} (few : high - low < limit) :
    (AbstractValue.concretize (integral kind (.span low high ordered))).FewIntegers limit := by
  refine ⟨?_, (high - low + 1).toNat, by omega, rfl⟩
  intro value member
  cases value with
  | int n => exact ⟨n, rfl⟩
  | float | null | returnAddress => cases member

end Interval

namespace Explorer

variable {W : Type}

/-- Each target is explored on a path of its own, one after another, and every path finishes. -/
inductive ForksInTurn (run : Run W) (world : W) : List Nat → Explorer W → Explorer W → Prop
  | done (explorer : Explorer W) : ForksInTurn run world [] explorer explorer
  | fork {target : Nat} {targets : List Nat} {explorer between last : Explorer W} {ending : PathEnd}
      (finished : forked run world target (explorer.update .switched) = (.finished ending, between))
      (rest : ForksInTurn run world targets between last) :
      ForksInTurn run world (target :: targets) explorer last

theorem fanOut_finished_iff {run : Run W} {world : W} {targets : List Nat}
    {explorer last : Explorer W} {ending : PathEnd} :
    fanOut run world targets explorer = (.finished ending, last) ↔
      ending = .switched ∧ ForksInTurn run world targets explorer last := by
  induction targets generalizing explorer with
  | nil =>
    constructor
    · intro finished
      cases finished
      exact ⟨rfl, .done _⟩
    · rintro ⟨rfl, forks⟩
      cases forks
      rfl
  | cons target rest ih =>
    simp only [fanOut_cons_finished, ih]
    constructor
    · rintro ⟨_, between, finished, switched, forks⟩
      exact ⟨switched, .fork finished forks⟩
    · rintro ⟨switched, forks⟩
      cases forks with
      | fork finished forks => exact ⟨_, _, finished, switched, forks⟩

end Explorer

/-! ## Execution -/

section

variable {W : Type} [World W] {body : MethodBody} {offset : Nat} {table : SwitchTable} {world : W}

theorem switchTargets_chosen (chosen : World.allBranches world = false)
    (inside : ∀ value ∈ World.switchCandidates world,
      0 ≤ offset + table.offsetFor value ∧ offset + table.offsetFor value < body.size) :
    ∃ targets, switchTargets body offset table world = .ok targets := by
  have jumps : ∀ value ∈ World.switchCandidates world,
      jumpTarget body offset (table.offsetFor value) =
        .ok (offset + table.offsetFor value).toNat := by
    intro value member
    have := inside value member
    rw [jumpTarget_ok]
    omega
  have mapped : ((World.switchCandidates world).map table.offsetFor).mapM (jumpTarget body offset) =
      .ok ((World.switchCandidates world).map fun value =>
        (offset + table.offsetFor value).toNat) := by
    rw [mapM_eq_ok, List.forall₂_map_left_iff, List.forall₂_map_right_iff, List.forall₂_same]
    exact jumps
  unfold switchTargets
  rw [chosen]
  exact ⟨_, bind_eq_ok.mpr ⟨_, mapped, rfl⟩⟩

theorem switchTargets_ascending {targets : List Nat}
    (found : switchTargets body offset table world = .ok targets) : targets.Pairwise (· < ·) := by
  obtain ⟨places, _, same⟩ := bind_eq_ok.mp found
  cases same
  exact (SortedSet.ofList places).ascending.imp Nat.compare_eq_lt.mp

end

theorem step_switch_listed {V : Type} [AbstractValue V] {body : MethodBody}
    {instruction : Instruction} {table : SwitchTable} {frame : Frame V} {selector : V}
    {rest : List V} (operation : instruction.operation = .switch table)
    (decided : frame.evaluateAll = false) (top : frame.stack = selector :: rest)
    (few : (AbstractValue.concretize selector).FewIntegers Frame.maxCandidates)
    (inside : ∀ value, (AbstractValue.concretize selector).contains (.int value) = true →
      0 ≤ instruction.offset + table.offsetFor value ∧
        instruction.offset + table.offsetFor value < body.size) :
    ∃ targets left, after World.evaluateSwitch frame = .ok left ∧
      (∀ returns, step body instruction frame returns = .ok (.fanOut left targets)) ∧
      targets.Pairwise (· < ·) ∧
      ∀ target : Nat, target ∈ targets ↔
        ∃ value, (AbstractValue.concretize selector).contains (.int value) = true ∧
          (target : Int) = instruction.offset + table.offsetFor value := by
  obtain ⟨candidates, listed, members⟩ := few.listed
  have evaluated := after_eq (Frame.evaluateSwitch_listed top listed)
  have chosen : World.allBranches
      { frame with stack := rest, candidates := candidates, flags := ⟨true, false⟩ } = false := by
    simp [World.allBranches, decided]
  obtain ⟨targets, found⟩ := switchTargets_chosen chosen fun value candidate =>
    inside value ((members value).mp candidate)
  refine ⟨targets, _, evaluated, fun returns => ?_, switchTargets_ascending found, fun target => ?_⟩
  · simp only [step, operation, World.evaluateSwitch, evaluated, found, Bind.bind, Except.bind]
    rfl
  · simp [mem_switchTargets found, chosen, World.switchCandidates, members]

/-- A switch follows the table that its aligned operands encode. So with few values of the selector
exactly their targets are explored, in ascending order and each of them once. -/
theorem switch_dispatches {body : MethodBody} {offset : Nat} {instruction : Instruction}
    {opcode : Opcode} (decoded : body.decode offset = .ok instruction)
    (known : instruction.opcode = some opcode)
    (switch : opcode = .tableswitch ∨ opcode = .lookupswitch) :
    ∃ table, instruction.operation = .switch table ∧
      (∀ base, 4 ∣ base → offset < base → base ≤ offset + 4 →
        ∀ value, body.Sends base value (table.offsetFor value) opcode) ∧
      ∀ {V : Type} [AbstractValue V] (frame : Frame V) (selector : V) (rest : List V),
        frame.evaluateAll = false → frame.stack = selector :: rest →
        (AbstractValue.concretize selector).FewIntegers 1024 →
        (∀ value, (AbstractValue.concretize selector).contains (.int value) = true →
          0 ≤ offset + table.offsetFor value ∧ offset + table.offsetFor value < body.size) →
        ∃ targets left, after World.evaluateSwitch frame = .ok left ∧ targets.Pairwise (· < ·) ∧
          (∀ target : Nat, target ∈ targets ↔
            ∃ value, (AbstractValue.concretize selector).contains (.int value) = true ∧
              (target : Int) = offset + table.offsetFor value) ∧
          ∀ fuel explorer ending last,
            Explorer.explore body (fuel + 1) frame offset explorer = (.finished ending, last) ↔
              ending = .switched ∧
                Explorer.ForksInTurn (Explorer.explore body fuel) left targets
                  (explorer.update (·.visited offset opcode frame.stack.length)) last := by
  obtain ⟨table, operation, sends⟩ := MethodBody.decode_sends decoded known switch
  obtain ⟨place, _⟩ := MethodBody.decode_cases decoded
  refine ⟨table, operation, ?_, ?_⟩
  · intro base aligned behind near value
    obtain rfl : base = switchOperandsStart offset := by
      unfold switchOperandsStart
      omega
    exact sends value
  · intro V _ frame selector rest decided top few inside
    rw [← place] at inside ⊢
    obtain ⟨targets, left, evaluated, stepped, ascending, members⟩ :=
      step_switch_listed operation decided top few inside
    refine ⟨targets, left, evaluated, ascending, members, ?_⟩
    intro fuel explorer ending last
    rw [place, Explorer.explore_visit decoded known, stepped]
    exact Explorer.fanOut_finished_iff

/-- A key that is listed twice: `nop; lookupswitch 5: +37, 5: +35, -1: +35, default: +36`, before
three returns. -/
def repeatedKeyBody : MethodBody :=
  ⟨#[0x00, 0xab, 0x00, 0x00, 0x00, 0x00, 0x00, 0x24, 0x00, 0x00, 0x00, 0x03, 0x00, 0x00, 0x00, 0x05,
    0x00, 0x00, 0x00, 0x25, 0x00, 0x00, 0x00, 0x05, 0x00, 0x00, 0x00, 0x23, 0xff, 0xff, 0xff, 0xff,
    0x00, 0x00, 0x00, 0x23, 0xb1, 0xb1, 0xb1], .empty⟩

def selectingFrame : Frame Interval :=
  { Frame.initial Interval.factory with
    stack := [.integral .int (.span 0 6 (by decide))] }

theorem repeatedKeyBody_decode : repeatedKeyBody.decode 1 =
    .ok ⟨1, 0xab, some .lookupswitch, 35, .switch ⟨36, [(5, 37), (5, 35), (-1, 35)]⟩⟩ := by
  have held : repeatedKeyBody.Holds 1 [Opcode.lookupswitch.byte] := ⟨rfl, trivial⟩
  have start : switchOperandsStart 1 = 4 := rfl
  have default : repeatedKeyBody.i32At 4 = .ok 36 := by decide
  have count : repeatedKeyBody.i32At 8 = .ok 3 := by decide
  have cases : repeatedKeyBody.lookupCases 12 3 = .ok [(5, 37), (5, 35), (-1, 35)] := by
    decide +kernel
  have switch : repeatedKeyBody.lookupSwitchAt 1 =
      .ok (.switch ⟨36, [(5, 37), (5, 35), (-1, 35)]⟩, 35) := by
    simp [MethodBody.lookupSwitchAt, start, default, count, cases, Bind.bind, Except.bind,
      Pure.pure, Except.pure]
  exact held.decode switch

theorem switch_dispatches_repeatedKey :
    repeatedKeyBody.Sends 4 5 37 .lookupswitch ∧
    ∃ left last, after World.evaluateSwitch selectingFrame = .ok left ∧
      Explorer.explore repeatedKeyBody 2 selectingFrame 1 (.new .default) =
        (.finished .switched, last) ∧
      Explorer.ForksInTurn (Explorer.explore repeatedKeyBody 1) left [37, 38]
        ((Explorer.new .default).update (·.visited 1 .lookupswitch 1)) last := by
  obtain ⟨table, operation, sends, dispatches⟩ :=
    switch_dispatches repeatedKeyBody_decode rfl (.inr rfl)
  cases operation
  have goes (value : Int) : SwitchTable.offsetFor ⟨36, [(5, 37), (5, 35), (-1, 35)]⟩ value =
      if value = 5 then 37 else if value = -1 then 35 else 36 := by
    rw [SwitchTable.offsetFor_eq]
    simp only [List.lookup_cons]
    grind
  have size : repeatedKeyBody.size = 39 := rfl
  have inside (value : Int) (member : (AbstractValue.concretize
      (.integral .int (.span 0 6 (by decide)) : Interval)).contains (.int value) = true) :
      0 ≤ (1 : Nat) + SwitchTable.offsetFor ⟨36, [(5, 37), (5, 35), (-1, 35)]⟩ value ∧
        (1 : Nat) + SwitchTable.offsetFor ⟨36, [(5, 37), (5, 35), (-1, 35)]⟩ value <
          repeatedKeyBody.size := by
    rw [goes, size]
    grind
  obtain ⟨targets, left, evaluated, ascending, members, explored⟩ :=
    dispatches selectingFrame _ [] rfl rfl (Interval.fewIntegers_span (by decide)) inside
  obtain rfl : targets = [37, 38] := by
    refine ascending_ext (ascending.imp Nat.compare_eq_lt.mpr) (by decide) fun target => ?_
    simp only [members, Interval.contains_span, goes, List.mem_cons, List.not_mem_nil, or_false]
    constructor
    · rintro ⟨value, member, reached⟩
      grind
    · rintro (rfl | rfl)
      · exact ⟨0, by decide, by decide⟩
      · exact ⟨5, by decide, by decide⟩
  rcases finished : Explorer.explore repeatedKeyBody 2 selectingFrame 1 (.new .default) with
    ⟨outcome, last⟩
  obtain rfl : outcome = .finished .switched := (congrArg Prod.fst finished).symm.trans rfl
  exact ⟨sends 4 (by decide) (by decide) (by decide) 5, left, last, evaluated, rfl,
    ((explored 1 (.new .default) .switched last).mp finished).2⟩

end MethodFlow

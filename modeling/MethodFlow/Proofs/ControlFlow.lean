import Mathlib.Logic.Relation
import MethodFlow.Proofs.Exploration

/-! Control flow without data. The state that holds nothing has every outcome of a forward branch
and of a switch explored and goes on after a backward one, so what its exploration covers are the
instructions that control can reach from the start of the code, whatever the data. -/
namespace MethodFlow

/-- Where control may go from an instruction of which only the operation is known: to every outcome
of a switch and of a branch forward, but never along a conditional branch backward. -/
def Instruction.FlowsTo (instruction : Instruction) (target : Nat) : Prop :=
  match instruction.operation with
  | .goto relative => (target : Int) = instruction.offset + relative
  | .branch _ relative =>
    target = instruction.offset + instruction.length ∨
      0 < relative ∧ (target : Int) = instruction.offset + relative
  | .switch table =>
    ∃ relative ∈ table.cases.map Prod.snd ++ [table.default],
      (target : Int) = instruction.offset + relative
  | .terminate _ | .unsupported => False
  | .nop | .effect _ | .jsr _ | .ret _ => target = instruction.offset + instruction.length

namespace MethodBody

def Flows (body : MethodBody) (offset target : Nat) : Prop :=
  ∃ instruction, body.decode offset = .ok instruction ∧ instruction.FlowsTo target

def opcodeAt? (body : MethodBody) (offset : Nat) : Option Opcode :=
  body.code[offset]?.bind Opcode.ofByte?

theorem opcodeAt?_of_byteAt {body : MethodBody} {offset : Nat} {byte : UInt8}
    (read : body.byteAt offset = .ok byte) : body.opcodeAt? offset = Opcode.ofByte? byte := by
  unfold byteAt at read
  split at read
  · rename_i present
    cases read
    rw [opcodeAt?, present, Option.bind_some]
  · cases read

theorem opcodeAt?_of_decode {body : MethodBody} {offset : Nat} {instruction : Instruction}
    (decoded : body.decode offset = .ok instruction) :
    body.opcodeAt? offset = instruction.opcode := by
  obtain ⟨byte, read, rest⟩ := bind_eq_ok.mp decoded
  rw [opcodeAt?_of_byteAt read]
  split at rest
  · rename_i unknown
    cases rest
    exact unknown
  · rename_i opcode known
    obtain ⟨_, _, made⟩ := bind_eq_ok.mp rest
    cases made
    exact known

theorem opcodeAt?_isSome {body : MethodBody} {offset : Nat} {instruction : Instruction}
    {opcode : Opcode} (decoded : body.decode offset = .ok instruction)
    (known : instruction.opcode = some opcode) : (body.opcodeAt? offset).isSome = true := by
  rw [opcodeAt?_of_decode decoded, known]
  rfl

theorem opcodeAt?_outside {body : MethodBody} {offset : Nat} (outside : body.size ≤ offset) :
    body.opcodeAt? offset = none := by
  rw [opcodeAt?, Array.getElem?_eq_none outside, Option.bind_none]

end MethodBody

theorem Instruction.FlowsTo.known {instruction : Instruction} {target : Nat}
    (flows : instruction.FlowsTo target) : instruction.operation ≠ .unsupported := by
  intro unknown
  simp [FlowsTo, unknown] at flows

theorem Blank.step_covers_iff {body : MethodBody} {instruction : Instruction} {returns : List Nat}
    {world : Blank} {move : Move Blank} {target : Nat}
    (plain : instruction.operation.isSubroutine = false)
    (stepped : step body instruction world returns = .ok move) :
    move.Covers (fun _ => True) target ↔ instruction.FlowsTo target := by
  cases step_steps stepped with
  | nop operation | effect operation _ =>
    simp [Move.Covers, Instruction.FlowsTo, operation, eq_comm]
  | goto operation inside =>
    have isTarget := (jumpTarget_ok.mp inside).1
    simp only [Move.Covers, Instruction.FlowsTo, operation, true_and]
    omega
  | jsr operation _ _ | ret operation _ _ =>
    rw [operation] at plain
    cases plain
  | @backward test relative taken left operation sign inside _ =>
    have falls : loopEdge left taken (instruction.offset + instruction.length) returns =
        .jump left (instruction.offset + instruction.length) returns := rfl
    simp only [falls, Move.Covers, Instruction.FlowsTo, operation, true_and]
    omega
  | @forward test relative taken left operation sign inside _ =>
    have isTarget := (jumpTarget_ok.mp inside).1
    have forks : forwardBranch left taken (instruction.offset + instruction.length) returns =
        .fork left taken (instruction.offset + instruction.length) := rfl
    simp only [forks, Move.Covers, Instruction.FlowsTo, operation, true_and]
    omega
  | switch operation _ inside =>
    simp only [Move.Covers, Instruction.FlowsTo, operation, true_and]
    exact mem_switchTargets inside
  | terminate operation _ | unsupported operation =>
    simp [Move.Covers, Instruction.FlowsTo, operation]

namespace Explorer

variable {W : Type} {inside covered allowed : Nat → Prop} {explorer left : Explorer W}
  {ending : PathEnd}

def CoversOnly (covered : Nat → Prop) (explorer : Explorer W) : Prop :=
  ∀ offset ∈ explorer.findings.recorder.coverage.toList, covered offset

theorem CoversOnly.earlier (covers : CoversOnly covered left) (retains : Retains explorer left) :
    CoversOnly covered explorer := fun offset member =>
  covers offset (retains.coverage offset member)

/-- An exploration that starts inside and comes across nothing but what is allowed adds to the
coverage only what may be covered. -/
def Confines (inside covered allowed : Nat → Prop) (run : Run W) : Prop :=
  ∀ world offset explorer ending left, inside offset →
    run world offset explorer = (.finished ending, left) → CoversOnly allowed left →
    CoversOnly covered explorer → CoversOnly covered left

theorem forked_confines {run : Run W} (confines : Confines inside covered allowed run) :
    Confines inside covered allowed (forked run) := by
  intro world offset explorer ending left start finished permitted before
  obtain ⟨opened, inner, _, ran, rfl⟩ := forked_finished.mp finished
  exact confines world offset (explorer.setForks opened) ending inner start ran permitted before

theorem fanOut_confines {run : Run W} (keeps : Keeps Extends run)
    (confines : Confines inside covered allowed run) {world : W} {targets : List Nat}
    (start : ∀ target ∈ targets, inside target)
    (finished : fanOut run world targets explorer = (.finished ending, left))
    (permitted : CoversOnly allowed left) (before : CoversOnly covered explorer) :
    CoversOnly covered left := by
  induction targets generalizing explorer with
  | nil =>
    cases finished
    exact before
  | cons target rest ih =>
    obtain ⟨pathEnd, between, explored, others⟩ := fanOut_cons_finished.mp finished
    rw [List.forall_mem_cons] at start
    have later := fanOut_keeps extends_stepwise keeps world rest between
    rw [others] at later
    have first := forked_confines confines world target _ _ between start.1 explored
      (permitted.earlier later.toRetains) before
    exact ih start.2 others first

variable [World W] {body : MethodBody} {fuel : Nat}

theorem follow_confines (confines : Confines inside covered allowed (explore body fuel : Run W))
    {instruction : Instruction} {move : Move W}
    (start : ∀ target, move.Covers (fun _ => True) target → inside target)
    (finished : follow body fuel instruction explorer (.ok move) = (.finished ending, left))
    (permitted : CoversOnly allowed left) (before : CoversOnly covered explorer) :
    CoversOnly covered left := by
  have keeps : Keeps Extends (explore body fuel : Run W) := explore_extends body fuel
  cases move with
  | jump world offset returns =>
    exact confines world offset _ ending left (start offset ⟨trivial, rfl⟩) finished permitted
      before
  | loop world offset =>
    exact confines world offset _ ending left (start offset ⟨trivial, rfl⟩) finished permitted
      before
  | fork world target next =>
    obtain ⟨pathEnd, between, explored, onward⟩ := follow_fork_finished.mp finished
    have later := keeps world next between
    rw [onward] at later
    have first := forked_confines confines world target _ _ between
      (start target ⟨trivial, .inl rfl⟩) explored (permitted.earlier later.toRetains) before
    exact confines world next between ending left (start next ⟨trivial, .inr rfl⟩) onward permitted
      first
  | fanOut world targets =>
    exact fanOut_confines keeps confines (fun target member => start target ⟨trivial, member⟩)
      finished permitted before
  | finish world =>
    cases finished
    exact before
  | abandon =>
    cases finished
    exact before

theorem mem_coverage_of_finished {world : W} {offset : Nat}
    (finished : explore body fuel world offset explorer = (.finished ending, left))
    (known : (body.opcodeAt? offset).isSome = true) :
    offset ∈ left.findings.recorder.coverage.toList := by
  cases fuel with
  | zero => cases finished
  | succ fuel =>
    cases explore_finishes finished with
    | past outside => simp [MethodBody.opcodeAt?_outside outside] at known
    | unknown decoded unknown =>
      simp [MethodBody.opcodeAt?_of_decode decoded, unknown] at known
    | @visit instruction opcode move _ _ _ _ _ onward =>
      have later := mem_coverage_follow body fuel instruction explorer offset opcode
        (World.stackDepth world) (.ok move)
      rw [onward] at later
      exact later

theorem plain_of_finished {world : W} {offset : Nat} {instruction : Instruction} {opcode : Opcode}
    (decoded : body.decode offset = .ok instruction) (known : instruction.opcode = some opcode)
    (finished : explore body fuel world offset explorer = (.finished ending, left))
    (permitted : CoversOnly (fun offset => body.subroutineAt offset = false) left) :
    instruction.operation.isSubroutine = false := by
  have present := MethodBody.opcodeAt?_isSome decoded known
  have plain := permitted offset (mem_coverage_of_finished finished present)
  simpa only [MethodBody.subroutineAt, decoded] using plain

end Explorer

namespace Blank

open Explorer Relation

variable {body : MethodBody} {explorer left : Explorer Blank} {ending : PathEnd}

/-- What is covered can be reached. The induction is on the exploration. -/
theorem explore_confines {inside : Nat → Prop}
    (closed : ∀ {offset target}, inside offset → body.Flows offset target → inside target)
    (fuel : Nat) :
    Confines inside (fun offset => inside offset ∧ (body.opcodeAt? offset).isSome = true)
      (fun offset => body.subroutineAt offset = false)
      (explore body fuel : Explorer.Run Blank) := by
  induction fuel with
  | zero =>
    intro world offset explorer ending left start finished
    cases finished
  | succ fuel ih =>
    intro world offset explorer ending left start finished permitted before
    cases explore_finishes finished with
    | past => exact before
    | unknown => exact before
    | @visit instruction opcode move _ _ decoded known stepped onward =>
      have plain := plain_of_finished decoded known finished permitted
      apply follow_confines ih ?_ onward permitted
      · intro reached member
        rcases SortedSet.mem_insert.mp member with rfl | earlier
        · exact ⟨start, MethodBody.opcodeAt?_isSome decoded known⟩
        · exact before reached earlier
      · intro target covers
        exact closed start ⟨instruction, decoded, (step_covers_iff plain stepped).mp covers⟩

/-- What can be reached is covered. The induction is on the way there. -/
theorem mem_coverage_of_reaches {fuel offset goal : Nat} {world : Blank}
    (reaches : ReflTransGen body.Flows offset goal)
    (known : (body.opcodeAt? goal).isSome = true)
    (finished : explore body fuel world offset explorer = (.finished ending, left))
    (permitted : CoversOnly (fun offset => body.subroutineAt offset = false) left) :
    goal ∈ left.findings.recorder.coverage.toList := by
  induction reaches using ReflTransGen.head_induction_on
    generalizing fuel world explorer ending left with
  | refl => exact mem_coverage_of_finished finished known
  | @head offset target flows _ ih =>
    obtain ⟨instruction, decoded, flowsTo⟩ := flows
    cases fuel with
    | zero => cases finished
    | succ fuel =>
      cases explore_finishes finished with
      | past outside => exact absurd (MethodBody.decode_cases decoded).2.1 (Nat.not_lt.mpr outside)
      | unknown decoded' unknown =>
        obtain rfl := Except.ok.inj (decoded.symm.trans decoded')
        exact absurd ((MethodBody.decode_cases decoded).2.2 unknown) flowsTo.known
      | visit decoded' isOpcode stepped onward =>
        obtain rfl := Except.ok.inj (decoded.symm.trans decoded')
        have plain := plain_of_finished decoded isOpcode finished permitted
        have covers := (step_covers_iff plain stepped).mpr flowsTo
        obtain ⟨next, start, pathEnd, inner, _, ran, kept⟩ := follow_finished onward covers
        exact kept.coverage goal (ih ran (permitted.earlier kept))

end Blank

/-- Without data the coverage of an exploration is what control flow can reach: if the exploration
of the state that holds nothing ends without an error, and has not come across a subroutine, it has
covered exactly the offsets inside the code that hold an opcode and to which control may go from
the start. -/
theorem coverage_iff_reachable (body : MethodBody) (config : Config) (fuel : Nat)
    (exploration : Exploration Blank)
    (finished : interpret body config fuel Blank.mk = .finished exploration)
    (plain : ∀ offset ∈ exploration.trace.coverage, body.subroutineAt offset = false)
    (offset : Nat) :
    offset ∈ exploration.trace.coverage ↔
      offset < body.size ∧ (body.opcodeAt? offset).isSome = true ∧
        Relation.ReflTransGen body.Flows 0 offset := by
  obtain ⟨ending, left, joined, explored, joins, rfl⟩ := Explorer.interpret_eq_finished.mp finished
  constructor
  · intro member
    have closed : ∀ {offset target}, Relation.ReflTransGen body.Flows 0 offset →
        body.Flows offset target → Relation.ReflTransGen body.Flows 0 target :=
      fun reaches flows => reaches.tail flows
    obtain ⟨reaches, known⟩ := Blank.explore_confines closed fuel .mk 0 (.new config) ending left
      .refl explored plain nofun offset member
    have inside : offset < body.size := by
      rw [← Nat.not_le]
      intro outside
      simp [MethodBody.opcodeAt?_outside outside] at known
    exact ⟨inside, known, reaches⟩
  · rintro ⟨_, known, reaches⟩
    exact Blank.mem_coverage_of_reaches reaches known explored plain

/-- Code with a loop that is not followed, an instruction that is jumped over and a byte outside the
instruction set at the end: `goto +4; nop; ifne -4; ifeq +4; return`. -/
def skippingBody : MethodBody :=
  ⟨#[0xa7, 0x00, 0x04, 0x00, 0x9a, 0xff, 0xfc, 0x99, 0x00, 0x04, 0xb1, 0xcb], .empty⟩

theorem coverage_iff_reachable_skipping : ∃ exploration,
    interpret skippingBody .default 5 Blank.mk = .finished exploration ∧
      exploration.trace.coverage = [0, 4, 7, 10] ∧
      Relation.ReflTransGen skippingBody.Flows 0 10 ∧
      ¬Relation.ReflTransGen skippingBody.Flows 0 3 := by
  have explored : ∃ exploration,
      interpret skippingBody .default 5 Blank.mk = .finished exploration ∧
        exploration.trace.coverage = [0, 4, 7, 10] := ⟨_, rfl, by decide +kernel⟩
  obtain ⟨exploration, finished, coverage⟩ := explored
  have plain : ∀ offset ∈ exploration.trace.coverage,
      skippingBody.subroutineAt offset = false := by
    rw [coverage]
    decide +kernel
  have reachable := coverage_iff_reachable skippingBody .default 5 exploration finished plain
  rw [coverage] at reachable
  refine ⟨exploration, finished, coverage, ((reachable 10).mp (by decide)).2.2, ?_⟩
  intro reaches
  exact absurd ((reachable 3).mpr ⟨by decide, by decide, reaches⟩) (by decide)

end MethodFlow

import MethodFlow.Proofs.InstructionExtent

/-! Explorations that end. If no instruction leads backward, every path that an exploration
follows, and every path that it opens on the way, starts behind the instruction it comes from. So
the distance to the end of the code bounds the number of instructions of each path, whatever the
state does. -/
namespace MethodFlow

/-- Unconditional jumps and all outcomes of a switch lead forward. -/
def Operation.jumpsForward : Operation → Bool
  | .goto relative => 0 < relative
  | .switch table => (table.cases.map Prod.snd ++ [table.default]).all fun relative => 0 < relative
  | _ => true

namespace MethodBody

def jumpsForwardAt (body : MethodBody) (offset : Nat) : Bool :=
  match body.decode offset with
  | .ok instruction => instruction.operation.jumpsForward
  | .error _ => true

end MethodBody

/-- After the test, no state would have a branch backward followed. -/
def StaysBehind (W : Type) [World W] (test : BranchTest) : Prop :=
  ∀ world left : W, after (World.evaluateBranch test) world = .ok left →
    (World.takenFeasible left = true → World.passedFeasible left = true) ∧
      World.loopingValid left = false

/-- Nothing in the code leads backward: there are no subroutines, jumps and switches lead forward,
and so do conditional branches, unless no state would have them followed. -/
structure MethodBody.Forward (W : Type) [World W] (body : MethodBody) : Prop where
  plain (offset : Nat) : body.subroutineAt offset = false
  jumps (offset : Nat) : body.jumpsForwardAt offset = true
  branches {offset : Nat} {instruction : Instruction} {test : BranchTest} {relative : Int}
    (decoded : body.decode offset = .ok instruction)
    (branch : instruction.operation = .branch test relative) : 0 < relative ∨ StaysBehind W test

section

variable {W : Type} [World W] {body : MethodBody}

theorem loopEdge_passes {left : W}
    (possible : World.takenFeasible left = true → World.passedFeasible left = true)
    (once : World.loopingValid left = false) (target next : Nat) (returns : List Nat) :
    loopEdge left target next returns = .jump left next returns := by
  unfold loopEdge
  rw [once, Bool.or_false, if_neg]
  intro followed
  rw [Bool.and_eq_true, Bool.not_eq_true'] at followed
  cases (possible followed.1).symm.trans followed.2

theorem MethodBody.Forward.step_covers (forward : body.Forward W) {offset : Nat}
    {instruction : Instruction} (decoded : body.decode offset = .ok instruction) {world : W}
    {returns : List Nat} {move : Move W} (stepped : step body instruction world returns = .ok move)
    {target : Nat} (covers : move.Covers (fun _ => True) target) : offset < target := by
  have place := (MethodBody.decode_cases decoded).1
  have length := MethodBody.decode_length_pos decoded
  have plain := forward.plain offset
  have jumps := forward.jumps offset
  simp only [MethodBody.subroutineAt, MethodBody.jumpsForwardAt, decoded] at plain jumps
  cases step_steps stepped with
  | nop | effect =>
    obtain ⟨_, rfl⟩ := covers
    omega
  | goto operation inside =>
    obtain ⟨_, rfl⟩ := covers
    have isTarget := (jumpTarget_ok.mp inside).1
    rw [operation] at jumps
    simp only [Operation.jumpsForward, decide_eq_true_eq] at jumps
    omega
  | jsr operation | ret operation =>
    rw [operation] at plain
    cases plain
  | backward operation sign inside evaluated =>
    -- A branch that leads backward is never followed.
    rcases forward.branches decoded operation with positive | stays
    · omega
    · obtain ⟨possible, once⟩ := stays world _ evaluated
      rw [loopEdge_passes possible once] at covers
      obtain ⟨_, rfl⟩ := covers
      omega
  | forward operation sign inside evaluated =>
    have isTarget := (jumpTarget_ok.mp inside).1
    unfold forwardBranch at covers
    split at covers
    · obtain ⟨_, rfl | rfl⟩ := covers <;> omega
    · obtain ⟨_, rfl⟩ := covers
      split <;> omega
  | switch operation evaluated inside =>
    obtain ⟨_, member⟩ := covers
    obtain ⟨relative, among, isTarget⟩ := (mem_switchTargets inside).mp member
    rw [operation] at jumps
    simp only [Operation.jumpsForward, List.all_eq_true, decide_eq_true_eq] at jumps
    have positive : 0 < relative := by
      apply jumps
      split at among
      · exact among
      · obtain ⟨value, _, rfl⟩ := List.mem_map.mp among
        exact SwitchTable.offsetFor_mem _ value
    omega
  | terminate | unsupported => cases covers

end

namespace Explorer

variable {W : Type}

structure SameEnd (few many : Outcome EngineError PathEnd × Explorer W) : Prop where
  same : few = many
  ended : few.1 ≠ .outOfFuel

theorem SameEnd.finished (ending : PathEnd) (explorer : Explorer W) :
    SameEnd (.finished ending, explorer) (.finished ending, explorer) := ⟨rfl, by rintro ⟨⟩⟩

theorem SameEnd.failed (error : EngineError) (explorer : Explorer W) :
    SameEnd (.failed error, explorer) (.failed error, explorer) := ⟨rfl, by rintro ⟨⟩⟩

theorem SameEnd.andThen {few many : Outcome EngineError PathEnd × Explorer W}
    {next next' : Explorer W → Outcome EngineError PathEnd × Explorer W} (first : SameEnd few many)
    (later : ∀ between, SameEnd (next between) (next' between)) :
    SameEnd (MethodFlow.andThen few next) (MethodFlow.andThen many next') := by
  obtain ⟨rfl, ended⟩ := first
  obtain ⟨outcome, between⟩ := few
  cases outcome with
  | finished ending => exact later between
  | failed error => exact .failed error between
  | outOfFuel => exact absurd rfl ended

variable {run run' : Run W} {world : W}

theorem forked_sameEnd {target : Nat}
    (same : ∀ explorer, SameEnd (run world target explorer) (run' world target explorer))
    (explorer : Explorer W) :
    SameEnd (forked run world target explorer) (forked run' world target explorer) := by
  cases entered : explorer.findings.forks.enter with
  | error reason =>
    rw [forked_refused entered, forked_refused entered]
    exact .failed _ explorer
  | ok forks =>
    rw [forked_opened entered, forked_opened entered, (same _).same]
    exact ⟨rfl, (same _).same ▸ (same _).ended⟩

theorem fanOut_sameEnd {targets : List Nat}
    (same : ∀ target ∈ targets, ∀ explorer,
      SameEnd (run world target explorer) (run' world target explorer)) (explorer : Explorer W) :
    SameEnd (fanOut run world targets explorer) (fanOut run' world targets explorer) := by
  induction targets generalizing explorer with
  | nil => exact .finished .switched explorer
  | cons target rest ih =>
    rw [List.forall_mem_cons] at same
    rw [fanOut_cons, fanOut_cons]
    exact (forked_sameEnd same.1 _).andThen (ih same.2)

variable [World W] {body : MethodBody}

theorem follow_sameEnd {fuel more : Nat} {move : Move W}
    (same : ∀ target, move.Covers (fun _ => True) target → ∀ (world : W) (explorer : Explorer W),
      SameEnd (explore body fuel world target explorer) (explore body more world target explorer))
    (instruction : Instruction) (explorer : Explorer W) :
    SameEnd (follow body fuel instruction explorer (.ok move))
      (follow body more instruction explorer (.ok move)) := by
  cases move with
  | jump world offset returns => exact same offset ⟨trivial, rfl⟩ world _
  | loop world offset => exact same offset ⟨trivial, rfl⟩ world _
  | fork world target next =>
    rw [follow_fork, follow_fork]
    exact (forked_sameEnd (same target ⟨trivial, .inl rfl⟩ world) explorer).andThen
      (same next ⟨trivial, .inr rfl⟩ world)
  | fanOut world targets =>
    exact fanOut_sameEnd (fun target member => same target ⟨trivial, member⟩ world) explorer
  | finish | abandon => exact .finished ..

/-- The induction is on the fuel, which covers the distance to the end of the code. -/
theorem explore_sameEnd (forward : body.Forward W) {fuel more offset : Nat}
    (enough : body.size - offset < fuel) (alsoEnough : body.size - offset < more) (world : W)
    (explorer : Explorer W) :
    SameEnd (explore body fuel world offset explorer)
      (explore body more world offset explorer) := by
  induction fuel generalizing more offset world explorer with
  | zero => cases enough
  | succ fuel ih =>
    obtain ⟨more, rfl⟩ := Nat.exists_eq_add_one_of_ne_zero (Nat.ne_zero_of_lt alsoEnough)
    cases explore_begins body fuel world offset with
    | past outside ends =>
      rw [ends, explore, if_pos outside]
      exact .finished ..
    | malformed reason inside decoded fails =>
      rw [fails, explore, if_neg (Nat.not_le.mpr inside), decoded]
      exact .failed ..
    | unknown instruction decoded unknown ends =>
      have inside := (MethodBody.decode_cases decoded).2.1
      rw [ends, explore, if_neg (Nat.not_le.mpr inside), decoded]
      simp only [unknown]
      exact .finished ..
    | visit instruction opcode decoded known goes =>
      have inside := (MethodBody.decode_cases decoded).2.1
      rw [goes, explore_visit decoded known]
      cases stepped : step body instruction world explorer.returns with
      | error reason => exact .failed ..
      | ok move =>
        refine follow_sameEnd (fun target covers => ?_) instruction _
        have behind := forward.step_covers decoded stepped covers
        exact ih (by omega) (by omega)

end Explorer

/-- In code that leads nowhere backward an exploration ends, with an end of the path or an error,
from whatever offset and state it starts and whatever was found before: once there is fuel for the
distance to the end of the code, more of it changes nothing. -/
theorem explore_forward_ends {W : Type} [World W] {body : MethodBody} (forward : body.Forward W)
    (world : W) (offset : Nat) (explorer : Explorer W) :
    ∃ outcome left,
      ((∃ ending, outcome = .finished ending) ∨ ∃ error, outcome = .failed error) ∧
      ∀ fuel, body.size - offset < fuel →
        Explorer.explore body fuel world offset explorer = (outcome, left) := by
  have least := Nat.lt_succ_self (body.size - offset)
  have settled {fuel : Nat} (enough : body.size - offset < fuel) :=
    Explorer.explore_sameEnd forward enough least world explorer
  have ended := (settled least).ended
  rcases reached : Explorer.explore body (body.size - offset + 1) world offset explorer with
    ⟨outcome, left⟩
  refine ⟨outcome, left, ?_, fun fuel enough => (settled enough).same.trans reached⟩
  cases outcome with
  | finished ending => exact .inl ⟨ending, rfl⟩
  | failed error => exact .inr ⟨error, rfl⟩
  | outOfFuel => exact absurd (congrArg Prod.fst reached) ended

/-- A branch backward, which the blank state never follows, behind a switch that leads to it and to
the jump before it: `iconst_0; tableswitch 0: +19, default: +22; goto +3; ifne -3; ifeq +4; nop;
return`. -/
def onwardBody : MethodBody :=
  ⟨#[0x03, 0xaa, 0x00, 0x00, 0x00, 0x00, 0x00, 0x16, 0x00, 0x00, 0x00, 0x00, 0x00, 0x00, 0x00, 0x00,
    0x00, 0x00, 0x00, 0x13, 0xa7, 0x00, 0x03, 0x9a, 0xff, 0xfd, 0x99, 0x00, 0x04, 0x00, 0xb1],
    .empty⟩

theorem onwardBody_forward : onwardBody.Forward Blank := by
  have inside : ∀ offset < onwardBody.size,
      onwardBody.subroutineAt offset = false ∧ onwardBody.jumpsForwardAt offset = true := by
    decide +kernel
  have everywhere (offset : Nat) :
      onwardBody.subroutineAt offset = false ∧ onwardBody.jumpsForwardAt offset = true := by
    cases decoded : onwardBody.decode offset with
    | ok instruction => exact inside offset (MethodBody.decode_cases decoded).2.1
    | error reason =>
      simp only [MethodBody.subroutineAt, MethodBody.jumpsForwardAt, decoded, and_self]
  exact ⟨fun offset => (everywhere offset).1, fun offset => (everywhere offset).2,
    fun _ _ => .inr fun _ _ _ => ⟨id, rfl⟩⟩

theorem explore_forward_ends_onward :
    onwardBody.Forward Blank ∧ ∃ left, ∀ fuel, 31 < fuel →
      Explorer.explore onwardBody fuel Blank.mk 0 (.new .default) =
        (.finished .switched, left) := by
  obtain ⟨outcome, left, _, settled⟩ :=
    explore_forward_ends onwardBody_forward Blank.mk 0 (.new .default)
  have explored : (Explorer.explore onwardBody 32 Blank.mk 0 (.new .default)).1 =
      .finished .switched := rfl
  have ending : outcome = .finished .switched := by
    rwa [settled 32 (by decide)] at explored
  exact ⟨onwardBody_forward, left, fun fuel enough => ending ▸ settled fuel enough⟩

end MethodFlow

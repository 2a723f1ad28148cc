import MethodFlow.Exploration.Explorer
import MethodFlow.Proofs.Failure
import MethodFlow.Proofs.SortedContainers

/-! How an exploration goes on from an instruction, where jumps and switches lead, and that terminal
states and coverage, once collected, are kept. `Steps` says what an instruction can do, `Begins` and
`Finishes` how an exploration starts and how it went, and `Stepwise` what is kept by a whole
exploration because each single thing keeps it. Nothing here depends on what a machine state is. -/
namespace MethodFlow

def Operation.isSubroutine : Operation → Bool
  | .jsr _ | .ret _ => true
  | _ => false

def MethodBody.subroutineAt (body : MethodBody) (offset : Nat) : Bool :=
  match body.decode offset with
  | .ok instruction => instruction.operation.isSubroutine
  | .error _ => false

theorem jumpTarget_ok {body : MethodBody} {offset target : Nat} {relative : Int} :
    jumpTarget body offset relative = .ok target ↔
      (target : Int) = offset + relative ∧ target < body.size := by
  unfold jumpTarget
  by_cases inside : 0 ≤ (offset : Int) + relative ∧ (offset : Int) + relative < body.size
  · have accepted : (0 ≤ (offset : Int) + relative &&
        decide ((offset : Int) + relative < body.size)) = true := by simpa using inside
    rw [if_pos accepted, Except.ok.injEq]
    omega
  · have refused : ¬(0 ≤ (offset : Int) + relative &&
        decide ((offset : Int) + relative < body.size)) = true := by simpa using inside
    rw [if_neg refused]
    simp only [reduceCtorEq, false_iff]
    omega

namespace SwitchTable

theorem offsetFor_eq (table : SwitchTable) (value : Int) :
    table.offsetFor value = (table.cases.lookup value).getD table.default := by
  obtain ⟨default, cases⟩ := table
  unfold offsetFor
  induction cases with
  | nil => rfl
  | cons head rest ih =>
    obtain ⟨key, offset⟩ := head
    by_cases found : key = value
    · simp [found]
    · have other : (value == key) = false := by simpa using Ne.symm found
      simpa [List.lookup_cons, found, other] using ih

theorem offsetFor_mem (table : SwitchTable) (value : Int) :
    table.offsetFor value ∈ table.cases.map Prod.snd ++ [table.default] := by
  unfold offsetFor
  split
  · rename_i key offset found
    exact List.mem_append_left _ (List.mem_map.mpr ⟨_, List.mem_of_find?_eq_some found, rfl⟩)
  · exact List.mem_append_right _ List.mem_cons_self

end SwitchTable

/-- A path that moves so goes on, among other places, at the target with a state of the given
sort. -/
def Move.Covers {W : Type} (sort : W → Prop) (target : Nat) : Move W → Prop
  | .jump world offset _ => sort world ∧ offset = target
  | .loop world offset => sort world ∧ offset = target
  | .fork world taken next => sort world ∧ (target = taken ∨ target = next)
  | .fanOut world targets => sort world ∧ target ∈ targets
  | .finish _ | .abandon => False

/-! ## What a step does -/

section Steps

variable {W : Type} [World W]

theorem mem_switchTargets {body : MethodBody} {offset target : Nat} {table : SwitchTable}
    {world : W} {targets : List Nat} (found : switchTargets body offset table world = .ok targets) :
    target ∈ targets ↔ ∃ relative ∈
      (if World.allBranches world then table.cases.map Prod.snd ++ [table.default]
        else (World.switchCandidates world).map table.offsetFor),
      (target : Int) = offset + relative := by
  obtain ⟨places, mapped, same⟩ := bind_eq_ok.mp found
  cases same
  rw [SortedSet.mem_ofList]
  constructor
  · intro member
    obtain ⟨relative, among, jumped⟩ := exists_of_mem_mapM mapped member
    exact ⟨relative, among, (jumpTarget_ok.mp jumped).1⟩
  · rintro ⟨relative, among, reached⟩
    obtain ⟨place, member, jumped⟩ := mapM_ok_of_mem mapped among
    obtain rfl : target = place := by
      have isPlace := (jumpTarget_ok.mp jumped).1
      omega
    exact member

/-- What a step does and where it goes, operation by operation. -/
inductive Steps (body : MethodBody) (instruction : Instruction) (world : W) (returns : List Nat) :
    Move W → Prop
  | nop (operation : instruction.operation = .nop) :
      Steps body instruction world returns
        (.jump world (instruction.offset + instruction.length) returns)
  | effect {effect : Effect} {left : W} (operation : instruction.operation = .effect effect)
      (performed : after (World.perform effect) world = .ok left) :
      Steps body instruction world returns
        (.jump left (instruction.offset + instruction.length) returns)
  | goto {relative : Int} {target : Nat} (operation : instruction.operation = .goto relative)
      (inside : jumpTarget body instruction.offset relative = .ok target) :
      Steps body instruction world returns (.jump world target returns)
  | jsr {relative : Int} {entry : Nat} {left : W}
      (operation : instruction.operation = .jsr relative)
      (inside : jumpTarget body instruction.offset relative = .ok entry)
      (entered : after (World.enterSubroutine (instruction.offset + instruction.length)) world =
        .ok left) :
      Steps body instruction world returns
        (.jump left entry ((instruction.offset + instruction.length) :: returns))
  | ret {index back : Nat} {rest : List Nat} {left : W}
      (operation : instruction.operation = .ret index)
      (exited : after (World.exitSubroutine index) world = .ok left)
      (pending : returns = back :: rest) :
      Steps body instruction world returns (.jump left back rest)
  | backward {test : BranchTest} {relative : Int} {target : Nat} {left : W}
      (operation : instruction.operation = .branch test relative) (sign : relative ≤ 0)
      (inside : jumpTarget body instruction.offset relative = .ok target)
      (evaluated : after (World.evaluateBranch test) world = .ok left) :
      Steps body instruction world returns
        (loopEdge left target (instruction.offset + instruction.length) returns)
  | forward {test : BranchTest} {relative : Int} {target : Nat} {left : W}
      (operation : instruction.operation = .branch test relative) (sign : 0 < relative)
      (inside : jumpTarget body instruction.offset relative = .ok target)
      (evaluated : after (World.evaluateBranch test) world = .ok left) :
      Steps body instruction world returns
        (forwardBranch left target (instruction.offset + instruction.length) returns)
  | switch {table : SwitchTable} {targets : List Nat} {left : W}
      (operation : instruction.operation = .switch table)
      (evaluated : after World.evaluateSwitch world = .ok left)
      (inside : switchTargets body instruction.offset table left = .ok targets) :
      Steps body instruction world returns (.fanOut left targets)
  | terminate {terminal : Terminal} {left : W}
      (operation : instruction.operation = .terminate terminal)
      (ended : after (World.terminate terminal) world = .ok left) :
      Steps body instruction world returns (.finish left)
  | unsupported (operation : instruction.operation = .unsupported) :
      Steps body instruction world returns .abandon

theorem step_steps {body : MethodBody} {instruction : Instruction} {world : W} {returns : List Nat}
    {move : Move W} (stepped : step body instruction world returns = .ok move) :
    Steps body instruction world returns move := by
  unfold step at stepped
  cases operation : instruction.operation with
  | nop =>
    rw [operation] at stepped
    cases stepped
    exact .nop operation
  | effect effect =>
    rw [operation] at stepped
    obtain ⟨left, performed, made⟩ := bind_eq_ok.mp stepped
    cases made
    exact .effect operation performed
  | goto relative =>
    rw [operation] at stepped
    obtain ⟨target, inside, made⟩ := bind_eq_ok.mp stepped
    cases made
    exact .goto operation inside
  | jsr relative =>
    rw [operation] at stepped
    obtain ⟨entry, inside, rest⟩ := bind_eq_ok.mp stepped
    obtain ⟨left, entered, made⟩ := bind_eq_ok.mp rest
    cases made
    exact .jsr operation inside entered
  | ret index =>
    rw [operation] at stepped
    obtain ⟨left, exited, rest⟩ := bind_eq_ok.mp stepped
    cases returns with
    | nil => cases rest
    | cons back others =>
      cases rest
      exact .ret operation exited rfl
  | branch test relative =>
    rw [operation] at stepped
    obtain ⟨target, inside, rest⟩ := bind_eq_ok.mp stepped
    obtain ⟨left, evaluated, made⟩ := bind_eq_ok.mp rest
    by_cases sign : relative ≤ 0
    · rw [if_pos sign] at made
      cases made
      exact .backward operation sign inside evaluated
    · rw [if_neg sign] at made
      cases made
      exact .forward operation (Int.not_le.mp sign) inside evaluated
  | switch table =>
    rw [operation] at stepped
    obtain ⟨left, evaluated, rest⟩ := bind_eq_ok.mp stepped
    obtain ⟨targets, inside, made⟩ := bind_eq_ok.mp rest
    cases made
    exact .switch operation evaluated inside
  | terminate terminal =>
    rw [operation] at stepped
    obtain ⟨left, ended, made⟩ := bind_eq_ok.mp stepped
    cases made
    exact .terminate operation ended
  | unsupported =>
    rw [operation] at stepped
    cases stepped
    exact .unsupported operation

end Steps

theorem MethodBody.decode_cases {body : MethodBody} {offset : Nat} {instruction : Instruction}
    (decoded : body.decode offset = .ok instruction) :
    instruction.offset = offset ∧ offset < body.size ∧
      (instruction.opcode = none → instruction.operation = .unsupported) := by
  simp only [decode, byteAt] at decoded
  cases present : body.code[offset]? with
  | none =>
    rw [present] at decoded
    cases decoded
  | some byte =>
    rw [present] at decoded
    have inside : offset < body.size := (Array.getElem?_eq_some_iff.mp present).1
    cases known : Opcode.ofByte? byte with
    | none =>
      simp only [Bind.bind, Except.bind, known] at decoded
      cases decoded
      exact ⟨rfl, inside, fun _ => rfl⟩
    | some opcode =>
      simp only [Bind.bind, Except.bind, known] at decoded
      split at decoded
      · cases decoded
      · cases decoded
        exact ⟨rfl, inside, nofun⟩

theorem MethodBody.decode_known {body : MethodBody} {offset : Nat} {instruction : Instruction}
    (decoded : body.decode offset = .ok instruction)
    (known : instruction.operation ≠ .unsupported) :
    ∃ opcode, instruction.opcode = some opcode := by
  refine Option.ne_none_iff_exists'.mp fun none => ?_
  exact known ((decode_cases decoded).2.2 none)

/-! ## Parts of an exploration -/

namespace ForkGuard

def deeper (guard : ForkGuard) : ForkGuard :=
  { guard with
    depth := guard.depth + 1
    metrics := ⟨guard.metrics.forks + 1, max guard.metrics.maxForkDepth (guard.depth + 1)⟩ }

theorem enter_eq_ok {guard forks : ForkGuard} (entered : guard.enter = .ok forks) :
    forks = guard.deeper := by
  unfold enter at entered
  split at entered
  · cases entered
  · exact (Except.ok.inj entered).symm

theorem enter_ok {guard forks : ForkGuard} (entered : guard.enter = .ok forks) :
    forks.limits = guard.limits ∧ forks.depth = guard.depth + 1 := by
  rw [enter_eq_ok entered]
  exact ⟨rfl, rfl⟩

end ForkGuard

def andThen {S : Type} (first : Outcome EngineError PathEnd × S)
    (next : S → Outcome EngineError PathEnd × S) : Outcome EngineError PathEnd × S :=
  match first.1 with
  | .finished _ => next first.2
  | _ => first

theorem andThen_finished {S : Type} {first : Outcome EngineError PathEnd × S}
    {next : S → Outcome EngineError PathEnd × S} {ending : PathEnd} {left : S} :
    andThen first next = (.finished ending, left) ↔
      ∃ pathEnd between, first = (.finished pathEnd, between) ∧
        next between = (.finished ending, left) := by
  obtain ⟨outcome, between⟩ := first
  cases outcome <;> simp [andThen]

namespace Explorer

variable {W : Type}

/-- A relation between what an exploration has found before and after, which is kept by each single
thing that an exploration does. A path of its own counts as one thing. -/
structure Stepwise (R : Explorer W → Explorer W → Prop) : Prop where
  refl (explorer : Explorer W) : R explorer explorer
  trans {first second third : Explorer W} : R first second → R second third → R first third
  returns (explorer : Explorer W) (returns : List Nat) :
    R explorer { explorer with returns := returns }
  visited (explorer : Explorer W) (offset : Nat) (opcode : Opcode) (depth : Nat) :
    R explorer (explorer.update (·.visited offset opcode depth))
  followed (explorer : Explorer W) : R explorer (explorer.update .followed)
  switched (explorer : Explorer W) : R explorer (explorer.update .switched)
  ranOff (explorer : Explorer W) : R explorer (explorer.update .ranOff)
  collected (explorer : Explorer W) (world : W) : R explorer (explorer.update (·.collected world))
  abandoned (explorer : Explorer W) (instruction : Instruction) :
    R explorer (explorer.update (·.abandoned instruction))
  forked {explorer left : Explorer W} {forks : ForkGuard} :
    explorer.findings.forks.enter = .ok forks → R (explorer.setForks forks) left →
    R explorer (left.setForks left.findings.forks.exit)

def Keeps (R : Explorer W → Explorer W → Prop) (run : Run W) : Prop :=
  ∀ world offset explorer, R explorer (run world offset explorer).2

theorem forked_refused {explorer : Explorer W} {reason : LimitError}
    (refused : explorer.findings.forks.enter = .error reason) (run : Run W) (world : W)
    (target : Nat) : forked run world target explorer = (.failed (.limit reason), explorer) := by
  simp only [forked, refused]

theorem forked_opened {explorer : Explorer W} {forks : ForkGuard}
    (entered : explorer.findings.forks.enter = .ok forks) (run : Run W) (world : W)
    (target : Nat) :
    forked run world target explorer =
      ((run world target (explorer.setForks forks)).1,
        (run world target (explorer.setForks forks)).2.setForks
          (run world target (explorer.setForks forks)).2.findings.forks.exit) := by
  simp only [forked, entered]

theorem fanOut_cons (run : Run W) (world : W) (target : Nat) (rest : List Nat)
    (explorer : Explorer W) :
    fanOut run world (target :: rest) explorer =
      andThen (forked run world target (explorer.update .switched)) (fanOut run world rest) := by
  rw [fanOut]
  generalize forked run world target (explorer.update .switched) = first
  obtain ⟨outcome, between⟩ := first
  cases outcome <;> rfl

section Stepwise

variable {R : Explorer W → Explorer W → Prop} (stepwise : Stepwise R)

include stepwise

theorem andThen_keeps {explorer : Explorer W} {first : Outcome EngineError PathEnd × Explorer W}
    {next : Explorer W → Outcome EngineError PathEnd × Explorer W} (before : R explorer first.2)
    (keeps : ∀ between, R between (next between).2) : R explorer (andThen first next).2 := by
  obtain ⟨outcome, between⟩ := first
  cases outcome with
  | finished ending => exact stepwise.trans before (keeps between)
  | failed error => exact before
  | outOfFuel => exact before

theorem forked_keeps {run : Run W} (keeps : Keeps R run) : Keeps R (forked run) := by
  intro world target explorer
  cases entered : explorer.findings.forks.enter with
  | error reason =>
    rw [forked_refused entered]
    exact stepwise.refl explorer
  | ok forks =>
    rw [forked_opened entered]
    exact stepwise.forked entered (keeps world target (explorer.setForks forks))

theorem fanOut_keeps {run : Run W} (keeps : Keeps R run) (world : W) (targets : List Nat)
    (explorer : Explorer W) : R explorer (fanOut run world targets explorer).2 := by
  induction targets generalizing explorer with
  | nil => exact stepwise.refl explorer
  | cons target rest ih =>
    rw [fanOut_cons]
    exact andThen_keeps stepwise (stepwise.trans (stepwise.switched explorer)
      (forked_keeps stepwise keeps world target (explorer.update .switched))) ih

end Stepwise

structure Retains (before after : Explorer W) : Prop where
  terminals : before.findings.terminals.toList <+: after.findings.terminals.toList
  coverage : ∀ offset ∈ before.findings.recorder.coverage.toList,
    offset ∈ after.findings.recorder.coverage.toList

theorem Retains.of_eq {before after : Explorer W}
    (terminals : before.findings.terminals = after.findings.terminals)
    (coverage : before.findings.recorder.coverage = after.findings.recorder.coverage) :
    Retains before after :=
  ⟨terminals ▸ List.prefix_rfl, fun _ member => coverage ▸ member⟩

structure Extends (before after : Explorer W) : Prop extends Retains before after where
  limits : after.findings.forks.limits = before.findings.forks.limits
  depth : after.findings.forks.depth = before.findings.forks.depth

theorem extends_stepwise : Stepwise (Extends : Explorer W → Explorer W → Prop) where
  refl explorer := ⟨.of_eq rfl rfl, rfl, rfl⟩
  trans first second := ⟨⟨first.terminals.trans second.terminals,
    fun offset member => second.coverage offset (first.coverage offset member)⟩,
    second.limits.trans first.limits, second.depth.trans first.depth⟩
  returns explorer returns := ⟨.of_eq rfl rfl, rfl, rfl⟩
  visited explorer offset opcode depth :=
    ⟨⟨List.prefix_rfl, fun _ member => SortedSet.mem_insert.mpr (.inr member)⟩, rfl, rfl⟩
  followed explorer := ⟨.of_eq rfl rfl, rfl, rfl⟩
  switched explorer := ⟨.of_eq rfl rfl, rfl, rfl⟩
  ranOff explorer := ⟨.of_eq rfl rfl, rfl, rfl⟩
  collected explorer world :=
    ⟨⟨⟨[world], (Array.toList_push ..).symm⟩, fun _ member => member⟩, rfl, rfl⟩
  abandoned explorer instruction := ⟨.of_eq rfl rfl, rfl, rfl⟩
  forked := by
    intro explorer left forks entered inner
    obtain ⟨limits, depth⟩ := ForkGuard.enter_ok entered
    refine ⟨⟨inner.terminals, inner.coverage⟩, inner.limits.trans limits, ?_⟩
    change left.findings.forks.depth - 1 = _
    rw [inner.depth]
    exact (congrArg (· - 1) depth).trans (Nat.add_sub_cancel _ 1)

theorem forked_finished {run : Run W} {world : W} {target : Nat} {explorer left : Explorer W}
    {ending : PathEnd} :
    forked run world target explorer = (.finished ending, left) ↔
      ∃ opened inner, explorer.findings.forks.enter = .ok opened ∧
        run world target (explorer.setForks opened) = (.finished ending, inner) ∧
        inner.setForks inner.findings.forks.exit = left := by
  cases entered : explorer.findings.forks.enter with
  | error reason => simp [forked_refused entered]
  | ok opened =>
    rw [forked_opened entered]
    constructor
    · intro finished
      obtain ⟨ended, rfl⟩ := Prod.mk.inj finished
      exact ⟨opened, _, rfl, Prod.ext ended rfl, rfl⟩
    · rintro ⟨_, inner, ⟨⟩, ran, rfl⟩
      rw [ran]

theorem fanOut_cons_finished {run : Run W} {world : W} {target : Nat} {rest : List Nat}
    {explorer left : Explorer W} {ending : PathEnd} :
    fanOut run world (target :: rest) explorer = (.finished ending, left) ↔
      ∃ pathEnd between,
        forked run world target (explorer.update .switched) = (.finished pathEnd, between) ∧
          fanOut run world rest between = (.finished ending, left) := by
  rw [fanOut_cons, andThen_finished]

theorem fanOut_finished {run : Run W} (keeps : Keeps Extends run) {world : W} {targets : List Nat}
    {explorer left : Explorer W} {ending : PathEnd}
    (finished : fanOut run world targets explorer = (.finished ending, left)) {target : Nat}
    (member : target ∈ targets) :
    ∃ start ending inner, run world target start = (.finished ending, inner) ∧
      inner.Retains left := by
  induction targets generalizing explorer with
  | nil => cases member
  | cons head rest ih =>
    obtain ⟨headEnding, between, explored, others⟩ := fanOut_cons_finished.mp finished
    rcases List.mem_cons.mp member with rfl | inRest
    · obtain ⟨opened, inner, _, ran, rfl⟩ := forked_finished.mp explored
      have later := fanOut_keeps extends_stepwise keeps world rest
        (inner.setForks inner.findings.forks.exit)
      rw [others] at later
      exact ⟨explorer.update .switched |>.setForks opened, headEnding, inner, ran,
        later.terminals, later.coverage⟩
    · exact ih others inRest

variable [World W]

/-! ## How an exploration goes on -/

/-- Carries an exploration on from what an instruction did. -/
def follow (body : MethodBody) (fuel : Nat) (instruction : Instruction) (explorer : Explorer W) :
    Except EngineError (Move W) → Outcome EngineError PathEnd × Explorer W
  | .error error => (.failed error, explorer)
  | .ok (.jump world offset returns) =>
    explore body fuel world offset { explorer with returns := returns }
  | .ok (.loop world offset) => explore body fuel world offset (explorer.update .followed)
  | .ok (.fork world target next) =>
    match forked (explore body fuel) world target explorer with
    | (.finished _, explorer) => explore body fuel world next explorer
    | stopped => stopped
  | .ok (.fanOut world targets) => fanOut (explore body fuel) world targets explorer
  | .ok (.finish world) => (.finished .terminal, explorer.update (·.collected world))
  | .ok .abandon => (.finished .unsupported, explorer.update (·.abandoned instruction))

theorem follow_fork (body : MethodBody) (fuel : Nat) (instruction : Instruction)
    (explorer : Explorer W) (world : W) (target next : Nat) :
    follow body fuel instruction explorer (.ok (.fork world target next)) =
      andThen (forked (explore body fuel) world target explorer)
        (explore body fuel world next) := by
  rw [follow]
  generalize forked (explore body fuel) world target explorer = first
  obtain ⟨outcome, between⟩ := first
  cases outcome <;> rfl

theorem explore_visit {body : MethodBody} {offset : Nat} {instruction : Instruction}
    {opcode : Opcode} (decoded : body.decode offset = .ok instruction)
    (known : instruction.opcode = some opcode) (fuel : Nat) (world : W) (explorer : Explorer W) :
    explore body (fuel + 1) world offset explorer =
      follow body fuel instruction
        (explorer.update (·.visited offset opcode (World.stackDepth world)))
        (step body instruction world explorer.returns) := by
  have inside := (MethodBody.decode_cases decoded).2.1
  rw [explore, if_neg (Nat.not_le.mpr inside), decoded]
  simp only [known]
  rfl

/-- How an exploration begins, whatever was found before: past the end of the code, at bytes that do
not decode, at a byte outside the instruction set, or with a step. -/
inductive Begins (body : MethodBody) (fuel : Nat) (world : W) (offset : Nat) : Prop
  | past (outside : body.size ≤ offset)
      (ends : ∀ explorer, explore body (fuel + 1) world offset explorer =
        (.finished .fellOffEnd, explorer.update .ranOff))
  | malformed (reason : DecodeError) (inside : offset < body.size)
      (decoded : body.decode offset = .error reason)
      (fails : ∀ explorer, explore body (fuel + 1) world offset explorer =
        (.failed (.decode reason), explorer))
  | unknown (instruction : Instruction) (decoded : body.decode offset = .ok instruction)
      (unknown : instruction.opcode = none)
      (ends : ∀ explorer, explore body (fuel + 1) world offset explorer =
        (.finished .unsupported, explorer.update (·.abandoned instruction)))
  | visit (instruction : Instruction) (opcode : Opcode)
      (decoded : body.decode offset = .ok instruction) (known : instruction.opcode = some opcode)
      (goes : ∀ explorer, explore body (fuel + 1) world offset explorer =
        follow body fuel instruction
          (explorer.update (·.visited offset opcode (World.stackDepth world)))
          (step body instruction world explorer.returns))

theorem explore_begins (body : MethodBody) (fuel : Nat) (world : W) (offset : Nat) :
    Begins body fuel world offset := by
  by_cases past : body.size ≤ offset
  · exact .past past fun explorer => by rw [explore, if_pos past]
  · cases decoded : body.decode offset with
    | error reason =>
      exact .malformed reason (Nat.not_le.mp past) decoded fun explorer => by
        rw [explore, if_neg past, decoded]
    | ok instruction =>
      cases known : instruction.opcode with
      | none =>
        refine .unknown instruction decoded known fun explorer => ?_
        rw [explore, if_neg past, decoded]
        simp only [known]
      | some opcode =>
        exact .visit instruction opcode decoded known fun explorer =>
          explore_visit decoded known fuel world explorer

inductive Finishes (body : MethodBody) (fuel : Nat) (world : W) (offset : Nat)
    (explorer : Explorer W) : PathEnd → Explorer W → Prop
  | past (outside : body.size ≤ offset) :
      Finishes body fuel world offset explorer .fellOffEnd (explorer.update .ranOff)
  | unknown {instruction : Instruction} (decoded : body.decode offset = .ok instruction)
      (unknown : instruction.opcode = none) :
      Finishes body fuel world offset explorer .unsupported
        (explorer.update (·.abandoned instruction))
  | visit {instruction : Instruction} {opcode : Opcode} {move : Move W} {ending : PathEnd}
      {left : Explorer W} (decoded : body.decode offset = .ok instruction)
      (known : instruction.opcode = some opcode)
      (stepped : step body instruction world explorer.returns = .ok move)
      (onward : follow body fuel instruction
        (explorer.update (·.visited offset opcode (World.stackDepth world))) (.ok move) =
          (.finished ending, left)) :
      Finishes body fuel world offset explorer ending left

theorem explore_finishes {body : MethodBody} {fuel : Nat} {world : W} {offset : Nat}
    {explorer left : Explorer W} {ending : PathEnd}
    (finished : explore body (fuel + 1) world offset explorer = (.finished ending, left)) :
    Finishes body fuel world offset explorer ending left := by
  cases explore_begins body fuel world offset with
  | past outside ends =>
    rw [ends] at finished
    cases finished
    exact .past outside
  | malformed _ _ _ fails =>
    rw [fails] at finished
    cases finished
  | unknown instruction decoded unknown ends =>
    rw [ends] at finished
    cases finished
    exact .unknown decoded unknown
  | visit instruction opcode decoded known goes =>
    rw [goes] at finished
    cases stepped : step body instruction world explorer.returns with
    | error reason =>
      rw [stepped] at finished
      cases finished
    | ok move =>
      rw [stepped] at finished
      exact .visit decoded known stepped finished

/-! ## Whole explorations -/

section Stepwise

variable {R : Explorer W → Explorer W → Prop} (stepwise : Stepwise R)

include stepwise

theorem follow_keeps {body : MethodBody} {fuel : Nat} (keeps : Keeps R (explore body fuel : Run W))
    (instruction : Instruction) (explorer : Explorer W) (move : Except EngineError (Move W)) :
    R explorer (follow body fuel instruction explorer move).2 := by
  cases move with
  | error => exact stepwise.refl explorer
  | ok move =>
    cases move with
    | jump world offset returns =>
      exact stepwise.trans (stepwise.returns explorer returns) (keeps world offset _)
    | loop world offset =>
      exact stepwise.trans (stepwise.followed explorer) (keeps world offset _)
    | fork world target next =>
      rw [follow_fork]
      exact andThen_keeps stepwise (forked_keeps stepwise keeps world target explorer)
        (keeps world next)
    | fanOut world targets => exact fanOut_keeps stepwise keeps world targets explorer
    | finish world => exact stepwise.collected explorer world
    | abandon => exact stepwise.abandoned explorer instruction

/-- What every single thing keeps, a whole exploration keeps. -/
theorem explore_keeps (body : MethodBody) (fuel : Nat) : Keeps R (explore body fuel : Run W) := by
  induction fuel with
  | zero => exact fun _ _ explorer => stepwise.refl explorer
  | succ fuel ih =>
    intro world offset explorer
    cases explore_begins body fuel world offset with
    | past _ ends =>
      rw [ends]
      exact stepwise.ranOff explorer
    | malformed _ _ _ fails =>
      rw [fails]
      exact stepwise.refl explorer
    | unknown instruction _ _ ends =>
      rw [ends]
      exact stepwise.abandoned explorer instruction
    | visit instruction opcode _ _ goes =>
      rw [goes]
      exact stepwise.trans (stepwise.visited explorer offset opcode _)
        (follow_keeps stepwise ih instruction _ _)

end Stepwise

theorem explore_extends (body : MethodBody) (fuel : Nat) :
    Keeps Extends (explore body fuel : Run W) := explore_keeps extends_stepwise body fuel

theorem mem_coverage_follow (body : MethodBody) (fuel : Nat) (instruction : Instruction)
    (explorer : Explorer W) (offset : Nat) (opcode : Opcode) (depth : Nat)
    (move : Except EngineError (Move W)) :
    offset ∈ (follow body fuel instruction (explorer.update (·.visited offset opcode depth))
      move).2.findings.recorder.coverage.toList :=
  (follow_keeps extends_stepwise (explore_extends body fuel) instruction _ move).coverage offset
    (SortedSet.mem_insert.mpr (.inl rfl))

theorem follow_fork_finished {body : MethodBody} {fuel : Nat} {instruction : Instruction}
    {explorer left : Explorer W} {world : W} {target next : Nat} {ending : PathEnd} :
    follow body fuel instruction explorer (.ok (.fork world target next)) =
        (.finished ending, left) ↔
      ∃ pathEnd between,
        forked (explore body fuel) world target explorer = (.finished pathEnd, between) ∧
          explore body fuel world next between = (.finished ending, left) := by
  rw [follow_fork, andThen_finished]

/-- A finished exploration has finished every path that its move covers. -/
theorem follow_finished {body : MethodBody} {fuel : Nat} {instruction : Instruction}
    {explorer left : Explorer W} {move : Move W} {ending : PathEnd}
    (finished : follow body fuel instruction explorer (.ok move) = (.finished ending, left))
    {sort : W → Prop} {target : Nat} (covers : move.Covers sort target) :
    ∃ world start ending inner, sort world ∧
      explore body fuel world target start = (.finished ending, inner) ∧ inner.Retains left := by
  have keeps : Keeps Extends (explore body fuel : Run W) := explore_extends body fuel
  cases move with
  | jump world offset returns =>
    obtain ⟨sorted, rfl⟩ := covers
    exact ⟨world, _, ending, left, sorted, finished, .of_eq rfl rfl⟩
  | loop world offset =>
    obtain ⟨sorted, rfl⟩ := covers
    exact ⟨world, _, ending, left, sorted, finished, .of_eq rfl rfl⟩
  | fork world taken next =>
    obtain ⟨sorted, reached⟩ := covers
    obtain ⟨takenEnding, between, explored, onward⟩ := follow_fork_finished.mp finished
    rcases reached with rfl | rfl
    · obtain ⟨opened, inner, _, ran, rfl⟩ := forked_finished.mp explored
      have later := keeps world next (inner.setForks inner.findings.forks.exit)
      rw [onward] at later
      exact ⟨world, explorer.setForks opened, takenEnding, inner, sorted, ran, later.terminals,
        later.coverage⟩
    · exact ⟨world, between, ending, left, sorted, onward, .of_eq rfl rfl⟩
  | fanOut world targets =>
    obtain ⟨sorted, member⟩ := covers
    obtain ⟨start, ending, inner, ran, kept⟩ := fanOut_finished keeps finished member
    exact ⟨world, start, ending, inner, sorted, ran, kept⟩
  | finish => cases covers
  | abandon => cases covers

/-! ## Reports -/

def summary (explorer : Explorer W) (joined : Option W) : Exploration W where
  world := joined
  terminalStates := explorer.findings.terminals.size
  unsupported := explorer.findings.unsupported.toList
  trace := explorer.findings.recorder.finish explorer.findings.forks.metrics

def report (explorer : Explorer W) :
    Outcome EngineError PathEnd → Outcome EngineError (Exploration W)
  | .outOfFuel => .outOfFuel
  | .failed error => .failed error
  | .finished _ =>
    match joinTerminals explorer.findings.terminals.toList with
    | .error error => .failed (.world error)
    | .ok joined => .finished (explorer.summary joined)

theorem report_congr {explorer other : Explorer W} (same : explorer.findings = other.findings)
    (outcome : Outcome EngineError PathEnd) : explorer.report outcome = other.report outcome := by
  cases outcome with
  | finished ending => simp only [report, summary, same]
  | failed error => rfl
  | outOfFuel => rfl

theorem interpret_eq_report (body : MethodBody) (config : Config) (fuel : Nat) (world : W) :
    MethodFlow.interpret body config fuel world =
      (explore body fuel world 0 (.new config)).2.report
        (explore body fuel world 0 (.new config)).1 := by
  unfold MethodFlow.interpret interpret
  generalize explore body fuel world 0 (.new config) = result
  obtain ⟨outcome, left⟩ := result
  cases outcome <;> rfl

theorem interpret_eq_finished {body : MethodBody} {config : Config} {fuel : Nat} {world : W}
    {exploration : Exploration W} :
    MethodFlow.interpret body config fuel world = .finished exploration ↔
      ∃ ending left joined, explore body fuel world 0 (.new config) = (.finished ending, left) ∧
        joinTerminals left.findings.terminals.toList = .ok joined ∧
        left.summary joined = exploration := by
  rw [interpret_eq_report]
  generalize explore body fuel world 0 (.new config) = result
  obtain ⟨outcome, left⟩ := result
  cases outcome with
  | finished ending =>
    cases joins : joinTerminals left.findings.terminals.toList with
    | error reason => simp [report, joins]
    | ok joined => simp [report, joins]
  | failed error => simp [report]
  | outOfFuel => simp [report]

end Explorer

end MethodFlow

import MethodFlow.Proofs.Soundness

/-! An exploration of determined code is exact. If every local that is read starts with one known
word, and no result on the way is cut, a frame denotes one machine state at each step: a branch has
one outcome and a switch one candidate, so the exploration is the run itself, loops included. -/
namespace MethodFlow

namespace Models

variable {seeds : Seeds} {machine after : Machine} {frame : Frame Interval} {body : MethodBody}
  {instruction : Instruction} {target : Nat}

def move {W : Type} (visit : Visit) (left : W) (target : Nat) (returns : List Nat) : Move W :=
  if visit.switches then .fanOut left [target]
  else if visit.loops then .loop left target
  else .jump left target returns

theorem loopEdge_exact {left : Frame Interval} {outcome : Bool} {taken next : Nat}
    (allowed : left.flags.allows outcome = true) (only : left.flags.allows (!outcome) = false)
    (returns : List Nat) :
    loopEdge left taken next returns =
      if outcome then .loop left taken else .jump left next returns := by
  cases outcome with
  | true =>
    have isTaken : World.takenFeasible left = true := allowed
    have notPassed : World.passedFeasible left = false := only
    simp [loopEdge, isTaken, notPassed]
  | false =>
    have notTaken : World.takenFeasible left = false := only
    simp [loopEdge, notTaken]

theorem forwardBranch_exact {left : Frame Interval} {outcome : Bool} {taken next : Nat}
    (decided : left.evaluateAll = false) (allowed : left.flags.allows outcome = true)
    (only : left.flags.allows (!outcome) = false) (returns : List Nat) :
    forwardBranch left taken next returns =
      .jump left (if outcome then taken else next) returns := by
  cases outcome with
  | true =>
    have isTaken : left.flags.taken = true := allowed
    have notPassed : left.flags.passed = false := only
    simp [forwardBranch, World.allBranches, World.shouldTake, decided, isTaken, notPassed]
  | false =>
    have notTaken : left.flags.taken = false := only
    simp [forwardBranch, World.allBranches, World.shouldTake, decided, notTaken]

theorem switchTargets_exact {left : Frame Interval} {offset : Nat} {table : SwitchTable}
    {value : Int} (decided : left.evaluateAll = false) (notPassed : left.flags.passed = false)
    (candidate : left.candidates = [value])
    (reached : (target : Int) = offset + table.offsetFor value) (inside : target < body.size) :
    switchTargets body offset table left = .ok [target] := by
  have one : World.allBranches left = false := by
    simp [World.allBranches, decided, notPassed]
  have candidates : World.switchCandidates left = [value] := candidate
  have jumped : jumpTarget body offset (table.offsetFor value) = .ok target :=
    jumpTarget_ok.mpr ⟨reached, inside⟩
  simp only [switchTargets, one, Bool.false_eq_true, if_false, candidates, List.map_cons,
    List.map_nil, List.mapM_cons, List.mapM_nil, jumped]
  rfl

/-- A frame that models a state exactly makes the one move that the machine makes. -/
theorem step_exact (models : Models True seeds machine frame)
    (advanced : machine.advance instruction = some (↑target, after))
    (exact : (Visit.mk instruction machine).exact body = true) (inside : target < body.size)
    (returns : List Nat) :
    ∃ left, Models True seeds after left ∧
      step body instruction frame returns =
        .ok (move ⟨instruction, machine⟩ left target returns) := by
  cases operation : instruction.operation with
  | nop =>
    simp only [Machine.advance, operation, Option.some.injEq, Prod.mk.injEq] at advanced
    obtain ⟨next, rfl⟩ := advanced
    refine ⟨frame, models, ?_⟩
    obtain rfl : instruction.offset + instruction.length = target := by omega
    simp only [step, operation, move, Visit.switches, Visit.loops]
    rfl
  | effect effect =>
    simp only [Machine.advance, operation, Option.map_eq_some_iff, Prod.mk.injEq] at advanced
    obtain ⟨_, performed, next, rfl⟩ := advanced
    simp only [Visit.exact, operation] at exact
    obtain ⟨left, yields, modelsLeft⟩ := models.perform performed fun _ => exact
    refine ⟨left, modelsLeft, ?_⟩
    obtain rfl : instruction.offset + instruction.length = target := by omega
    simp only [step, operation, World.perform, after_eq yields, move, Visit.switches, Visit.loops]
    rfl
  | goto relative =>
    simp only [Machine.advance, operation, Option.some.injEq, Prod.mk.injEq] at advanced
    obtain ⟨next, rfl⟩ := advanced
    refine ⟨frame, models, ?_⟩
    have jumped : jumpTarget body instruction.offset relative = .ok target :=
      jumpTarget_ok.mpr ⟨next.symm, inside⟩
    simp only [step, operation, jumped, move, Visit.switches, Visit.loops]
    rfl
  | branch test relative =>
    simp only [Machine.advance, operation, Option.map_eq_some_iff, Prod.mk.injEq] at advanced
    obtain ⟨⟨outcome, _⟩, tested, next, rfl⟩ := advanced
    obtain ⟨left, yields, modelsLeft, allowed, only⟩ := models.evaluateBranch tested
    refine ⟨left, modelsLeft, ?_⟩
    simp only [Visit.exact, operation, Bool.and_eq_true, decide_eq_true_eq] at exact
    have jumped : jumpTarget body instruction.offset relative =
        .ok (instruction.offset + relative).toNat := jumpTarget_ok.mpr (by omega)
    have reached : target = if outcome then (instruction.offset + relative).toNat
        else instruction.offset + instruction.length := by
      cases outcome <;> simp at next ⊢ <;> omega
    simp only [step, operation, World.evaluateBranch, after_eq yields, jumped, move, Visit.switches,
      Visit.loops, tested, Option.any_some, Bool.false_eq_true, if_false]
    by_cases back : relative ≤ 0
    · simp only [Bind.bind, Except.bind, back, if_true, loopEdge_exact allowed (only trivial),
        decide_true, Bool.true_and, reached]
      cases outcome <;> rfl
    · simp only [Bind.bind, Except.bind, back, if_false,
        forwardBranch_exact (modelsLeft.decided trivial) allowed (only trivial), decide_false,
        Bool.false_and, Bool.false_eq_true, ← reached]
      rfl
  | switch table =>
    simp only [Machine.advance, operation] at advanced
    split at advanced
    · rename_i selector _ words shape
      simp only [Option.some.injEq, Prod.mk.injEq, ← table.offsetFor_eq] at advanced
      obtain ⟨next, rfl⟩ := advanced
      obtain ⟨left, yields, modelsLeft, _, _, alone⟩ := models.evaluateSwitch shape
      obtain ⟨notPassed, candidate⟩ := alone trivial
      refine ⟨left, modelsLeft, ?_⟩
      have found := switchTargets_exact (modelsLeft.decided trivial) notPassed candidate next.symm
        inside
      simp only [step, operation, World.evaluateSwitch, after_eq yields, Bind.bind, Except.bind,
        found, move, Visit.switches, if_true]
      rfl
    · cases advanced
  | jsr | ret | terminate | unsupported => simp [Machine.advance, operation] at advanced

end Models

/-- What a determined path through the listed visits adds to an exploration: one terminal state, and
counts of the instructions, backward branches and switches on the way. Each switch opens a fork that
stays open to the end of the path, so the deepest one counts them all. -/
structure Explorer.Adds {W : Type} (visits : List Visit) (terminal : W) (before left : Explorer W) :
    Prop where
  terminals : left.findings.terminals = before.findings.terminals.push terminal
  unsupported : left.findings.unsupported = before.findings.unsupported
  depth : left.findings.forks.depth = before.findings.forks.depth
  forks : left.findings.forks.metrics.forks =
    before.findings.forks.metrics.forks + visits.countP Visit.switches
  maxForkDepth : left.findings.forks.metrics.maxForkDepth =
    max before.findings.forks.metrics.maxForkDepth
      (before.findings.forks.depth + visits.countP Visit.switches)
  instructions : left.findings.recorder.instructions =
    before.findings.recorder.instructions + visits.length
  backEdges : left.findings.recorder.backEdges =
    before.findings.recorder.backEdges + visits.countP Visit.loops
  switchCases : left.findings.recorder.switchCases =
    before.findings.recorder.switchCases + visits.countP Visit.switches
  terminalStates : left.findings.recorder.terminalStates =
    before.findings.recorder.terminalStates + 1
  unsupportedPaths : left.findings.recorder.unsupportedPaths =
    before.findings.recorder.unsupportedPaths
  deadPaths : left.findings.recorder.deadPaths = before.findings.recorder.deadPaths

/-- Forks are not limited, and the deepest fork so far is not above the present depth. -/
def Explorer.Unlimited {W : Type} (explorer : Explorer W) : Prop :=
  explorer.findings.forks.limits.maxForkDepth = none ∧
    explorer.findings.forks.depth ≤ explorer.findings.forks.metrics.maxForkDepth

theorem Visit.loops_of_switches {visit : Visit} (switches : visit.switches = true) :
    visit.loops = false := by
  unfold Visit.switches at switches
  split at switches
  · rename_i operation
    simp [Visit.loops, operation]
  · cases switches

theorem Visit.plain_of_returned {instruction : Instruction} {machine : Machine} {word : Word}
    (returned : machine.returned instruction = some word) :
    (Visit.mk instruction machine).switches = false ∧
      (Visit.mk instruction machine).loops = false := by
  unfold Machine.returned at returned
  split at returned
  · rename_i operation
    simp [Visit.switches, Visit.loops, operation]
  · cases returned

namespace Explorer

variable {W : Type} {visit : Visit} {visits : List Visit} {terminal : W}
  {explorer left : Explorer W} {offset stackDepth : Nat} {opcode : Opcode}

def opened (explorer : Explorer W) : Explorer W :=
  let forks := explorer.findings.forks
  explorer.setForks ⟨forks.limits, forks.depth + 1,
    ⟨forks.metrics.forks + 1, max forks.metrics.maxForkDepth (forks.depth + 1)⟩⟩

theorem forked_unlimited {run : Run W} {world : W} {target : Nat}
    (unlimited : explorer.findings.forks.limits.maxForkDepth = none) :
    forked run world target explorer =
      let (outcome, inner) := run world target explorer.opened
      (outcome, inner.setForks inner.findings.forks.exit) := by
  have entered : explorer.findings.forks.exhausted = none := by
    rw [ForkGuard.exhausted, unlimited]
    rfl
  simp only [forked, ForkGuard.enter, entered]
  rfl

theorem Adds.visited (adds : Adds visits terminal
      (explorer.update (·.visited offset opcode stackDepth)) left)
    (switches : ¬visit.switches = true) (loops : ¬visit.loops = true) :
    Adds (visit :: visits) terminal explorer left where
  terminals := adds.terminals
  unsupported := adds.unsupported
  depth := adds.depth
  forks := by rw [List.countP_cons_of_neg switches]; exact adds.forks
  maxForkDepth := by rw [List.countP_cons_of_neg switches]; exact adds.maxForkDepth
  instructions := adds.instructions.trans (Nat.add_right_comm ..)
  backEdges := by rw [List.countP_cons_of_neg loops]; exact adds.backEdges
  switchCases := by rw [List.countP_cons_of_neg switches]; exact adds.switchCases
  terminalStates := adds.terminalStates
  unsupportedPaths := adds.unsupportedPaths
  deadPaths := adds.deadPaths

theorem Adds.followed (adds : Adds visits terminal
      ((explorer.update (·.visited offset opcode stackDepth)).update .followed) left)
    (switches : ¬visit.switches = true) (loops : visit.loops = true) :
    Adds (visit :: visits) terminal explorer left where
  terminals := adds.terminals
  unsupported := adds.unsupported
  depth := adds.depth
  forks := by rw [List.countP_cons_of_neg switches]; exact adds.forks
  maxForkDepth := by rw [List.countP_cons_of_neg switches]; exact adds.maxForkDepth
  instructions := adds.instructions.trans (Nat.add_right_comm ..)
  backEdges := by
    rw [List.countP_cons_of_pos loops]
    exact adds.backEdges.trans (Nat.add_right_comm ..)
  switchCases := by rw [List.countP_cons_of_neg switches]; exact adds.switchCases
  terminalStates := adds.terminalStates
  unsupportedPaths := adds.unsupportedPaths
  deadPaths := adds.deadPaths

theorem Adds.switched (adds : Adds visits terminal
      ((explorer.update (·.visited offset opcode stackDepth)).update .switched).opened left)
    (switches : visit.switches = true) :
    Adds (visit :: visits) terminal explorer (left.setForks left.findings.forks.exit) where
  terminals := adds.terminals
  unsupported := adds.unsupported
  depth := congrArg (· - 1) adds.depth
  forks := by
    rw [List.countP_cons_of_pos switches]
    exact adds.forks.trans (Nat.add_right_comm ..)
  maxForkDepth := by
    rw [List.countP_cons_of_pos switches]
    have deepest : left.findings.forks.metrics.maxForkDepth =
        max (max explorer.findings.forks.metrics.maxForkDepth (explorer.findings.forks.depth + 1))
          (explorer.findings.forks.depth + 1 + visits.countP Visit.switches) := adds.maxForkDepth
    have kept : (left.setForks left.findings.forks.exit).findings.forks.metrics.maxForkDepth =
        left.findings.forks.metrics.maxForkDepth := rfl
    rw [kept, deepest]
    omega
  instructions := adds.instructions.trans (Nat.add_right_comm ..)
  backEdges := by
    have loops : ¬visit.loops = true := Bool.eq_false_iff.mp (Visit.loops_of_switches switches)
    rw [List.countP_cons_of_neg loops]
    exact adds.backEdges
  switchCases := by
    rw [List.countP_cons_of_pos switches]
    exact adds.switchCases.trans (Nat.add_right_comm ..)
  terminalStates := adds.terminalStates
  unsupportedPaths := adds.unsupportedPaths
  deadPaths := adds.deadPaths

end Explorer

theorem Run.inside {body : MethodBody} {offset : Nat} {machine : Machine} {visits : List Visit}
    {word : Word} (run : Run body offset machine visits word) : offset < body.size := by
  cases run with
  | ends decoded _ => exact (MethodBody.decode_cases decoded).2.1
  | moves decoded _ _ => exact (MethodBody.decode_cases decoded).2.1

/-- Along a run that computes without cutting, the exploration takes the run's path and no other. -/
theorem explore_exact {body : MethodBody} {offset : Nat} {machine : Machine} {visits : List Visit}
    {word : Word} (run : Run body offset machine visits word)
    (exact : ∀ visit ∈ visits, visit.exact body = true) {seeds : Seeds} {frame : Frame Interval}
    (models : Models True seeds machine frame) {fuel : Nat} (enough : visits.length ≤ fuel)
    {explorer : Explorer (Frame Interval)} (unlimited : explorer.Unlimited) :
    ∃ ending left terminal value,
      Explorer.explore body fuel frame offset explorer = (.finished ending, left) ∧
      Explorer.Adds visits terminal explorer left ∧ terminal.returnValue = some value ∧
      Interval.Denotes True word value := by
  induction run generalizing frame fuel explorer with
  | ends decoded returned =>
    obtain ⟨opcode, known⟩ := MethodBody.decode_known decoded (Machine.returned_known returned)
    obtain ⟨switches, loops⟩ := Visit.plain_of_returned returned
    cases fuel with
    | zero => simp at enough
    | succ fuel =>
      obtain ⟨terminal, value, stepped, result, denotes⟩ :=
        models.step_returns returned body explorer.returns
      rw [Explorer.explore_visit decoded known, stepped]
      refine ⟨_, _, terminal, value, rfl, ?_, result, denotes⟩
      constructor <;> simp [switches, loops, Explorer.update, Findings.collected, Findings.visited,
        Recorder.instruction, Recorder.terminal, unlimited.2]
  | @moves offset machine instruction target after visits word decoded advanced rest ih =>
    obtain ⟨opcode, known⟩ := MethodBody.decode_known decoded (Machine.advance_known advanced)
    have here := exact ⟨instruction, machine⟩ List.mem_cons_self
    have later : ∀ visit ∈ visits, visit.exact body = true :=
      fun visit among => exact visit (List.mem_cons_of_mem _ among)
    cases fuel with
    | zero => simp at enough
    | succ fuel =>
      have enoughLater : visits.length ≤ fuel := by simpa using enough
      obtain ⟨next, modelsNext, stepped⟩ :=
        models.step_exact advanced here rest.inside explorer.returns
      rw [Explorer.explore_visit decoded known, stepped]
      have depth : explorer.findings.forks.depth + 1 ≤
          max explorer.findings.forks.metrics.maxForkDepth (explorer.findings.forks.depth + 1) :=
        Nat.le_max_right ..
      -- A switch, a loop and any other move are each recorded in their own way.
      by_cases switches : (Visit.mk instruction machine).switches = true
      · have counted : ((explorer.update (·.visited offset opcode (World.stackDepth frame))).update
            .switched).findings.forks.limits.maxForkDepth = none := unlimited.1
        have opened : ((explorer.update (·.visited offset opcode (World.stackDepth frame))).update
            .switched).opened.Unlimited := ⟨unlimited.1, depth⟩
        obtain ⟨ending, left, terminal, value, ran, adds, result, denotes⟩ :=
          ih later modelsNext enoughLater opened
        refine ⟨.switched, left.setForks left.findings.forks.exit, terminal, value, ?_,
          adds.switched switches, result, denotes⟩
        simp only [Models.move, switches, Explorer.follow, Explorer.fanOut, if_true]
        rw [Explorer.forked_unlimited counted, ran]
      · by_cases loops : (Visit.mk instruction machine).loops = true
        · have followed : ((explorer.update (·.visited offset opcode
              (World.stackDepth frame))).update .followed).Unlimited := unlimited
          obtain ⟨ending, left, terminal, value, ran, adds, result, denotes⟩ :=
            ih later modelsNext enoughLater followed
          refine ⟨ending, left, terminal, value, ?_, adds.followed switches loops, result, denotes⟩
          simp only [Models.move, switches, loops, Explorer.follow]
          exact ran
        · have visited : (explorer.update (·.visited offset opcode
              (World.stackDepth frame))).Unlimited := unlimited
          obtain ⟨ending, left, terminal, value, ran, adds, result, denotes⟩ :=
            ih later modelsNext enoughLater visited
          refine ⟨ending, left, terminal, value, ?_, adds.visited switches loops, result, denotes⟩
          simp only [Models.move, switches, loops, Explorer.follow]
          exact ran

theorem Models.start_exact {seeds : Seeds} {locals : Nat → Option Word} (looping : Bool)
    (seeded : ∀ index word, locals index = some word → ∃ kind : IntKind,
      kind.category = word.width.kind.category ∧
        seeds.locals.get? index = some (.integral kind (.singleton word.value))) :
    Models True seeds ⟨[], locals⟩ (Frame.start seeds false looping) := by
  refine ⟨rfl, .nil, ?_, fun _ => rfl⟩
  intro index word present
  obtain ⟨kind, category, seed⟩ := seeded index word present
  have denotes : Interval.Denotes True word (.integral kind (.singleton word.value)) :=
    Interval.denotes_singleton category
  have given : seeds.factory.localValue index word.kind =
      .integral kind (.singleton word.value) := by
    simp only [Seeds.factory, Seeds.value, seed, denotes.has.1, if_true]
  exact given ▸ denotes

theorem Interval.Denotes.alone {word : Word} {value : Interval} (denotes : Denotes True word value)
    (concrete : ConcreteValue) :
    value.concretize.contains concrete = true ↔ concrete = .int word.value := by
  obtain ⟨_, _, only⟩ := denotes
  rw [only trivial]
  cases concrete with
  | int number =>
    simp only [IntRange.singleton, concretize, Concretization.contains, Bool.and_eq_true,
      decide_eq_true_eq, ConcreteValue.int.injEq]
    omega
  | float | null | returnAddress =>
    simp [IntRange.singleton, concretize, Concretization.contains]

/-- If every local that a run reads before it writes it is seeded with its one word, no result on
the way is cut, and the targets of the branches on the way lie in the code, the exploration ends
without an error in a single terminal state. That state returns exactly the word that the run
returns, and the exploration has counted each instruction, each backward branch that was taken and
each switch once. -/
theorem interpret_exact (body : MethodBody) (seeds : Seeds) (looping : Bool) (config : Config)
    (fuel : Nat) (locals : Nat → Option Word) (visits : List Visit) (word : Word)
    (seeded : ∀ index word, locals index = some word → ∃ kind : IntKind,
      kind.category = word.width.kind.category ∧
        seeds.locals.get? index = some (.integral kind (.singleton word.value)))
    (unlimited : config.limits.maxForkDepth = none)
    (run : Run body 0 ⟨[], locals⟩ visits word)
    (exact : ∀ visit ∈ visits, visit.exact body = true) (enough : visits.length ≤ fuel) :
    ∃ exploration world value,
      interpret body config fuel (Frame.start seeds false looping) = .finished exploration ∧
      exploration.terminalStates = 1 ∧ exploration.world = some world ∧
      world.returnValue = some value ∧ value.kind.compatible word.kind = true ∧
      (∀ concrete, value.concretize.contains concrete = true ↔ concrete = .int word.value) ∧
      exploration.unsupported = [] ∧
      exploration.trace.metrics.forks =
        ⟨visits.countP Visit.switches, visits.countP Visit.switches⟩ ∧
      exploration.trace.metrics.backEdges = visits.countP Visit.loops ∧
      exploration.trace.metrics.instructions = visits.length ∧
      exploration.trace.metrics.switchCases = visits.countP Visit.switches ∧
      exploration.trace.metrics.terminalStates = 1 ∧
      exploration.trace.metrics.unsupportedPaths = 0 ∧
      exploration.trace.metrics.deadPaths = 0 := by
  have fresh : (Explorer.new config : Explorer (Frame Interval)).Unlimited :=
    ⟨unlimited, Nat.le_refl 0⟩
  obtain ⟨ending, left, terminal, value, explored, adds, result, denotes⟩ :=
    explore_exact run exact (Models.start_exact looping seeded) enough fresh
  have only : left.findings.terminals = #[terminal] := adds.terminals
  have finished : interpret body config fuel (Frame.start seeds false looping) =
      .finished
        { world := some terminal
          terminalStates := 1
          unsupported := left.findings.unsupported.toList
          trace := left.findings.recorder.finish left.findings.forks.metrics } := by
    simp only [interpret, Explorer.interpret, explored, only]
    rfl
  have forks : left.findings.forks.metrics =
      ⟨visits.countP Visit.switches, visits.countP Visit.switches⟩ := by
    have opened := adds.forks
    have deepest := adds.maxForkDepth
    simp only [Explorer.new, Findings.new, ForkGuard.new, Nat.zero_add, Nat.zero_max]
      at opened deepest
    rw [← opened]
    rw [← opened] at deepest
    exact congrArg (ForkMetrics.mk _) deepest
  exact ⟨_, terminal, value, finished, rfl, rfl, result, denotes.has.1, denotes.alone,
    congrArg Array.toList adds.unsupported, forks, adds.backEdges.trans (Nat.zero_add _),
    adds.instructions.trans (Nat.zero_add _), adds.switchCases.trans (Nat.zero_add _),
    adds.terminalStates, adds.unsupportedPaths, adds.deadPaths⟩

/-- Counts local 0 down to zero and then switches on it: `iinc 0 -1; iload_0; ifgt -4; iload_0;
tableswitch 0: +20, default: +23; bipush 42; ireturn; iconst_m1; ireturn`. -/
def countdownBody : MethodBody :=
  ⟨#[0x84, 0x00, 0xff, 0x1a, 0x9d, 0xff, 0xfc, 0x1a, 0xaa, 0x00, 0x00, 0x00,
    0x00, 0x00, 0x00, 0x17, 0x00, 0x00, 0x00, 0x00, 0x00, 0x00, 0x00, 0x00,
    0x00, 0x00, 0x00, 0x14, 0x10, 0x2a, 0xac, 0x02, 0xac], .empty⟩

theorem interpret_exact_countdown : ∃ exploration world value,
    interpret countdownBody .default 10 (Frame.start
      ⟨.ofList [(0, .integral .byte (.singleton 2))], .empty⟩ false true) = .finished exploration ∧
      exploration.terminalStates = 1 ∧ exploration.world = some world ∧
      world.returnValue = some value ∧
      (∀ concrete, value.concretize.contains concrete = true ↔ concrete = .int 42) ∧
      exploration.trace.metrics.forks.forks = 1 ∧ exploration.trace.metrics.backEdges = 1 := by
  have executed : ∃ visits word, execute countdownBody 10 0
      ⟨[], fun index => if index = 0 then some (.wrap .int 2) else none⟩ = some (visits, word) ∧
        word = .wrap .int 42 ∧ visits.all (Visit.exact countdownBody) = true ∧
        visits.length = 10 ∧ visits.countP Visit.switches = 1 ∧ visits.countP Visit.loops = 1 :=
    ⟨_, _, rfl, by decide +kernel, by decide +kernel, by decide, by decide, by decide +kernel⟩
  obtain ⟨visits, _, ran, rfl, exact, count, switches, loops⟩ := executed
  have seeded : ∀ index word, (if index = 0 then some (Word.wrap .int 2) else none) = some word →
      ∃ kind : IntKind, kind.category = word.width.kind.category ∧
        (SortedMap.ofList [(0, Interval.integral .byte (.singleton 2))]).get? index =
          some (.integral kind (.singleton word.value)) := by
    intro index word present
    split at present
    · rename_i first
      subst first
      cases present
      exact ⟨.byte, rfl, rfl⟩
    · cases present
  obtain ⟨exploration, world, value, finished, single, joined, result, _, alone, _, forks,
    backEdges, _⟩ := interpret_exact countdownBody
      ⟨.ofList [(0, .integral .byte (.singleton 2))], .empty⟩ true
      .default 10 _ visits _ seeded rfl (.of_execute ran) (List.all_eq_true.mp exact) (by omega)
  rw [switches] at forks
  rw [loops] at backEdges
  exact ⟨exploration, world, value, finished, single, joined, result, alone,
    congrArg ForkMetrics.forks forks, backEdges⟩

end MethodFlow

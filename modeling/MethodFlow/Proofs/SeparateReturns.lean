import MethodFlow.Proofs.Exploration

/-! Return addresses of one path and of all. An exploration keeps the return addresses of all its
paths on one stack. Here it is compared with an exploration in which every path has a list of its
own and a fork hands on a copy. The stack holds what the path at hand would have in its list as long
as paths fork and end with empty lists, so the two explorations then find the same. -/
namespace MethodFlow

/-- What was found, and the return addresses that paths had when they forked or ended. -/
structure SeparatePaths (W : Type) where
  findings : Findings W
  held : List (List Nat)

namespace SeparatePaths

variable {W : Type}

def new (config : Config) : SeparatePaths W := ⟨.new config.limits config.recordSteps, []⟩

def update (paths : SeparatePaths W) (f : Findings W → Findings W) : SeparatePaths W :=
  { paths with findings := f paths.findings }

def setForks (paths : SeparatePaths W) (forks : ForkGuard) : SeparatePaths W :=
  paths.update fun findings => { findings with forks := forks }

def holding (paths : SeparatePaths W) (returns : List Nat) : SeparatePaths W :=
  { paths with held := returns :: paths.held }

/-- Paths have forked and ended without a return address. -/
def Quiet (paths : SeparatePaths W) : Prop := ∀ returns ∈ paths.held, returns = []

abbrev Run (W : Type) :=
  W → Nat → List Nat → SeparatePaths W → Outcome EngineError PathEnd × SeparatePaths W

def forked (run : Run W) : Run W := fun world target returns paths =>
  match paths.findings.forks.enter with
  | .error error => (.failed (.limit error), paths)
  | .ok forks =>
    let (outcome, paths) := run world target returns (paths.setForks forks)
    (outcome, paths.setForks paths.findings.forks.exit)

def fanOut (run : Run W) (world : W) (returns : List Nat) :
    List Nat → SeparatePaths W → Outcome EngineError PathEnd × SeparatePaths W
  | [], paths => (.finished .switched, paths)
  | target :: rest, paths =>
    andThen (forked run world target returns (paths.update .switched))
      (fanOut run world returns rest)

def follow (run : Run W) (instruction : Instruction) (returns : List Nat)
    (paths : SeparatePaths W) :
    Except EngineError (Move W) → Outcome EngineError PathEnd × SeparatePaths W
  | .error error => (.failed error, paths)
  | .ok (.jump world offset returns) => run world offset returns paths
  | .ok (.loop world offset) => run world offset returns (paths.update .followed)
  | .ok (.fork world target next) =>
    andThen (forked run world target returns (paths.holding returns)) (run world next returns)
  | .ok (.fanOut world targets) => fanOut run world returns targets (paths.holding returns)
  | .ok (.finish world) =>
    (.finished .terminal, (paths.update (·.collected world)).holding returns)
  | .ok .abandon =>
    (.finished .unsupported, (paths.update (·.abandoned instruction)).holding returns)

variable [World W]

def explore (body : MethodBody) : Nat → Run W
  | 0, _, _, _, paths => (.outOfFuel, paths)
  | fuel + 1, world, offset, returns, paths =>
    if body.size ≤ offset then (.finished .fellOffEnd, (paths.update .ranOff).holding returns)
    else
      match body.decode offset with
      | .error error => (.failed (.decode error), paths)
      | .ok instruction =>
        match instruction.opcode with
        | none => (.finished .unsupported, (paths.update (·.abandoned instruction)).holding returns)
        | some opcode =>
          follow (explore body fuel) instruction returns
            (paths.update (·.visited offset opcode (World.stackDepth world)))
            (step body instruction world returns)

def interpret (body : MethodBody) (config : Config) (fuel : Nat) (world : W) :
    Outcome EngineError (Exploration W) :=
  let (outcome, paths) := explore body fuel world 0 [] (.new config)
  (Explorer.mk [] paths.findings).report outcome

section Growth

omit [World W]

structure Grows (before after : SeparatePaths W) : Prop where
  held : ∀ returns ∈ before.held, returns ∈ after.held
  coverage : ∀ offset ∈ before.findings.recorder.coverage.toList,
    offset ∈ after.findings.recorder.coverage.toList

theorem Grows.refl (paths : SeparatePaths W) : Grows paths paths :=
  ⟨fun _ member => member, fun _ member => member⟩

theorem Grows.trans {first second third : SeparatePaths W} (before : Grows first second)
    (after : Grows second third) : Grows first third :=
  ⟨fun returns member => after.held returns (before.held returns member),
    fun offset member => after.coverage offset (before.coverage offset member)⟩

theorem Grows.of_eq {before after : SeparatePaths W} (held : before.held = after.held)
    (coverage : before.findings.recorder.coverage = after.findings.recorder.coverage) :
    Grows before after :=
  ⟨fun _ member => held ▸ member, fun _ member => coverage ▸ member⟩

theorem grows_holding (paths : SeparatePaths W) (returns : List Nat) :
    Grows paths (paths.holding returns) :=
  ⟨fun _ member => List.mem_cons_of_mem _ member, fun _ member => member⟩

theorem Grows.andThen {before : SeparatePaths W}
    {first : Outcome EngineError PathEnd × SeparatePaths W}
    {next : SeparatePaths W → Outcome EngineError PathEnd × SeparatePaths W}
    (grows : Grows before first.2) (onward : ∀ between, Grows between (next between).2) :
    Grows before (MethodFlow.andThen first next).2 := by
  obtain ⟨outcome, between⟩ := first
  cases outcome with
  | finished ending => exact grows.trans (onward between)
  | failed error => exact grows
  | outOfFuel => exact grows

theorem forked_refused {paths : SeparatePaths W} {reason : LimitError}
    (refused : paths.findings.forks.enter = .error reason) (run : Run W) (world : W) (target : Nat)
    (returns : List Nat) :
    forked run world target returns paths = (.failed (.limit reason), paths) := by
  simp only [forked, refused]

theorem forked_opened {paths : SeparatePaths W} {forks : ForkGuard}
    (entered : paths.findings.forks.enter = .ok forks) (run : Run W) (world : W) (target : Nat)
    (returns : List Nat) :
    forked run world target returns paths =
      ((run world target returns (paths.setForks forks)).1,
        (run world target returns (paths.setForks forks)).2.setForks
          (run world target returns (paths.setForks forks)).2.findings.forks.exit) := by
  simp only [forked, entered]

def Growing (run : Run W) : Prop :=
  ∀ world offset returns paths, Grows paths (run world offset returns paths).2

theorem forked_growing {run : Run W} (growing : Growing run) : Growing (forked run) := by
  intro world target returns paths
  cases entered : paths.findings.forks.enter with
  | error reason =>
    rw [forked_refused entered]
    exact .refl paths
  | ok forks =>
    rw [forked_opened entered]
    have inner := growing world target returns (paths.setForks forks)
    exact ⟨inner.held, inner.coverage⟩

theorem fanOut_growing {run : Run W} (growing : Growing run) (world : W) (returns : List Nat)
    (targets : List Nat) (paths : SeparatePaths W) :
    Grows paths (fanOut run world returns targets paths).2 := by
  induction targets generalizing paths with
  | nil => exact .refl paths
  | cons target rest ih =>
    have first := forked_growing growing world target returns (paths.update .switched)
    have counted : Grows paths (paths.update .switched) := .of_eq rfl rfl
    exact (counted.trans first).andThen ih

theorem follow_growing {run : Run W} (growing : Growing run) (instruction : Instruction)
    (returns : List Nat) (paths : SeparatePaths W) (move : Except EngineError (Move W)) :
    Grows paths (follow run instruction returns paths move).2 := by
  have holds := grows_holding paths returns
  cases move with
  | error => exact .refl paths
  | ok move =>
    cases move with
    | jump world offset returns => exact growing world offset returns paths
    | loop world offset =>
      have onward := growing world offset returns (paths.update .followed)
      exact ⟨onward.held, onward.coverage⟩
    | fork world target next =>
      exact (holds.trans (forked_growing growing world target returns _)).andThen
        (growing world next returns)
    | fanOut world targets =>
      exact holds.trans (fanOut_growing growing world returns targets _)
    | finish world => exact ⟨holds.held, holds.coverage⟩
    | abandon => exact ⟨holds.held, holds.coverage⟩

end Growth

theorem visited_follow_grows {body : MethodBody} {fuel : Nat}
    (growing : Growing (explore body fuel : Run W)) (instruction : Instruction) (returns : List Nat)
    (paths : SeparatePaths W) (offset : Nat) (opcode : Opcode) (depth : Nat)
    (move : Except EngineError (Move W)) :
    Grows paths (follow (explore body fuel) instruction returns
      (paths.update (·.visited offset opcode depth)) move).2 := by
  have later := follow_growing growing instruction returns
    (paths.update (·.visited offset opcode depth)) move
  exact ⟨later.held, fun reached member =>
    later.coverage reached (SortedSet.mem_insert.mpr (.inr member))⟩

theorem explore_growing (body : MethodBody) (fuel : Nat) :
    Growing (explore body fuel : Run W) := by
  induction fuel with
  | zero => exact fun _ _ _ paths => .refl paths
  | succ fuel ih =>
    intro world offset returns paths
    have holds := grows_holding paths returns
    unfold explore
    split
    · exact ⟨holds.held, holds.coverage⟩
    · split
      · exact .refl paths
      · split
        · exact ⟨holds.held, holds.coverage⟩
        · exact visited_follow_grows ih ..

/-- Paths have forked and ended without a return address, or there was none to begin with and no
subroutine was come across. -/
def Calm (body : MethodBody) (returns : List Nat) (paths : SeparatePaths W) : Prop :=
  paths.Quiet ∨ returns = [] ∧
    ∀ offset ∈ paths.findings.recorder.coverage.toList, body.subroutineAt offset = false

/-- The shared stack has led to the same end and the same findings, and is empty if that end was
reached without an error. -/
structure Agrees (own : Outcome EngineError PathEnd × SeparatePaths W)
    (shared : Outcome EngineError PathEnd × Explorer W) : Prop where
  outcome : shared.1 = own.1
  findings : shared.2.findings = own.2.findings
  returns : ∀ ending, own.1 = .finished ending → shared.2.returns = []

def AgreesOn (body : MethodBody) (run : Run W) (shared : Explorer.Run W) : Prop :=
  ∀ world offset returns paths, Calm body returns (run world offset returns paths).2 →
    Agrees (run world offset returns paths) (shared world offset ⟨returns, paths.findings⟩)

section Agreement

omit [World W]

variable {body : MethodBody} {returns : List Nat} {paths before after : SeparatePaths W}

theorem Calm.earlier (calm : Calm body returns after) (grows : Grows before after) :
    Calm body returns before := by
  rcases calm with quiet | ⟨empty, plain⟩
  · exact .inl fun returns member => quiet returns (grows.held returns member)
  · exact .inr ⟨empty, fun offset member => plain offset (grows.coverage offset member)⟩

theorem Calm.empty (calm : Calm body returns paths) (held : returns ∈ paths.held) :
    returns = [] := by
  rcases calm with quiet | ⟨empty, _⟩
  · exact quiet returns held
  · exact empty

theorem Agrees.andThen {first : Outcome EngineError PathEnd × SeparatePaths W}
    {first' : Outcome EngineError PathEnd × Explorer W}
    {next : SeparatePaths W → Outcome EngineError PathEnd × SeparatePaths W}
    {next' : Explorer W → Outcome EngineError PathEnd × Explorer W} (agrees : Agrees first first')
    (onward : ∀ ending between, first = (.finished ending, between) →
      Agrees (next between) (next' ⟨[], between.findings⟩)) :
    Agrees (MethodFlow.andThen first next) (MethodFlow.andThen first' next') := by
  obtain ⟨outcome, between⟩ := first
  obtain ⟨outcome', returns, findings⟩ := first'
  obtain ⟨same, found, emptied⟩ := agrees
  dsimp only at same found emptied
  subst same found
  cases outcome' with
  | finished ending =>
    obtain rfl : returns = [] := emptied ending rfl
    exact onward ending between rfl
  | failed error => exact ⟨rfl, rfl, nofun⟩
  | outOfFuel => exact ⟨rfl, rfl, nofun⟩

theorem forked_agrees {run : Run W} {shared : Explorer.Run W} (agrees : AgreesOn body run shared) :
    AgreesOn body (forked run) (Explorer.forked shared) := by
  intro world target returns paths calm
  cases entered : paths.findings.forks.enter with
  | error reason =>
    rw [forked_refused entered, Explorer.forked_refused entered]
    exact ⟨rfl, rfl, nofun⟩
  | ok forks =>
    rw [forked_opened entered] at calm ⊢
    rw [Explorer.forked_opened entered]
    have inner := agrees world target returns (paths.setForks forks) calm
    refine ⟨inner.outcome, ?_, inner.returns⟩
    exact congrArg (fun findings => { findings with forks := findings.forks.exit }) inner.findings

theorem fanOut_agrees {run : Run W} {shared : Explorer.Run W} (growing : Growing run)
    (agrees : AgreesOn body run shared) (world : W) (targets : List Nat) (paths : SeparatePaths W)
    (calm : Calm body [] (fanOut run world [] targets paths).2) :
    Agrees (fanOut run world [] targets paths)
      (Explorer.fanOut shared world targets ⟨[], paths.findings⟩) := by
  induction targets generalizing paths with
  | nil => exact ⟨rfl, rfl, fun _ _ => rfl⟩
  | cons target rest ih =>
    rw [fanOut] at calm ⊢
    rw [Explorer.fanOut_cons]
    have later : Grows (forked run world target [] (paths.update .switched)).2
        (andThen (forked run world target [] (paths.update .switched))
          (fanOut run world [] rest)).2 :=
      (Grows.refl _).andThen (fanOut_growing growing world [] rest)
    have first := forked_agrees agrees world target [] (paths.update .switched)
      (calm.earlier later)
    refine first.andThen ?_
    intro ending between explored
    rw [explored] at calm
    exact ih between calm

end Agreement

theorem step_returns {body : MethodBody} {instruction : Instruction} {world world' : W}
    {offset : Nat} {returns returns' : List Nat}
    (plain : instruction.operation.isSubroutine = false)
    (stepped : step body instruction world returns = .ok (.jump world' offset returns')) :
    returns' = returns := by
  generalize moved : Move.jump world' offset returns' = move at stepped
  cases step_steps stepped with
  | nop | effect | goto =>
    cases moved
    rfl
  | jsr operation _ _ | ret operation _ _ =>
    rw [operation] at plain
    cases plain
  | backward =>
    unfold loopEdge at moved
    split at moved
    · cases moved
    · cases moved
      rfl
  | forward =>
    unfold forwardBranch at moved
    split at moved
    · cases moved
    · cases moved
      rfl
  | switch | terminate | unsupported => cases moved

theorem Calm.jump {body : MethodBody} {instruction : Instruction} {world world' : W}
    {offset target : Nat} {returns returns' : List Nat} {after : SeparatePaths W}
    (calm : Calm body returns after) (decoded : body.decode offset = .ok instruction)
    (covered : offset ∈ after.findings.recorder.coverage.toList)
    (stepped : step body instruction world returns = .ok (.jump world' target returns')) :
    Calm body returns' after := by
  rcases calm with quiet | ⟨empty, plain⟩
  · exact .inl quiet
  · have here := plain offset covered
    simp only [MethodBody.subroutineAt, decoded] at here
    exact .inr ⟨(step_returns here stepped).trans empty, plain⟩

theorem follow_agrees {body : MethodBody} {fuel : Nat} {instruction : Instruction}
    {returns : List Nat} {paths : SeparatePaths W} {move : Move W}
    (agrees : AgreesOn body (explore body fuel : Run W) (Explorer.explore body fuel))
    (calm : Calm body returns (follow (explore body fuel) instruction returns paths (.ok move)).2)
    (steady : ∀ world offset returns', move = .jump world offset returns' →
      Calm body returns'
        (follow (explore body fuel) instruction returns paths (.ok move)).2) :
    Agrees (follow (explore body fuel) instruction returns paths (.ok move))
      (Explorer.follow body fuel instruction ⟨returns, paths.findings⟩ (.ok move)) := by
  have growing : Growing (explore body fuel : Run W) := explore_growing body fuel
  cases move with
  | jump world offset returns' =>
    exact agrees world offset returns' paths (steady world offset returns' rfl)
  | loop world offset => exact agrees world offset returns (paths.update .followed) calm
  | fork world target next =>
    have later : Grows (forked (explore body fuel) world target returns (paths.holding returns)).2
        (follow (explore body fuel) instruction returns paths (.ok (.fork world target next))).2 :=
      (Grows.refl _).andThen (growing world next returns)
    have opened := forked_growing growing world target returns (paths.holding returns)
    obtain rfl := calm.empty ((opened.trans later).held returns List.mem_cons_self)
    have first := forked_agrees agrees world target [] (paths.holding []) (calm.earlier later)
    rw [Explorer.follow_fork]
    refine first.andThen ?_
    intro ending between explored
    rw [follow, explored] at calm
    exact agrees world next [] between calm
  | fanOut world targets =>
    have later := fanOut_growing growing world returns targets (paths.holding returns)
    obtain rfl := calm.empty (later.held returns List.mem_cons_self)
    exact fanOut_agrees growing agrees world targets (paths.holding []) calm
  | finish world => exact ⟨rfl, rfl, fun _ _ => calm.empty List.mem_cons_self⟩
  | abandon => exact ⟨rfl, rfl, fun _ _ => calm.empty List.mem_cons_self⟩

theorem explore_agrees (body : MethodBody) (fuel : Nat) :
    AgreesOn body (explore body fuel : Run W) (Explorer.explore body fuel) := by
  induction fuel with
  | zero => exact fun _ _ _ _ _ => ⟨rfl, rfl, nofun⟩
  | succ fuel ih =>
    intro world offset returns paths calm
    cases Explorer.explore_begins body fuel world offset with
    | past outside ends =>
      rw [explore, if_pos outside] at calm ⊢
      rw [ends]
      exact ⟨rfl, rfl, fun _ _ => calm.empty List.mem_cons_self⟩
    | malformed reason inside decoded fails =>
      rw [explore, if_neg (Nat.not_le.mpr inside), decoded, fails]
      exact ⟨rfl, rfl, nofun⟩
    | unknown instruction decoded unknown ends =>
      have inside := (MethodBody.decode_cases decoded).2.1
      rw [explore, if_neg (Nat.not_le.mpr inside), decoded] at calm ⊢
      simp only [unknown] at calm ⊢
      rw [ends]
      exact ⟨rfl, rfl, fun _ _ => calm.empty List.mem_cons_self⟩
    | visit instruction opcode decoded known goes =>
      have inside := (MethodBody.decode_cases decoded).2.1
      rw [explore, if_neg (Nat.not_le.mpr inside), decoded] at calm ⊢
      simp only [known] at calm ⊢
      rw [goes]
      cases stepped : step body instruction world returns with
      | error reason => exact ⟨rfl, rfl, nofun⟩
      | ok move =>
        rw [stepped] at calm
        refine follow_agrees ih calm ?_
        intro world' target returns' moved
        have later := follow_growing (explore_growing body fuel) instruction returns
          (paths.update (·.visited offset opcode (World.stackDepth world))) (.ok move)
        have covered := later.coverage offset (SortedSet.mem_insert.mpr (.inl rfl))
        exact calm.jump decoded covered (moved ▸ stepped)

end SeparatePaths

/-- When the shared stack of return addresses is harmless. If, in the exploration in which every
path has return addresses of its own, paths fork and end without any, or no subroutine is come
across, then the exploration in which all paths share one stack comes to the same end with the same
findings, terminal states, abandoned instructions and recorded trace alike, and has the same
result. -/
theorem interpret_separate {W : Type} [World W] (body : MethodBody) (config : Config) (fuel : Nat)
    (world : W)
    (calm : (SeparatePaths.explore body fuel world 0 [] (.new config)).2.Quiet ∨
      ∀ offset ∈ (SeparatePaths.explore body fuel world 0 []
        (.new config)).2.findings.recorder.coverage.toList, body.subroutineAt offset = false) :
    (Explorer.explore body fuel world 0 (.new config)).1 =
        (SeparatePaths.explore body fuel world 0 [] (.new config)).1 ∧
      (Explorer.explore body fuel world 0 (.new config)).2.findings =
        (SeparatePaths.explore body fuel world 0 [] (.new config)).2.findings ∧
      interpret body config fuel world = SeparatePaths.interpret body config fuel world := by
  have agrees := SeparatePaths.explore_agrees body fuel world 0 [] (.new config)
    (calm.imp_right fun plain => ⟨rfl, plain⟩)
  refine ⟨agrees.outcome, agrees.findings, ?_⟩
  calc interpret body config fuel world
    _ = (Explorer.explore body fuel world 0 (.new config)).2.report
          (Explorer.explore body fuel world 0 (.new config)).1 :=
      Explorer.interpret_eq_report body config fuel world
    _ = (Explorer.explore body fuel world 0 (.new config)).2.report
          (SeparatePaths.explore body fuel world 0 [] (.new config)).1 :=
      congrArg _ agrees.outcome
    _ = SeparatePaths.interpret body config fuel world :=
      Explorer.report_congr agrees.findings _

/-- A subroutine is called and left before a branch forks: `jsr +9; ifeq +5; nop; return; return;
ret 0`. -/
def leavingBody : MethodBody :=
  ⟨#[0xa8, 0x00, 0x09, 0x99, 0x00, 0x05, 0x00, 0xb1, 0xb1, 0xa9, 0x00], .empty⟩

theorem interpret_separate_leaving : ∃ exploration,
    (SeparatePaths.explore leavingBody 5 Blank.mk 0 [] (.new .default)).2.Quiet ∧
      SeparatePaths.interpret leavingBody .default 5 Blank.mk = .finished exploration ∧
      interpret leavingBody .default 5 Blank.mk = .finished exploration ∧
      exploration.terminalStates = 2 := by
  have quiet : ∀ returns ∈
      (SeparatePaths.explore leavingBody 5 Blank.mk 0 [] (.new .default)).2.held,
        returns = [] := by decide +kernel
  have explored : ∃ exploration, SeparatePaths.interpret leavingBody .default 5 Blank.mk =
      .finished exploration ∧ exploration.terminalStates = 2 := ⟨_, rfl, rfl⟩
  obtain ⟨exploration, finished, count⟩ := explored
  obtain ⟨_, _, same⟩ := interpret_separate leavingBody .default 5 Blank.mk (.inl quiet)
  exact ⟨exploration, quiet, finished, same.trans finished, count⟩

/-- A branch that forks inside of a subroutine: `jsr +4; return; ifeq +3; ret 0`. -/
def forkingBody : MethodBody :=
  ⟨#[0xa8, 0x00, 0x04, 0xb1, 0x99, 0x00, 0x03, 0xa9, 0x00], .empty⟩

-- The path of the fork takes the only address off the shared stack, and the other path finds none.
example : interpret forkingBody .default 4 Blank.mk = .failed (.retWithoutJsr 7) ∧
    ∃ exploration, SeparatePaths.interpret forkingBody .default 4 Blank.mk =
      .finished exploration ∧ exploration.terminalStates = 2 := ⟨rfl, _, rfl, rfl⟩

end MethodFlow

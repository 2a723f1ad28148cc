import MethodFlow.Proofs.Exploration

/-! What a configuration has to do with the result of an exploration. A limit on the fork depth
either does not show or ends the exploration with an error that names it, and which of the two is
decided by the depth that is reached without a limit. Whether steps are kept shows in the list of
steps and nowhere else. Both follow from one comparison of two explorations that start with
different findings. -/
namespace MethodFlow

def Outcome.map {ε α β : Type} (f : α → β) : Outcome ε α → Outcome ε β
  | .finished value => .finished (f value)
  | .failed error => .failed error
  | .outOfFuel => .outOfFuel

def Exploration.withoutSteps {W : Type} (exploration : Exploration W) : Exploration W :=
  { exploration with trace := { exploration.trace with steps := [] } }

/-- A change of findings that everything an exploration does leaves in place. As long as there is
room, forks are opened on both sides or on none; where the room ends, the changed side refuses. -/
structure Findings.Unnoticed {W : Type} (change : Findings W → Findings W)
    (room : ForkGuard → Prop) (refusal : LimitError) : Prop where
  visited (findings : Findings W) (offset : Nat) (opcode : Opcode) (depth : Nat) :
    change (findings.visited offset opcode depth) = (change findings).visited offset opcode depth
  followed (findings : Findings W) : change findings.followed = (change findings).followed
  switched (findings : Findings W) : change findings.switched = (change findings).switched
  ranOff (findings : Findings W) : change findings.ranOff = (change findings).ranOff
  collected (findings : Findings W) (world : W) :
    change (findings.collected world) = (change findings).collected world
  abandoned (findings : Findings W) (instruction : Instruction) :
    change (findings.abandoned instruction) = (change findings).abandoned instruction
  closed (findings : Findings W) :
    change { findings with forks := findings.forks.exit } =
      { change findings with forks := (change findings).forks.exit }
  exit (guard : ForkGuard) : room guard.exit ↔ room guard
  enter {guard opened : ForkGuard} : guard.enter = .ok opened → room opened → room guard
  refused {findings : Findings W} {reason : LimitError} : room findings.forks →
    findings.forks.enter = .error reason → (change findings).forks.enter = .error reason
  opened {findings : Findings W} {forks : ForkGuard} : findings.forks.enter = .ok forks →
    room forks → ∃ forks', (change findings).forks.enter = .ok forks' ∧
      { change findings with forks := forks' } = change { findings with forks := forks }
  crowded {findings : Findings W} {forks : ForkGuard} : room findings.forks →
    findings.forks.enter = .ok forks → ¬room forks →
    (change findings).forks.enter = .error refusal

namespace Explorer

variable {W : Type} {change : Findings W → Findings W} {room : ForkGuard → Prop}
  {refusal : LimitError}

/-- If there was room to the end, the second exploration ended as the first did, with changed
findings; otherwise it ended with the refusal. -/
inductive Reflects (change : Findings W → Findings W) (room : ForkGuard → Prop)
    (refusal : LimitError) :
    Outcome EngineError PathEnd × Explorer W → Outcome EngineError PathEnd × Explorer W → Prop
  | same {outcome : Outcome EngineError PathEnd} {left : Explorer W}
      (fits : room left.findings.forks) :
      Reflects change room refusal (outcome, left) (outcome, left.update change)
  | refused {outcome : Outcome EngineError PathEnd} {left left' : Explorer W}
      (crowded : ¬room left.findings.forks) :
      Reflects change room refusal (outcome, left) (.failed (.limit refusal), left')

def Mirrors (change : Findings W → Findings W) (room : ForkGuard → Prop) (refusal : LimitError)
    (run : Run W) : Prop :=
  ∀ world offset explorer, room explorer.findings.forks →
    Reflects change room refusal (run world offset explorer)
      (run world offset (explorer.update change))

/-- There was room before if there is room afterwards. -/
def Roomier (room : ForkGuard → Prop) (before after : Explorer W) : Prop :=
  room after.findings.forks → room before.findings.forks

theorem update_comm {f : Findings W → Findings W} {explorer : Explorer W}
    (same : change (f explorer.findings) = f (change explorer.findings)) :
    (explorer.update f).update change = (explorer.update change).update f :=
  congrArg (Explorer.mk explorer.returns) same

theorem Reflects.next {first first' : Outcome EngineError PathEnd × Explorer W}
    {next : Explorer W → Outcome EngineError PathEnd × Explorer W}
    (reflects : Reflects change room refusal first first')
    (keeps : ∀ explorer, Roomier room explorer (next explorer).2)
    (mirrors : ∀ explorer, room explorer.findings.forks →
      Reflects change room refusal (next explorer) (next (explorer.update change))) :
    Reflects change room refusal (andThen first next) (andThen first' next) := by
  cases reflects with
  | @same outcome left fits =>
    cases outcome with
    | finished ending => exact mirrors left fits
    | failed error => exact .same fits
    | outOfFuel => exact .same fits
  | @refused outcome left left' crowded =>
    cases outcome with
    | finished ending => exact .refused fun fits => crowded (keeps left fits)
    | failed error => exact .refused crowded
    | outOfFuel => exact .refused crowded

section Unnoticed

variable (unnoticed : Findings.Unnoticed change room refusal)

include unnoticed

theorem roomier_stepwise : Stepwise (Roomier room : Explorer W → Explorer W → Prop) where
  refl _ := id
  trans first second := first ∘ second
  returns _ _ := id
  visited _ _ _ _ := id
  followed _ := id
  switched _ := id
  ranOff _ := id
  collected _ _ := id
  abandoned _ _ := id
  forked := by
    intro explorer left forks entered inner fits
    exact unnoticed.enter entered (inner ((unnoticed.exit left.findings.forks).mp fits))

theorem forked_mirrors {run : Run W} (keeps : Keeps (Roomier room) run)
    (mirrors : Mirrors change room refusal run) : Mirrors change room refusal (forked run) := by
  intro world target explorer fits
  cases entered : explorer.findings.forks.enter with
  | error reason =>
    have refused : (explorer.update change).findings.forks.enter = .error reason :=
      unnoticed.refused fits entered
    rw [forked_refused entered, forked_refused refused]
    exact .same fits
  | ok forks =>
    rw [forked_opened entered]
    by_cases inside : room forks
    · obtain ⟨forks', entered', same⟩ := unnoticed.opened entered inside
      have opened : (explorer.update change).setForks forks' =
          (explorer.setForks forks).update change := congrArg (Explorer.mk explorer.returns) same
      have reflects := mirrors world target (explorer.setForks forks) inside
      rw [forked_opened entered', opened]
      generalize run world target (explorer.setForks forks) = free,
        run world target ((explorer.setForks forks).update change) = limited at reflects
      cases reflects with
      | @same outcome left fits =>
        have closes : (left.setForks left.findings.forks.exit).update change =
            (left.update change).setForks (left.update change).findings.forks.exit :=
          congrArg (Explorer.mk left.returns) (unnoticed.closed left.findings)
        rw [← closes]
        exact .same ((unnoticed.exit left.findings.forks).mpr fits)
      | @refused outcome left left' crowded =>
        exact .refused fun fits => crowded ((unnoticed.exit left.findings.forks).mp fits)
    · have refused : (explorer.update change).findings.forks.enter = .error refusal :=
        unnoticed.crowded fits entered inside
      rw [forked_refused refused]
      apply Reflects.refused
      intro later
      exact inside (keeps world target (explorer.setForks forks)
        ((unnoticed.exit (run world target (explorer.setForks forks)).2.findings.forks).mp later))

theorem fanOut_mirrors {run : Run W} (keeps : Keeps (Roomier room) run)
    (mirrors : Mirrors change room refusal run) (world : W) (targets : List Nat)
    (explorer : Explorer W) (fits : room explorer.findings.forks) :
    Reflects change room refusal (fanOut run world targets explorer)
      (fanOut run world targets (explorer.update change)) := by
  induction targets generalizing explorer with
  | nil => exact .same fits
  | cons target rest ih =>
    have first := forked_mirrors unnoticed keeps mirrors world target (explorer.update .switched)
      fits
    rw [update_comm (unnoticed.switched explorer.findings)] at first
    rw [fanOut_cons, fanOut_cons]
    exact first.next (fanOut_keeps (roomier_stepwise unnoticed) keeps world rest) ih

variable [World W] {body : MethodBody} {fuel : Nat}

theorem follow_mirrors (mirrors : Mirrors change room refusal (explore body fuel))
    (instruction : Instruction) (explorer : Explorer W) (fits : room explorer.findings.forks)
    (move : Except EngineError (Move W)) :
    Reflects change room refusal (follow body fuel instruction explorer move)
      (follow body fuel instruction (explorer.update change) move) := by
  have keeps : Keeps (Roomier room) (explore body fuel : Run W) :=
    explore_keeps (roomier_stepwise unnoticed) body fuel
  cases move with
  | error => exact .same fits
  | ok move =>
    cases move with
    | jump world offset returns =>
      exact mirrors world offset { explorer with returns := returns } fits
    | loop world offset =>
      have onward := mirrors world offset (explorer.update .followed) fits
      rw [update_comm (unnoticed.followed explorer.findings)] at onward
      exact onward
    | fork world target next =>
      have first := forked_mirrors unnoticed keeps mirrors world target explorer fits
      rw [follow_fork, follow_fork]
      exact first.next (keeps world next) (mirrors world next)
    | fanOut world targets =>
      exact fanOut_mirrors unnoticed keeps mirrors world targets explorer fits
    | finish world =>
      simp only [follow]
      rw [← update_comm (unnoticed.collected explorer.findings world)]
      exact .same fits
    | abandon =>
      simp only [follow]
      rw [← update_comm (unnoticed.abandoned explorer.findings instruction)]
      exact .same fits

theorem explore_mirrors (body : MethodBody) (fuel : Nat) :
    Mirrors change room refusal (explore body fuel : Run W) := by
  induction fuel with
  | zero => exact fun _ _ _ fits => .same fits
  | succ fuel ih =>
    intro world offset explorer fits
    cases explore_begins body fuel world offset with
    | past _ ends =>
      rw [ends, ends, ← update_comm (unnoticed.ranOff explorer.findings)]
      exact .same fits
    | malformed _ _ _ fails =>
      rw [fails, fails]
      exact .same fits
    | unknown instruction _ _ ends =>
      rw [ends, ends, ← update_comm (unnoticed.abandoned explorer.findings instruction)]
      exact .same fits
    | visit instruction opcode _ _ goes =>
      rw [goes, goes, ← update_comm (unnoticed.visited explorer.findings offset opcode _)]
      exact follow_mirrors unnoticed ih instruction
        (explorer.update (·.visited offset opcode (World.stackDepth world))) fits
        (step body instruction world explorer.returns)

end Unnoticed

end Explorer

namespace ForkGuard

/-- Forks are not limited, and none has gone deeper than the given depth. -/
def Within (depth : Nat) (guard : ForkGuard) : Prop :=
  guard.limits.maxForkDepth = none ∧ guard.metrics.maxForkDepth ≤ depth

theorem enter_unlimited {guard : ForkGuard} (unlimited : guard.limits.maxForkDepth = none) :
    guard.enter = .ok guard.deeper := by
  simp [enter, exhausted, unlimited, deeper]

theorem enter_limited (guard : ForkGuard) (limit : Nat) :
    ({ guard with limits := ⟨some limit⟩ } : ForkGuard).enter =
      if guard.depth < limit then .ok { guard.deeper with limits := ⟨some limit⟩ }
      else .error (.forkDepth limit) := by
  by_cases below : guard.depth < limit
  · simp [enter, exhausted, Option.filter_some, below, Nat.not_le.mpr below, deeper]
  · simp [enter, exhausted, Option.filter_some, below, Nat.not_lt.mp below]

end ForkGuard

namespace Findings

variable {W : Type}

def limitedTo (limit : Nat) (findings : Findings W) : Findings W :=
  { findings with forks := { findings.forks with limits := ⟨some limit⟩ } }

def withoutSteps (findings : Findings W) : Findings W :=
  { findings with recorder := { findings.recorder with recordSteps := false, steps := #[] } }

theorem limitedTo_unnoticed (limit : Nat) :
    Unnoticed (limitedTo limit : Findings W → Findings W) (ForkGuard.Within limit)
      (.forkDepth limit) where
  visited _ _ _ _ := rfl
  followed _ := rfl
  switched _ := rfl
  ranOff _ := rfl
  collected _ _ := rfl
  abandoned _ _ := rfl
  closed _ := rfl
  exit _ := Iff.rfl
  enter := by
    intro guard opened entered within
    rw [ForkGuard.enter_eq_ok entered] at within
    exact ⟨within.1, Nat.le_trans (Nat.le_max_left ..) within.2⟩
  refused := by
    intro findings reason within refused
    rw [ForkGuard.enter_unlimited within.1] at refused
    cases refused
  opened := by
    intro findings forks entered within
    rw [ForkGuard.enter_eq_ok entered] at within ⊢
    have below : findings.forks.depth < limit := Nat.le_trans (Nat.le_max_right ..) within.2
    exact ⟨_, (ForkGuard.enter_limited findings.forks limit).trans (if_pos below), rfl⟩
  crowded := by
    intro findings forks within entered beyond
    rw [ForkGuard.enter_eq_ok entered] at beyond
    have reached : ¬findings.forks.depth < limit := by
      intro below
      exact beyond ⟨within.1, Nat.max_le.mpr ⟨within.2, below⟩⟩
    exact (ForkGuard.enter_limited findings.forks limit).trans (if_neg reached)

theorem withoutSteps_unnoticed (refusal : LimitError) :
    Unnoticed (withoutSteps : Findings W → Findings W) (fun _ => True) refusal where
  visited _ _ _ _ := rfl
  followed _ := rfl
  switched _ := rfl
  ranOff _ := rfl
  collected _ _ := rfl
  abandoned _ _ := rfl
  closed _ := rfl
  exit _ := Iff.rfl
  enter _ _ := trivial
  refused _ refused := refused
  opened {_ forks} entered _ := ⟨forks, entered, rfl⟩
  crowded _ _ impossible := absurd trivial impossible

end Findings

variable {W : Type} [World W]

theorem explore_limited (body : MethodBody) (fuel : Nat) (world : W) (recordSteps : Bool)
    (limit : Nat) :
    Explorer.Reflects (Findings.limitedTo limit) (ForkGuard.Within limit) (.forkDepth limit)
      (Explorer.explore body fuel world 0 (.new ⟨⟨none⟩, recordSteps⟩))
      (Explorer.explore body fuel world 0 (.new ⟨⟨some limit⟩, recordSteps⟩)) :=
  Explorer.explore_mirrors (Findings.limitedTo_unnoticed limit) body fuel world 0
    (.new ⟨⟨none⟩, recordSteps⟩) ⟨rfl, Nat.zero_le limit⟩

theorem explore_withoutSteps (body : MethodBody) (fuel : Nat) (world : W) (limits : Limits) :
    Explorer.explore body fuel world 0 (.new ⟨limits, false⟩) =
      ((Explorer.explore body fuel world 0 (.new ⟨limits, true⟩)).1,
        (Explorer.explore body fuel world 0 (.new ⟨limits, true⟩)).2.update .withoutSteps) := by
  have reflects := Explorer.explore_mirrors (Findings.withoutSteps_unnoticed (.forkDepth 0)) body
    fuel world 0 (.new ⟨limits, true⟩) trivial
  have start : (Explorer.new ⟨limits, true⟩ : Explorer W).update .withoutSteps =
      .new ⟨limits, false⟩ := rfl
  rw [start] at reflects
  generalize Explorer.explore body fuel world 0 (.new ⟨limits, true⟩) = kept,
    Explorer.explore body fuel world 0 (.new ⟨limits, false⟩) = dropped at reflects
  cases reflects with
  | same => rfl
  | refused impossible => exact absurd trivial impossible

namespace Explorer

theorem report_limitedTo (explorer : Explorer W) (limit : Nat)
    (outcome : Outcome EngineError PathEnd) :
    (explorer.update (.limitedTo limit)).report outcome = explorer.report outcome := by
  cases outcome <;> rfl

theorem report_withoutSteps (explorer : Explorer W) (outcome : Outcome EngineError PathEnd) :
    (explorer.update .withoutSteps).report outcome =
      (explorer.report outcome).map Exploration.withoutSteps := by
  cases outcome with
  | finished ending =>
    have sameTerminals : (explorer.update .withoutSteps).findings.terminals =
        explorer.findings.terminals := rfl
    simp only [report, sameTerminals]
    cases joinTerminals explorer.findings.terminals.toList with
    | error reason => rfl
    | ok joined => rfl
  | failed error => rfl
  | outOfFuel => rfl

end Explorer

theorem interpret_limited_of_finished {body : MethodBody} {fuel : Nat} {world : W}
    {recordSteps : Bool} {exploration : Exploration W}
    (finished : interpret body ⟨⟨none⟩, recordSteps⟩ fuel world = .finished exploration)
    (limit : Nat) :
    interpret body ⟨⟨some limit⟩, recordSteps⟩ fuel world =
      if exploration.trace.metrics.forks.maxForkDepth ≤ limit then .finished exploration
      else .failed (.limit (.forkDepth limit)) := by
  obtain ⟨ending, left, joined, explored, joins, rfl⟩ :=
    Explorer.interpret_eq_finished.mp finished
  have unlimited := (Explorer.explore_extends body fuel world 0 (.new ⟨⟨none⟩, recordSteps⟩)).limits
  have reflects := explore_limited body fuel world recordSteps limit
  rw [explored] at reflects unlimited
  rw [Explorer.interpret_eq_report]
  generalize Explorer.explore body fuel world 0 (.new ⟨⟨some limit⟩, recordSteps⟩) = limited
    at reflects
  cases reflects with
  | same within =>
    rw [Explorer.report_limitedTo, Explorer.report, joins]
    exact (if_pos within.2).symm
  | refused beyond =>
    have deeper : ¬left.findings.forks.metrics.maxForkDepth ≤ limit := fun within =>
      beyond ⟨congrArg Limits.maxForkDepth unlimited, within⟩
    exact (if_neg deeper).symm

theorem interpret_limited_of_failed {body : MethodBody} {fuel : Nat} {world : W}
    {recordSteps : Bool} {error : EngineError}
    (failed : interpret body ⟨⟨none⟩, recordSteps⟩ fuel world = .failed error) (limit : Nat) :
    interpret body ⟨⟨some limit⟩, recordSteps⟩ fuel world = .failed error ∨
      interpret body ⟨⟨some limit⟩, recordSteps⟩ fuel world =
        .failed (.limit (.forkDepth limit)) := by
  have reflects := explore_limited body fuel world recordSteps limit
  rw [Explorer.interpret_eq_report] at failed ⊢
  generalize Explorer.explore body fuel world 0 (.new ⟨⟨none⟩, recordSteps⟩) = free,
    Explorer.explore body fuel world 0 (.new ⟨⟨some limit⟩, recordSteps⟩) = limited
    at reflects failed
  cases reflects with
  | same within => exact .inl ((Explorer.report_limitedTo ..).trans failed)
  | refused beyond => exact .inr rfl

theorem interpret_withoutSteps (body : MethodBody) (limits : Limits) (fuel : Nat) (world : W) :
    interpret body ⟨limits, false⟩ fuel world =
      (interpret body ⟨limits, true⟩ fuel world).map Exploration.withoutSteps := by
  rw [Explorer.interpret_eq_report, Explorer.interpret_eq_report, explore_withoutSteps]
  exact Explorer.report_withoutSteps ..

/-- The configuration does not interfere with the analysis. If the exploration without a limit ends
well, then so does the one with a limit, and with the same result, unless the forks go deeper than
the limit, in which case it ends with an error that names the limit. If the exploration without a
limit ends with an error, the one with a limit ends with this error or with the one that names the
limit. Whether steps are recorded matters to the list of steps alone. -/
theorem interpret_configured (body : MethodBody) (fuel : Nat) (world : W) :
    (∀ recordSteps limit exploration,
      interpret body ⟨⟨none⟩, recordSteps⟩ fuel world = .finished exploration →
      interpret body ⟨⟨some limit⟩, recordSteps⟩ fuel world =
        if exploration.trace.metrics.forks.maxForkDepth ≤ limit then .finished exploration
        else .failed (.limit (.forkDepth limit))) ∧
    (∀ recordSteps limit error,
      interpret body ⟨⟨none⟩, recordSteps⟩ fuel world = .failed error →
      interpret body ⟨⟨some limit⟩, recordSteps⟩ fuel world = .failed error ∨
        interpret body ⟨⟨some limit⟩, recordSteps⟩ fuel world =
          .failed (.limit (.forkDepth limit))) ∧
    ∀ limits, interpret body ⟨limits, false⟩ fuel world =
      (interpret body ⟨limits, true⟩ fuel world).map Exploration.withoutSteps :=
  ⟨fun _ limit _ finished => interpret_limited_of_finished finished limit,
    fun _ limit _ failed => interpret_limited_of_failed failed limit,
    fun limits => interpret_withoutSteps body limits fuel world⟩

/-- A fork on the path of another one, and a fork that opens after both have closed:
`ifeq +8; ifeq +4; return; return; ifeq +4; return; return`. -/
def nestedBody : MethodBody :=
  ⟨#[0x99, 0x00, 0x08, 0x99, 0x00, 0x04, 0xb1, 0xb1, 0x99, 0x00, 0x04, 0xb1, 0xb1], .empty⟩

theorem interpret_configured_nested : ∃ exploration,
    interpret nestedBody ⟨⟨none⟩, false⟩ 3 Blank.mk = .finished exploration ∧
      exploration.terminalStates = 4 ∧ exploration.trace.metrics.forks = ⟨3, 2⟩ ∧
      interpret nestedBody ⟨⟨some 2⟩, false⟩ 3 Blank.mk = .finished exploration ∧
      interpret nestedBody ⟨⟨some 1⟩, false⟩ 3 Blank.mk = .failed (.limit (.forkDepth 1)) ∧
      (interpret nestedBody ⟨⟨none⟩, true⟩ 3 Blank.mk).map Exploration.withoutSteps =
        .finished exploration := by
  have explored : ∃ exploration, interpret nestedBody ⟨⟨none⟩, false⟩ 3 Blank.mk =
      .finished exploration ∧ exploration.terminalStates = 4 ∧
        exploration.trace.metrics.forks = ⟨3, 2⟩ := ⟨_, rfl, rfl, rfl⟩
  obtain ⟨exploration, finished, count, forks⟩ := explored
  obtain ⟨limited, _, recorded⟩ := interpret_configured nestedBody 3 Blank.mk
  -- two levels are enough for three forks, since the depth is restored when a fork closes
  have enough := limited false 2 exploration finished
  have tooFew := limited false 1 exploration finished
  rw [forks] at enough tooFew
  exact ⟨exploration, finished, count, forks, enough, tooFew,
    (recorded ⟨none⟩).symm.trans finished⟩

end MethodFlow

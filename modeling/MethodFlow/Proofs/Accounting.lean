import MethodFlow.Proofs.Decoding
import MethodFlow.Proofs.Exploration

/-! The books of an exploration. Every path is counted at its one end, every fork adds a path, and a
path that ends in a switch goes over to the paths of its cases; so the counted ends and the counted
forks balance. What is recorded step by step agrees with what is counted, and forks that were opened
are closed again on every way out. -/
namespace MethodFlow

def Operation.isSwitch : Operation → Bool
  | .switch _ => true
  | _ => false

def Layout.isSwitch : Layout → Bool
  | .plain operation => operation.isSwitch
  | .tableSwitch | .lookupSwitch => true
  | _ => false

def Opcode.isSwitch (opcode : Opcode) : Bool := opcode = .tableswitch || opcode = .lookupswitch

theorem Opcode.isSwitch_layout (opcode : Opcode) : opcode.layout.isSwitch = opcode.isSwitch := by
  cases opcode <;> rfl

theorem Layout.Reads.isSwitch {layout : Layout} {operation : Operation}
    (reads : layout.Reads operation) : operation.isSwitch = layout.isSwitch := by
  cases reads <;> rfl

theorem MethodBody.decode_isSwitch {body : MethodBody} {offset : Nat} {instruction : Instruction}
    {opcode : Opcode} (decoded : body.decode offset = .ok instruction)
    (known : instruction.opcode = some opcode) :
    instruction.operation.isSwitch = opcode.isSwitch := by
  rw [← Opcode.isSwitch_layout]
  exact (decode_reads decoded known).isSwitch

section Steps

variable {W : Type}

def Move.fansOut : Move W → Bool
  | .fanOut _ _ => true
  | _ => false

theorem step_fansOut [World W] {body : MethodBody} {instruction : Instruction} {world : W}
    {returns : List Nat} {move : Move W}
    (stepped : step body instruction world returns = .ok move) :
    move.fansOut = instruction.operation.isSwitch := by
  cases step_steps stepped with
  | nop operation | effect operation _ | goto operation _ | jsr operation _ _ | ret operation _ _
  | switch operation _ _ | terminate operation _ | unsupported operation =>
    rw [operation]
    rfl
  | backward operation _ _ _ =>
    rw [operation, loopEdge]
    split <;> rfl
  | forward operation _ _ _ =>
    rw [operation, forwardBranch]
    split <;> rfl

end Steps

namespace Explorer

variable {W : Type}

/-- The counts agree with what was recorded step by step and with what was collected. -/
structure Consistent (explorer : Explorer W) : Prop where
  recording : explorer.findings.recorder.recordSteps = true
  terminals : explorer.findings.terminals.size = explorer.findings.recorder.terminalStates
  unsupported : explorer.findings.unsupported.size = explorer.findings.recorder.unsupportedPaths
  instructions : explorer.findings.recorder.steps.size = explorer.findings.recorder.instructions
  coverage : ∀ offset, offset ∈ explorer.findings.recorder.coverage.toList ↔
    ∃ step ∈ explorer.findings.recorder.steps, step.offset = offset
  depth : explorer.findings.forks.depth ≤ explorer.findings.forks.metrics.maxForkDepth
  depths : ∀ step ∈ explorer.findings.recorder.steps,
    step.forkDepth ≤ explorer.findings.forks.metrics.maxForkDepth

theorem Consistent.new (limits : Limits) : Consistent (.new ⟨limits, true⟩ : Explorer W) := by
  constructor <;> simp [Explorer.new, Findings.new, Recorder.new, ForkGuard.new, SortedSet.empty]

theorem Consistent.steps_visited {explorer : Explorer W} (consistent : Consistent explorer)
    (offset : Nat) (opcode : Opcode) (depth : Nat) :
    (explorer.update (·.visited offset opcode depth)).findings.recorder.steps =
      explorer.findings.recorder.steps.push
        ⟨offset, opcode, depth, explorer.findings.forks.depth⟩ :=
  if_pos consistent.recording

theorem Consistent.visited {explorer : Explorer W} (consistent : Consistent explorer)
    (offset : Nat) (opcode : Opcode) (depth : Nat) :
    Consistent (explorer.update (·.visited offset opcode depth)) where
  recording := consistent.recording
  terminals := consistent.terminals
  unsupported := consistent.unsupported
  instructions := by
    rw [consistent.steps_visited, Array.size_push, consistent.instructions]
    rfl
  coverage := by
    intro reached
    rw [consistent.steps_visited]
    change reached ∈ (explorer.findings.recorder.coverage.insert offset).toList ↔ _
    rw [SortedSet.mem_insert, consistent.coverage]
    simp only [Array.mem_push]
    constructor
    · rintro (rfl | ⟨step, among, rfl⟩)
      · exact ⟨_, .inr rfl, rfl⟩
      · exact ⟨step, .inl among, rfl⟩
    · rintro ⟨step, among | rfl, rfl⟩
      · exact .inr ⟨step, among, rfl⟩
      · exact .inl rfl
  depth := consistent.depth
  depths := by
    intro step among
    rw [consistent.steps_visited, Array.mem_push] at among
    rcases among with among | rfl
    · exact consistent.depths step among
    · exact consistent.depth

theorem Consistent.deeper {explorer : Explorer W} (consistent : Consistent explorer) :
    Consistent (explorer.setForks explorer.findings.forks.deeper) :=
  { consistent with
    depth := Nat.le_max_right ..
    depths := fun step among =>
      Nat.le_trans (consistent.depths step among) (Nat.le_max_left ..) }

theorem Consistent.exit {explorer : Explorer W} (consistent : Consistent explorer) :
    Consistent (explorer.setForks explorer.findings.forks.exit) :=
  { consistent with depth := Nat.le_trans (Nat.sub_le ..) consistent.depth }

theorem consistent_stepwise :
    Stepwise fun before after : Explorer W => Consistent before → Consistent after where
  refl _ := id
  trans first second := second ∘ first
  returns _ _ consistent := { consistent with }
  visited _ offset opcode depth consistent := consistent.visited offset opcode depth
  followed _ consistent := { consistent with }
  switched _ consistent := { consistent with }
  ranOff _ consistent := { consistent with }
  collected _ world consistent := { consistent with
    terminals := (Array.size_push world).trans (congrArg (· + 1) consistent.terminals) }
  abandoned _ _ consistent := { consistent with
    unsupported := (Array.size_push _).trans (congrArg (· + 1) consistent.unsupported) }
  forked := by
    intro explorer left forks entered inner consistent
    rw [ForkGuard.enter_eq_ok entered] at inner
    exact (inner consistent.deeper).exit

def ends (explorer : Explorer W) : Nat :=
  explorer.findings.recorder.terminalStates + explorer.findings.recorder.unsupportedPaths +
    explorer.findings.recorder.deadPaths +
    explorer.findings.recorder.steps.countP (·.opcode.isSwitch)

def forks (explorer : Explorer W) : Nat := explorer.findings.forks.metrics.forks

def switchCases (explorer : Explorer W) : Nat := explorer.findings.recorder.switchCases

/-- Apart from the paths that were forked off, the given number of paths has come to an end, and no
more cases of switches than forks were counted. -/
structure Balanced (paths : Nat) (before after : Explorer W) : Prop where
  ends : after.ends + before.forks = before.ends + after.forks + paths
  cases : after.switchCases + before.forks ≤ before.switchCases + after.forks

namespace Balanced

variable {explorer before between after : Explorer W} {m n : Nat}

theorem trans (first : Balanced m before between) (second : Balanced n between after) :
    Balanced (m + n) before after where
  ends := by
    have := first.ends
    have := second.ends
    omega
  cases := by
    have := first.cases
    have := second.cases
    omega

theorem visited (consistent : Consistent explorer) (offset : Nat) (opcode : Opcode) (depth : Nat) :
    Balanced opcode.isSwitch.toNat explorer
      (explorer.update (·.visited offset opcode depth)) where
  ends := by
    have counted : (explorer.update (·.visited offset opcode depth)).ends =
        explorer.ends + opcode.isSwitch.toNat := by
      unfold Explorer.ends
      rw [consistent.steps_visited, Array.countP_push]
      cases opcode.isSwitch <;> rfl
    rw [counted]
    exact Nat.add_right_comm ..
  cases := Nat.le_refl _

theorem collected (explorer : Explorer W) (world : W) :
    Balanced 1 explorer (explorer.update (·.collected world)) where
  ends := by
    simp only [Explorer.ends, Explorer.forks, update, Findings.collected, Recorder.terminal]
    omega
  cases := Nat.le_refl _

theorem abandoned (explorer : Explorer W) (instruction : Instruction) :
    Balanced 1 explorer (explorer.update (·.abandoned instruction)) where
  ends := by
    simp only [Explorer.ends, Explorer.forks, update, Findings.abandoned, Recorder.unsupported]
    omega
  cases := Nat.le_refl _

theorem ranOff (explorer : Explorer W) : Balanced 1 explorer (explorer.update .ranOff) where
  ends := by
    simp only [Explorer.ends, Explorer.forks, update, Findings.ranOff, Recorder.deadPath]
    omega
  cases := Nat.le_refl _

end Balanced

/-- A path that is explored to its end is balanced: it ends once, and so does every path that it
forks off. -/
def Balances (run : Run W) : Prop :=
  ∀ ⦃world : W⦄ ⦃offset : Nat⦄ ⦃explorer left : Explorer W⦄ ⦃ending : PathEnd⦄,
    Consistent explorer → run world offset explorer = (.finished ending, left) →
    Balanced 1 explorer left

variable {world : W} {explorer left : Explorer W} {ending : PathEnd}

theorem forked_balanced {run : Run W} (balances : Balances run) {target : Nat}
    (consistent : Consistent explorer)
    (finished : forked run world target explorer = (.finished ending, left)) :
    left.ends + explorer.forks = explorer.ends + left.forks ∧
      left.switchCases + explorer.forks < explorer.switchCases + left.forks := by
  obtain ⟨opened, inner, entered, ran, rfl⟩ := forked_finished.mp finished
  rw [ForkGuard.enter_eq_ok entered] at ran
  have balanced := balances consistent.deeper ran
  have ends : inner.ends + (explorer.forks + 1) = explorer.ends + inner.forks + 1 := balanced.ends
  have cases : inner.switchCases + (explorer.forks + 1) ≤ explorer.switchCases + inner.forks :=
    balanced.cases
  change inner.ends + explorer.forks = explorer.ends + inner.forks ∧
    inner.switchCases + explorer.forks < explorer.switchCases + inner.forks
  omega

theorem fanOut_balanced {run : Run W} (balances : Balances run)
    (keeps : Keeps (fun before after => Consistent before → Consistent after) run)
    {targets : List Nat} (consistent : Consistent explorer)
    (finished : fanOut run world targets explorer = (.finished ending, left)) :
    Balanced 0 explorer left := by
  induction targets generalizing explorer with
  | nil =>
    cases finished
    exact ⟨rfl, Nat.le_refl _⟩
  | cons target rest ih =>
    obtain ⟨pathEnd, between, explored, others⟩ := fanOut_cons_finished.mp finished
    have counted := consistent_stepwise.switched explorer consistent
    have consistentBetween := forked_keeps consistent_stepwise keeps world target
      (explorer.update .switched) counted
    rw [explored] at consistentBetween
    obtain ⟨ends, cases⟩ := forked_balanced balances counted explored
    have first : Balanced 0 explorer between := by
      refine ⟨ends, ?_⟩
      change between.switchCases + explorer.forks < explorer.switchCases + 1 + between.forks
        at cases
      omega
    exact first.trans (ih consistentBetween others)

variable [World W] {body : MethodBody} {fuel : Nat}

theorem explore_consistent (body : MethodBody) (fuel : Nat) :
    Keeps (fun before after => Consistent before → Consistent after) (explore body fuel : Run W) :=
  explore_keeps consistent_stepwise body fuel

theorem follow_balanced (balances : Balances (explore body fuel : Run W))
    {instruction : Instruction} {move : Move W} (consistent : Consistent explorer)
    (finished : follow body fuel instruction explorer (.ok move) = (.finished ending, left)) :
    Balanced (!move.fansOut).toNat explorer left := by
  cases move with
  | jump world offset returns =>
    have balanced := balances (consistent_stepwise.returns explorer returns consistent) finished
    exact ⟨balanced.ends, balanced.cases⟩
  | loop world offset =>
    have balanced := balances (consistent_stepwise.followed explorer consistent) finished
    exact ⟨balanced.ends, balanced.cases⟩
  | fork world target next =>
    obtain ⟨pathEnd, between, explored, onward⟩ := follow_fork_finished.mp finished
    have consistentBetween := forked_keeps consistent_stepwise (explore_consistent body fuel) world
      target explorer consistent
    rw [explored] at consistentBetween
    obtain ⟨ends, cases⟩ := forked_balanced balances consistent explored
    have first : Balanced 0 explorer between := ⟨ends, Nat.le_of_lt cases⟩
    exact first.trans (balances consistentBetween onward)
  | fanOut world targets =>
    exact fanOut_balanced balances (explore_consistent body fuel) consistent finished
  | finish world =>
    cases finished
    exact .collected explorer world
  | abandon =>
    cases finished
    exact .abandoned explorer instruction

theorem explore_balances (body : MethodBody) (fuel : Nat) :
    Balances (explore body fuel : Run W) := by
  induction fuel with
  | zero =>
    intro world offset explorer left ending consistent finished
    cases finished
  | succ fuel ih =>
    intro world offset explorer left ending consistent finished
    cases explore_finishes finished with
    | past => exact .ranOff explorer
    | unknown => exact .abandoned explorer _
    | @visit instruction opcode move _ _ decoded known stepped onward =>
      have visited := Balanced.visited consistent offset opcode (World.stackDepth world)
      have followed := follow_balanced ih (consistent.visited offset opcode _) onward
      -- A switch is counted where it stands, any other path where it ends.
      rw [step_fansOut stepped, MethodBody.decode_isSwitch decoded known] at followed
      have once : opcode.isSwitch.toNat + (!opcode.isSwitch).toNat = 1 := by
        cases opcode.isSwitch <;> rfl
      exact once ▸ visited.trans followed

end Explorer

variable {W : Type} [World W]

theorem joinTerminals_eq_none {terminals : List W} {joined : Option W}
    (joins : joinTerminals terminals = .ok joined) : joined = none ↔ terminals = [] := by
  cases terminals with
  | nil =>
    cases joins
    simp
  | cons first rest =>
    obtain ⟨world, _, rfl⟩ := map_eq_ok.mp joins
    simp

/-- Every path is accounted for exactly once. In a finished exploration that records its steps, the
terminal states and the abandoned instructions are as many as were counted, and there is a joined
state if there is a terminal one. The paths that returned, were abandoned, ran off the end or ended
in a switch are one more than the forks, of which there is one for each case of a switch. The steps
are as many as the instructions counted, the coverage lists their offsets in ascending order, and
none of them was deeper in forks than the depth reported. Whatever becomes of a path, it leaves the
fork depth as it was. -/
theorem interpret_accounts (body : MethodBody) (limits : Limits) (fuel : Nat) (world : W) :
    (∀ exploration, interpret body ⟨limits, true⟩ fuel world = .finished exploration →
      exploration.terminalStates = exploration.trace.metrics.terminalStates ∧
      exploration.unsupported.length = exploration.trace.metrics.unsupportedPaths ∧
      (exploration.world = none ↔ exploration.terminalStates = 0) ∧
      exploration.trace.metrics.terminalStates + exploration.trace.metrics.unsupportedPaths +
          exploration.trace.metrics.deadPaths +
          exploration.trace.steps.countP
            (fun step => step.opcode = .tableswitch || step.opcode = .lookupswitch) =
        1 + exploration.trace.metrics.forks.forks ∧
      exploration.trace.metrics.switchCases ≤ exploration.trace.metrics.forks.forks ∧
      exploration.trace.steps.length = exploration.trace.metrics.instructions ∧
      exploration.trace.coverage.Pairwise (· < ·) ∧
      (∀ offset, offset ∈ exploration.trace.coverage ↔
        ∃ step ∈ exploration.trace.steps, step.offset = offset) ∧
      ∀ step ∈ exploration.trace.steps,
        step.forkDepth ≤ exploration.trace.metrics.forks.maxForkDepth) ∧
    ∀ offset explorer, (Explorer.explore body fuel world offset explorer).2.findings.forks.depth =
      explorer.findings.forks.depth := by
  constructor
  · intro exploration finished
    obtain ⟨ending, left, joined, explored, joins, rfl⟩ :=
      Explorer.interpret_eq_finished.mp finished
    have start : Explorer.Consistent (.new ⟨limits, true⟩ : Explorer W) := .new limits
    have consistent := Explorer.explore_consistent body fuel world 0 _ start
    have balanced := Explorer.explore_balances body fuel start explored
    rw [explored] at consistent
    have counted : left.ends + 0 = 0 + left.forks + 1 := balanced.ends
    have cases : left.switchCases + 0 ≤ 0 + left.forks := balanced.cases
    have switches : (left.summary joined).trace.steps.countP
        (fun step => step.opcode = .tableswitch || step.opcode = .lookupswitch) =
          left.findings.recorder.steps.countP (·.opcode.isSwitch) := Array.countP_toList
    refine ⟨consistent.terminals, consistent.unsupported, ?_, ?_, ?_, consistent.instructions, ?_,
      ?_, ?_⟩
    · change joined = none ↔ left.findings.terminals.size = 0
      rw [joinTerminals_eq_none joins, Array.toList_eq_nil_iff, Array.size_eq_zero_iff]
    · rw [switches, Nat.add_comm 1]
      exact counted.trans (congrArg (· + 1) (Nat.zero_add _))
    · exact Nat.le_trans cases (Nat.le_of_eq (Nat.zero_add _))
    · exact left.findings.recorder.coverage.ascending.imp Nat.compare_eq_lt.mp
    · intro offset
      change offset ∈ left.findings.recorder.coverage.toList ↔
        ∃ step ∈ left.findings.recorder.steps.toList, step.offset = offset
      simp only [consistent.coverage, Array.mem_toList_iff]
    · intro step among
      exact consistent.depths step (Array.mem_toList_iff.mp among)
  · intro offset explorer
    exact (Explorer.explore_extends body fuel world offset explorer).depth

/-- Paths with every kind of end: `tableswitch 0: +25, default: +20; ifeq +4; return`, a byte
outside the instruction set, and a last `nop`. -/
def mixedBody : MethodBody :=
  ⟨#[0xaa, 0x00, 0x00, 0x00, 0x00, 0x00, 0x00, 0x14, 0x00, 0x00, 0x00, 0x00, 0x00, 0x00, 0x00, 0x00,
    0x00, 0x00, 0x00, 0x19, 0x99, 0x00, 0x04, 0xb1, 0xcb, 0x00], .empty⟩

theorem interpret_accounts_mixed : ∃ exploration,
    interpret mixedBody ⟨⟨none⟩, true⟩ 4 Blank.mk = .finished exploration ∧
      exploration.terminalStates = 1 ∧ exploration.unsupported.length = 1 ∧
      exploration.trace.metrics.deadPaths = 1 ∧ exploration.trace.metrics.switchCases = 2 ∧
      exploration.trace.metrics.terminalStates + exploration.trace.metrics.unsupportedPaths +
          exploration.trace.metrics.deadPaths +
          exploration.trace.steps.countP
            (fun step => step.opcode = .tableswitch || step.opcode = .lookupswitch) =
        1 + exploration.trace.metrics.forks.forks := by
  have explored : ∃ exploration,
      interpret mixedBody ⟨⟨none⟩, true⟩ 4 Blank.mk = .finished exploration ∧
        exploration.terminalStates = 1 ∧ exploration.unsupported.length = 1 ∧
        exploration.trace.metrics.deadPaths = 1 ∧ exploration.trace.metrics.switchCases = 2 :=
    ⟨_, rfl, rfl, rfl, rfl, rfl⟩
  obtain ⟨exploration, finished, terminals, unsupported, dead, cases⟩ := explored
  obtain ⟨_, _, _, balance, _⟩ := (interpret_accounts mixedBody ⟨none⟩ 4 Blank.mk).1 _ finished
  exact ⟨exploration, finished, terminals, unsupported, dead, cases, balance⟩

end MethodFlow

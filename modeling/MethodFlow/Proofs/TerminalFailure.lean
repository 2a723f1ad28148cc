import MethodFlow.Proofs.Exploration
import MethodFlow.Proofs.Reachability
import MethodFlow.Proofs.TerminalJoin

/-! Why the terminal states of an exploration cannot be joined. A path that ends leaves an empty
stack, and slots never keep frames from being joined, so two states that return or throw values of
different classes are the only reason. -/
namespace MethodFlow

/-- A path that moves so goes on with states of the one sort and ends with states of the other. -/
def Move.Carries {W : Type} (onward ended : W → Prop) : Move W → Prop
  | .jump world _ _ | .loop world _ | .fork world _ _ | .fanOut world _ => onward world
  | .finish world => ended world
  | .abandon => True

namespace Explorer

variable {W : Type} {onward ended : W → Prop}

def Collected (ended : W → Prop) (explorer : Explorer W) : Prop :=
  ∀ world ∈ explorer.findings.terminals.toList, ended world

def Collects (onward ended : W → Prop) (run : Run W) : Prop :=
  ∀ world offset explorer, onward world → explorer.Collected ended →
    (run world offset explorer).2.Collected ended

theorem andThen_collected {first : Outcome EngineError PathEnd × Explorer W}
    {next : Explorer W → Outcome EngineError PathEnd × Explorer W}
    (before : first.2.Collected ended)
    (collects : ∀ {between : Explorer W}, between.Collected ended →
      (next between).2.Collected ended) : (andThen first next).2.Collected ended := by
  obtain ⟨outcome, between⟩ := first
  cases outcome with
  | finished ending => exact collects before
  | failed error => exact before
  | outOfFuel => exact before

theorem forked_collects {run : Run W} (collects : Collects onward ended run) :
    Collects onward ended (forked run) := by
  intro world target explorer start collected
  cases entered : explorer.findings.forks.enter with
  | error reason =>
    rw [forked_refused entered]
    exact collected
  | ok forks =>
    rw [forked_opened entered]
    exact collects world target (explorer.setForks forks) start collected

theorem fanOut_collects {run : Run W} (collects : Collects onward ended run) {world : W}
    (start : onward world) (targets : List Nat) {explorer : Explorer W}
    (collected : explorer.Collected ended) :
    (fanOut run world targets explorer).2.Collected ended := by
  induction targets generalizing explorer with
  | nil => exact collected
  | cons target rest ih =>
    rw [fanOut_cons]
    exact andThen_collected (forked_collects collects world target _ start collected) ih

variable [World W]

theorem follow_collects {body : MethodBody} {fuel : Nat}
    (collects : Collects onward ended (explore body fuel)) (instruction : Instruction)
    {move : Move W} (carries : move.Carries onward ended) {explorer : Explorer W}
    (collected : explorer.Collected ended) :
    (follow body fuel instruction explorer (.ok move)).2.Collected ended := by
  cases move with
  | jump world offset returns => exact collects world offset _ carries collected
  | loop world offset => exact collects world offset _ carries collected
  | fork world target next =>
    rw [follow_fork]
    exact andThen_collected (forked_collects collects world target explorer carries collected)
      (collects world next _ carries)
  | fanOut world targets => exact fanOut_collects collects carries targets collected
  | finish world =>
    intro terminal among
    rcases List.mem_append.mp (Array.toList_push ▸ among) with before | last
    · exact collected terminal before
    · exact List.mem_singleton.mp last ▸ carries
  | abandon => exact collected

/-- What every step carries on and hands over, a whole exploration collects. -/
theorem explore_collects {body : MethodBody}
    (carries : ∀ {instruction world returns move}, onward world →
      step body instruction world returns = .ok move → move.Carries onward ended) (fuel : Nat) :
    Collects onward ended (explore body fuel) := by
  induction fuel with
  | zero => exact fun _ _ _ _ collected => collected
  | succ fuel ih =>
    intro world offset explorer start collected
    cases explore_begins body fuel world offset with
    | past _ ends =>
      rw [ends]
      exact collected
    | malformed _ _ _ fails =>
      rw [fails]
      exact collected
    | unknown _ _ _ ends =>
      rw [ends]
      exact collected
    | visit instruction opcode _ _ goes =>
      rw [goes]
      cases stepped : step body instruction world explorer.returns with
      | error reason => exact collected
      | ok move => exact follow_collects ih instruction (carries start stepped) collected

end Explorer

namespace Frame

variable {frame left : Frame Interval}

structure Ended (frame : Frame Interval) : Prop where
  seeded : frame.Seeded
  stack : frame.stack = []

theorem Seeded.after (seeded : frame.Seeded) (action : Action)
    (ran : MethodFlow.after action.transition frame = .ok left) : left.Seeded := by
  obtain ⟨seeds, factory⟩ := seeded
  have untouched := untouched action frame
  rw [Action.left_of_yields (yields_of_after ran)] at untouched
  exact ⟨seeds, untouched.factory.trans factory⟩

theorem stack_of_terminate {terminal : Terminal} (ran : Yields (terminate terminal) frame () left) :
    left.stack = [] := by
  have cleared : ∀ before : Frame Interval, Yields clearStack before () left → left.stack = [] := by
    intro before ran
    cases ran
    rfl
  cases terminal with
  | value kind =>
    obtain ⟨value, _, _, checked⟩ := ran.exists_of_bind
    obtain ⟨_, _, _, stored⟩ := checked.exists_of_bind
    obtain ⟨_, _, _, ends⟩ := stored.exists_of_bind
    exact cleared _ ends
  | void => exact cleared frame ran
  | throw =>
    obtain ⟨value, _, _, stored⟩ := ran.exists_of_bind
    obtain ⟨_, _, _, ends⟩ := stored.exists_of_bind
    exact cleared _ ends

theorem step_carries {body : MethodBody} {instruction : Instruction} {returns : List Nat}
    {move : Move (Frame Interval)} (seeded : frame.Seeded)
    (stepped : step body instruction frame returns = .ok move) : move.Carries Seeded Ended := by
  cases step_steps stepped with
  | nop | goto => exact seeded
  | effect _ performed => exact seeded.after (.perform _) performed
  | jsr _ _ entered => exact seeded.after (.enterSubroutine _) entered
  | ret _ exited => exact seeded.after (.exitSubroutine _) exited
  | backward _ _ _ evaluated =>
    have kept := seeded.after (.evaluateBranch _) evaluated
    unfold loopEdge
    split <;> exact kept
  | forward _ _ _ evaluated =>
    have kept := seeded.after (.evaluateBranch _) evaluated
    unfold forwardBranch
    split <;> exact kept
  | switch _ evaluated => exact seeded.after .evaluateSwitch evaluated
  | terminate _ ended =>
    exact ⟨seeded.after (.terminate _) ended, stack_of_terminate (yields_of_after ended)⟩
  | unsupported => trivial

end Frame

/-- Values of one class: integers of one width, floating-point numbers of one kind, references or
return addresses. -/
inductive Interval.Alike : Interval → Interval → Prop
  | integral {k l : IntKind} {r s : IntRange} (width : k.category = l.category) :
      Alike (.integral k r) (.integral l s)
  | floating {kind : FloatKind} {r s : FloatRange Float} :
      Alike (.floating kind r) (.floating kind s)
  | references {m n : Nullness} : Alike (.reference m) (.reference n)
  | addresses {m n : Addresses} : Alike (.returnAddress m) (.returnAddress n)

theorem Interval.alike_iff {a b : Interval} : a.Alike b ↔ a.kind.compatible b.kind = true := by
  rw [← exists_paired_iff]
  constructor
  · intro alike
    cases alike with
    | integral width => exact ⟨_, .integral width⟩
    | floating => exact ⟨_, .floating⟩
    | references => exact ⟨_, .references⟩
    | addresses => exact ⟨_, .addresses⟩
  · rintro ⟨_, paired⟩
    cases paired with
    | integral width => exact .integral width
    | floating => exact .floating
    | references => exact .references
    | addresses => exact .addresses

/-- Two results are both there, and their classes differ. -/
def Clash (x y : Option Interval) : Prop := ∃ v ∈ x, ∃ w ∈ y, ¬v.Alike w

theorem resultsFit_iff {x y : Option Interval} : ResultsFit x y ↔ ¬Clash x y := by
  simp [ResultsFit, Clash, Interval.alike_iff]

namespace Frame

variable {a b : Frame Interval} {frames : List (Frame Interval)} {error : WorldError}

theorem Ended.joinable_iff (left : a.Ended) (right : b.Ended) :
    Joinable a b ↔ ¬(Clash a.returnValue b.returnValue ∨ Clash a.thrown b.thrown) := by
  rw [not_or, ← resultsFit_iff, ← resultsFit_iff]
  constructor
  · intro joinable
    exact ⟨joinable.returnValue, joinable.thrown⟩
  · rintro ⟨returnValue, thrown⟩
    refine ⟨?_, returnValue, thrown⟩
    rw [left.stack, right.stack]
    exact .nil

theorem joinTerminals_ok_iff (ended : ∀ frame ∈ frames, frame.Ended) :
    (∃ result, joinTerminals frames = .ok result) ↔
      ∀ a ∈ frames, ∀ b ∈ frames, Joinable a b := by
  constructor
  · rintro ⟨result, made⟩ a amongA b amongB
    have : Std.Symm Joinable := ⟨fun _ _ => Joinable.symm⟩
    exact (joinTerminals_joinable made).forall_of_forall (fun frame _ => .refl frame) amongA amongB
  · intro joinable
    exact joinTerminals_ok (fun frame among => (ended frame among).seeded)
      (List.pairwise_of_forall_mem_list joinable)

theorem joinTerminals_error_iff (ended : ∀ frame ∈ frames, frame.Ended) :
    (∃ error, joinTerminals frames = .error error) ↔
      ∃ a ∈ frames, ∃ b ∈ frames, Clash a.returnValue b.returnValue ∨ Clash a.thrown b.thrown := by
  rw [exists_error_iff, joinTerminals_ok_iff ended]
  constructor
  · intro refused
    by_contra agree
    refine refused fun a amongA b amongB => ?_
    exact ((ended a amongA).joinable_iff (ended b amongB)).mpr fun clash =>
      agree ⟨a, amongA, b, amongB, clash⟩
  · rintro ⟨a, amongA, b, amongB, clash⟩ joinable
    exact ((ended a amongA).joinable_iff (ended b amongB)).mp (joinable a amongA b amongB) clash

theorem combine_error (level : a.stack.length = b.stack.length)
    (failed : a.combine b = .error error) : ∃ reason, error = .value reason := by
  rw [combine, if_pos level] at failed
  split at failed
  · cases failed
  · cases failed
    exact ⟨_, rfl⟩

/-- The joined frame has an empty stack again, so no depths ever differ. -/
theorem foldlM_combine_error (empty : ∀ frame ∈ a :: frames, frame.stack = [])
    (failed : frames.foldlM World.combine a = .error error) : ∃ reason, error = .value reason := by
  induction frames generalizing a with
  | nil => cases failed
  | cons b rest ih =>
    simp only [List.forall_mem_cons] at empty
    obtain ⟨left, right, others⟩ := empty
    rw [List.foldlM_cons] at failed
    cases made : World.combine a b with
    | error reason =>
      rw [made] at failed
      cases failed
      exact combine_error (by rw [left, right]) made
    | ok joined =>
      rw [made] at failed
      have stack := (joined_of_combine made).stack
      rw [left, right] at stack
      refine ih (List.forall_mem_cons.mpr ⟨?_, others⟩) failed
      generalize joined.stack = depth at stack
      cases stack
      rfl

theorem joinTerminals_error (ended : ∀ frame ∈ frames, frame.Ended)
    (failed : joinTerminals frames = .error error) : ∃ reason, error = .value reason := by
  cases frames with
  | nil => cases failed
  | cons first rest =>
    exact foldlM_combine_error (fun frame among => (ended frame among).stack)
      (map_eq_error.mp failed)

end Frame

/-- The explorer has explored any number of paths, of any bodies, from frames over seeds. -/
inductive Explored : Explorer (Frame Interval) → Prop
  | new (config : Config) : Explored (.new config)
  | explore {explorer : Explorer (Frame Interval)} (before : Explored explorer) (body : MethodBody)
      (fuel : Nat) {frame : Frame Interval} (seeded : frame.Seeded) (offset : Nat) :
      Explored (Explorer.explore body fuel frame offset explorer).2

theorem Explored.collected {explorer : Explorer (Frame Interval)} (explored : Explored explorer) :
    explorer.Collected Frame.Ended := by
  induction explored with
  | new config =>
    intro terminal among
    cases among
  | explore _ body fuel seeded offset ih =>
    exact Explorer.explore_collects Frame.step_carries fuel _ offset _ seeded ih

/-- An interpretation whose paths were all explored fails exactly if two terminal states both return
or both throw, and their values are of different classes. The stacks of terminal states are empty,
so the error is always one of values. -/
theorem interpret_fails_iff_clash {explorer left : Explorer (Frame Interval)}
    (explored : Explored explorer) (body : MethodBody) (fuel : Nat) {frame : Frame Interval}
    (seeded : frame.Seeded) {ending : PathEnd}
    (finished : Explorer.explore body fuel frame 0 explorer = (.finished ending, left)) :
    let terminals := left.findings.terminals.toList
    (∀ terminal ∈ terminals, terminal.stack = []) ∧
    ((∃ error, joinTerminals terminals = .error error) ↔
      ∃ a ∈ terminals, ∃ b ∈ terminals,
        Clash a.returnValue b.returnValue ∨ Clash a.thrown b.thrown) ∧
    (∀ error, joinTerminals terminals = .error error → ∃ reason, error = .value reason) ∧
    ∀ error, explorer.interpret body fuel frame = .failed error ↔
      ∃ reason, joinTerminals terminals = .error reason ∧ error = .world reason := by
  have ended : left.Collected Frame.Ended := by
    have := (explored.explore body fuel seeded 0).collected
    rwa [finished] at this
  refine ⟨fun terminal among => (ended terminal among).stack,
    Frame.joinTerminals_error_iff ended, fun error => Frame.joinTerminals_error ended, ?_⟩
  intro error
  rw [Explorer.interpret, finished]
  cases joins : joinTerminals left.findings.terminals.toList with
  | ok joined => simp [joins]
  | error reason => simp [joins, eq_comm]

/-- An int is returned on one path and a reference on the other: `iload_0; ifeq +5; iconst_0;
ireturn; aconst_null; areturn`. -/
def clashingBody : MethodBody :=
  ⟨#[0x1a, 0x99, 0x00, 0x05, 0x03, 0xac, 0x01, 0xb0], .empty⟩

theorem interpret_fails_iff_clash_mixed :
    let frame : Frame Interval := .initial Seeds.empty.factory
    ∃ left reason, Explorer.explore clashingBody 4 frame 0 (.new .default) =
      (.finished .terminal, left) ∧
    (∀ terminal ∈ left.findings.terminals.toList, terminal.stack = []) ∧
    interpret clashingBody .default 4 frame = .failed (.world (.value reason)) := by
  intro frame
  have explored : ∃ left a b, Explorer.explore clashingBody 4 frame 0 (.new .default) =
      (.finished .terminal, left) ∧ left.findings.terminals.toList = [a, b] ∧
      a.returnValue = some .null ∧ b.returnValue = some (.integral .int (.singleton 0)) :=
    ⟨_, _, _, rfl, rfl, rfl, rfl⟩
  obtain ⟨left, a, b, finished, terminals, returnsA, returnsB⟩ := explored
  obtain ⟨empty, fails, reasons, interpreted⟩ :=
    interpret_fails_iff_clash (.new .default) clashingBody 4 ⟨.empty, rfl⟩ finished
  have clash : Clash a.returnValue b.returnValue := ⟨_, returnsA, _, returnsB, nofun⟩
  obtain ⟨error, failed⟩ := fails.mpr
    ⟨a, by simp [terminals], b, by simp [terminals], .inl clash⟩
  obtain ⟨reason, rfl⟩ := reasons error failed
  exact ⟨left, reason, finished, empty, (interpreted _).mpr ⟨_, failed, rfl⟩⟩

end MethodFlow

import Mathlib.Data.List.Forall2
import MethodFlow.Proofs.Exploration
import MethodFlow.Proofs.Lockstep
import MethodFlow.Proofs.TerminalJoin

/-! Exploration of the possible outcomes compared with exploration of every outcome. A frame and its
exhaustive twin take every instruction alike and part only over where to go on, so the exploration
from the one finds some of what the exploration from the other finds, in the same order. All paths
share the return addresses, hence a path that is left out may matter to a subroutine; the two are
compared as far as there are none. -/
namespace MethodFlow

namespace ForkGuard

theorem enter_ok_iff {guard : ForkGuard} :
    (∃ opened, guard.enter = .ok opened) ↔
      ∀ limit ∈ guard.limits.maxForkDepth, guard.depth < limit := by
  unfold enter
  cases found : guard.exhausted with
  | none =>
    simp only [exhausted, Option.filter_eq_none_iff, decide_eq_true_eq, Nat.not_le] at found
    exact ⟨fun _ => found, fun _ => ⟨_, rfl⟩⟩
  | some limit =>
    simp only [exhausted, Option.filter_eq_some_iff, decide_eq_true_eq] at found
    constructor
    · rintro ⟨opened, ⟨⟩⟩
    · intro below
      exact absurd (below limit found.1) (Nat.not_lt.mpr found.2)

theorem enter_within {few many opened : ForkGuard} (limits : few.limits = many.limits)
    (depth : few.depth ≤ many.depth) (entered : many.enter = .ok opened) :
    ∃ opened', few.enter = .ok opened' := by
  have below := enter_ok_iff.mp ⟨opened, entered⟩
  apply enter_ok_iff.mpr
  intro limit bound
  rw [limits] at bound
  exact Nat.lt_of_le_of_lt depth (below limit bound)

end ForkGuard

/-! ## Explorations that go on in fewer places -/

section Explorers

variable {W : Type} {R : W → W → Prop}

inductive Move.Within (R : W → W → Prop) : Move W → Move W → Prop
  | jump {few many : W} {offset : Nat} {returns returns' : List Nat} (related : R few many) :
      Within R (.jump few offset returns) (.jump many offset returns')
  | loop {few many : W} {offset : Nat} (related : R few many) :
      Within R (.loop few offset) (.loop many offset)
  | fork {few many : W} {target next : Nat} (related : R few many) :
      Within R (.fork few target next) (.fork many target next)
  | taken {few many : W} {target next : Nat} {returns : List Nat} (related : R few many) :
      Within R (.jump few target returns) (.fork many target next)
  | passed {few many : W} {target next : Nat} {returns : List Nat} (related : R few many) :
      Within R (.jump few next returns) (.fork many target next)
  | fanOut {few many : W} {some all : List Nat} (related : R few many)
      (sublist : some.Sublist all) : Within R (.fanOut few some) (.fanOut many all)
  | finish {few many : W} (related : R few many) : Within R (.finish few) (.finish many)
  | abandon : Within R .abandon .abandon

namespace Explorer

/-- The first explorer has found a part of what the second has found, in the same order, and has no
more forks open. -/
structure Within (R : W → W → Prop) (few many : Explorer W) : Prop where
  terminals : List.SublistForall₂ R few.findings.terminals.toList many.findings.terminals.toList
  coverage : ∀ offset ∈ few.findings.recorder.coverage.toList,
    offset ∈ many.findings.recorder.coverage.toList
  limits : few.findings.forks.limits = many.findings.forks.limits
  depth : few.findings.forks.depth ≤ many.findings.forks.depth

namespace Within

variable {few many : Explorer W}

theorem extended (within : Within R few many) {later : Explorer W} (ext : Extends many later) :
    Within R few later where
  terminals := by
    obtain ⟨kept, related, sublist⟩ := List.sublistForall₂_iff.mp within.terminals
    exact List.sublistForall₂_iff.mpr ⟨kept, related, sublist.trans ext.terminals.sublist⟩
  coverage offset member := ext.coverage offset (within.coverage offset member)
  limits := within.limits.trans ext.limits.symm
  depth := within.depth.trans_eq ext.depth.symm

theorem returning (within : Within R few many) (returns returns' : List Nat) :
    Within R { few with returns := returns } { many with returns := returns' } :=
  ⟨within.terminals, within.coverage, within.limits, within.depth⟩

theorem collected (within : Within R few many) {world world' : W} (related : R world world') :
    Within R (few.update (·.collected world)) (many.update (·.collected world')) where
  terminals := by
    obtain ⟨kept, others, sublist⟩ := List.sublistForall₂_iff.mp within.terminals
    refine List.sublistForall₂_iff.mpr ⟨kept ++ [world'], ?_, ?_⟩
    · change List.Forall₂ R (few.findings.terminals.push world).toList _
      rw [Array.toList_push]
      exact List.rel_append others (.cons related .nil)
    · change List.Sublist _ (many.findings.terminals.push world').toList
      rw [Array.toList_push]
      exact sublist.append (.refl _)
  coverage := within.coverage
  limits := within.limits
  depth := within.depth

theorem visited (within : Within R few many) (offset : Nat) (opcode : Opcode) (depth depth' : Nat) :
    Within R (few.update (·.visited offset opcode depth))
      (many.update (·.visited offset opcode depth')) where
  terminals := within.terminals
  coverage := by
    intro reached member
    rcases SortedSet.mem_insert.mp member with here | before
    · exact SortedSet.mem_insert.mpr (.inl here)
    · exact SortedSet.mem_insert.mpr (.inr (within.coverage reached before))
  limits := within.limits
  depth := within.depth

theorem opened (within : Within R few many) {forks : ForkGuard}
    (entered : many.findings.forks.enter = .ok forks) : Within R few (many.setForks forks) where
  terminals := within.terminals
  coverage := within.coverage
  limits := within.limits.trans (ForkGuard.enter_ok entered).1.symm
  depth := by
    change _ ≤ forks.depth
    rw [(ForkGuard.enter_ok entered).2]
    exact Nat.le_succ_of_le within.depth

theorem bothOpened (within : Within R few many) {forks forks' : ForkGuard}
    (entered' : few.findings.forks.enter = .ok forks')
    (entered : many.findings.forks.enter = .ok forks) :
    Within R (few.setForks forks') (many.setForks forks) where
  terminals := within.terminals
  coverage := within.coverage
  limits := (ForkGuard.enter_ok entered').1.trans (within.opened entered).limits
  depth := by
    change forks'.depth ≤ forks.depth
    rw [(ForkGuard.enter_ok entered').2, (ForkGuard.enter_ok entered).2]
    exact Nat.succ_le_succ within.depth

theorem closed (within : Within R few many)
    (room : few.findings.forks.depth < many.findings.forks.depth) :
    Within R few (many.setForks many.findings.forks.exit) where
  terminals := within.terminals
  coverage := within.coverage
  limits := within.limits
  depth := Nat.le_sub_one_of_lt room

theorem bothClosed (within : Within R few many) :
    Within R (few.setForks few.findings.forks.exit) (many.setForks many.findings.forks.exit) where
  terminals := within.terminals
  coverage := within.coverage
  limits := within.limits
  depth := Nat.sub_le_sub_right within.depth 1

end Within

/-- What is explored from a related state, with less found before, finishes if it does so from the
other state, and then has found less. It is asked that only what is allowed was reached. -/
def Narrows (R : W → W → Prop) (allowed : Nat → Prop) (run : Run W) : Prop :=
  ∀ ⦃world world' : W⦄ ⦃offset : Nat⦄ ⦃few many left : Explorer W⦄ ⦃ending : PathEnd⦄,
    R world world' → Within R few many → run world' offset many = (.finished ending, left) →
    (∀ reached ∈ left.findings.recorder.coverage.toList, allowed reached) →
    ∃ ending' left', run world offset few = (.finished ending', left') ∧ Within R left' left

variable {allowed : Nat → Prop} {world world' : W} {few many left : Explorer W} {ending : PathEnd}

theorem forked_narrows {run : Run W} (narrows : Narrows R allowed run) :
    Narrows R allowed (forked run) := by
  intro world world' offset few many left ending related within finished reached
  obtain ⟨forks, inner, entered, ran, rfl⟩ := forked_finished.mp finished
  obtain ⟨forks', entered'⟩ := ForkGuard.enter_within within.limits within.depth entered
  obtain ⟨ending', inner', ran', within'⟩ :=
    narrows related (within.bothOpened entered' entered) ran reached
  exact ⟨ending', _, forked_finished.mpr ⟨forks', inner', entered', ran', rfl⟩, within'.bothClosed⟩

/-- A path may also be followed in place where the other exploration forks. -/
theorem unforked_narrows {run : Run W} (keeps : Keeps Extends run) (narrows : Narrows R allowed run)
    {target : Nat} (related : R world world') (within : Within R few many)
    (finished : forked run world' target many = (.finished ending, left))
    (reached : ∀ offset ∈ left.findings.recorder.coverage.toList, allowed offset) :
    ∃ ending' left', run world target few = (.finished ending', left') ∧ Within R left' left := by
  obtain ⟨forks, inner, entered, ran, rfl⟩ := forked_finished.mp finished
  obtain ⟨ending', left', ran', within'⟩ := narrows related (within.opened entered) ran reached
  -- While the fork is open the other is one deeper, and both depths are what they were before.
  have depth := (keeps world' target (many.setForks forks)).depth
  have depth' := (keeps world target few).depth
  rw [ran] at depth
  rw [ran'] at depth'
  have room : left'.findings.forks.depth < inner.findings.forks.depth := by
    rw [depth, depth']
    exact Nat.lt_of_le_of_lt within.depth
      (Nat.lt_of_lt_of_eq (Nat.lt_succ_self _) (ForkGuard.enter_ok entered).2.symm)
  exact ⟨ending', left', ran', within'.closed room⟩

theorem fanOut_narrows {run : Run W} (keeps : Keeps Extends run) (narrows : Narrows R allowed run)
    {some all : List Nat} (sublist : some.Sublist all) (related : R world world')
    (within : Within R few many) (finished : fanOut run world' all many = (.finished ending, left))
    (reached : ∀ offset ∈ left.findings.recorder.coverage.toList, allowed offset) :
    ∃ ending' left', fanOut run world some few = (.finished ending', left') ∧
      Within R left' left := by
  induction sublist generalizing few many with
  | slnil =>
    cases finished
    exact ⟨.switched, few, rfl, within⟩
  | @cons some all target _ ih =>
    obtain ⟨pathEnd, between, explored, others⟩ := fanOut_cons_finished.mp finished
    -- The target is left out, and what the other exploration finds there only adds to the rest.
    have skipped := forked_keeps extends_stepwise keeps world' target (many.update .switched)
    rw [explored] at skipped
    exact ih (within.extended (extends_stepwise.trans (extends_stepwise.switched many) skipped))
      others
  | @cons_cons some all target _ ih =>
    obtain ⟨pathEnd, between, explored, others⟩ := fanOut_cons_finished.mp finished
    have later := fanOut_keeps extends_stepwise keeps world' all between
    rw [others] at later
    have switched : Within R (few.update .switched) (many.update .switched) :=
      ⟨within.terminals, within.coverage, within.limits, within.depth⟩
    obtain ⟨pathEnd', between', explored', within'⟩ := forked_narrows narrows related switched
      explored fun offset member => reached offset (later.coverage offset member)
    obtain ⟨ending', left', others', within''⟩ := ih within' others
    exact ⟨ending', left', fanOut_cons_finished.mpr ⟨pathEnd', between', explored', others'⟩,
      within''⟩

variable [World W] {body : MethodBody} {fuel : Nat}

theorem follow_narrows (narrows : Narrows R allowed (explore body fuel)) {move move' : Move W}
    (moves : move'.Within R move) (within : Within R few many) {instruction : Instruction}
    (finished : follow body fuel instruction many (.ok move) = (.finished ending, left))
    (reached : ∀ offset ∈ left.findings.recorder.coverage.toList, allowed offset) :
    ∃ ending' left', follow body fuel instruction few (.ok move') = (.finished ending', left') ∧
      Within R left' left := by
  have keeps : Keeps Extends (explore body fuel : Run W) := explore_extends body fuel
  cases moves with
  | jump related => exact narrows related (within.returning _ _) finished reached
  | loop related =>
    have followed : Within R (few.update .followed) (many.update .followed) :=
      ⟨within.terminals, within.coverage, within.limits, within.depth⟩
    exact narrows related followed finished reached
  | @fork world world' target next related =>
    obtain ⟨pathEnd, between, explored, onward⟩ := follow_fork_finished.mp finished
    have later := keeps world' next between
    rw [onward] at later
    obtain ⟨pathEnd', between', explored', within'⟩ := forked_narrows narrows related within
      explored fun offset member => reached offset (later.coverage offset member)
    obtain ⟨ending', left', onward', within''⟩ := narrows related within' onward reached
    exact ⟨ending', left', follow_fork_finished.mpr ⟨pathEnd', between', explored', onward'⟩,
      within''⟩
  | @taken world world' target next returns related =>
    obtain ⟨pathEnd, between, explored, onward⟩ := follow_fork_finished.mp finished
    have later := keeps world' next between
    rw [onward] at later
    obtain ⟨ending', left', ran', within'⟩ := unforked_narrows keeps narrows related
      (within.returning returns many.returns) explored
      fun offset member => reached offset (later.coverage offset member)
    exact ⟨ending', left', ran', within'.extended later⟩
  | @passed world world' target next returns related =>
    obtain ⟨pathEnd, between, explored, onward⟩ := follow_fork_finished.mp finished
    have skipped := forked_keeps extends_stepwise keeps world' target many
    rw [explored] at skipped
    exact narrows related ((within.extended skipped).returning returns between.returns) onward
      reached
  | fanOut related sublist =>
    exact fanOut_narrows keeps narrows sublist related within finished reached
  | finish related =>
    cases finished
    exact ⟨.terminal, _, rfl, within.collected related⟩
  | abandon =>
    cases finished
    exact ⟨.unsupported, _, rfl, within.terminals, within.coverage, within.limits, within.depth⟩

/-- If every step goes on only where a step from the related state goes on, then so do the paths. -/
theorem explore_narrows
    (steps : ∀ {offset : Nat} {instruction : Instruction} {world world' : W} {others : List Nat}
      {move : Move W} (returns : List Nat), body.decode offset = .ok instruction →
      allowed offset → R world world' → step body instruction world' others = .ok move →
      ∃ move', step body instruction world returns = .ok move' ∧ move'.Within R move) (fuel : Nat) :
    Narrows R allowed (explore body fuel) := by
  induction fuel with
  | zero =>
    intro world world' offset few many left ending related within finished
    cases finished
  | succ fuel ih =>
    intro world world' offset few many left ending related within finished reached
    cases explore_begins body fuel world' offset with
    | past outside ends =>
      rw [ends] at finished
      cases finished
      refine ⟨.fellOffEnd, few.update .ranOff, by rw [explore, if_pos outside], ?_⟩
      exact ⟨within.terminals, within.coverage, within.limits, within.depth⟩
    | malformed _ _ _ fails =>
      rw [fails] at finished
      cases finished
    | unknown instruction decoded unknown ends =>
      rw [ends] at finished
      cases finished
      have inside := (MethodBody.decode_cases decoded).2.1
      rw [explore, if_neg (Nat.not_le.mpr inside), decoded]
      simp only [unknown]
      refine ⟨.unsupported, _, rfl, ?_⟩
      exact ⟨within.terminals, within.coverage, within.limits, within.depth⟩
    | visit instruction opcode decoded known goes =>
      rw [goes] at finished
      -- What was reached is read off the end of the exploration, where this offset still is.
      have still := mem_coverage_follow body fuel instruction many offset opcode
        (World.stackDepth world') (step body instruction world' many.returns)
      rw [finished] at still
      have here : allowed offset := reached offset still
      cases stepped : step body instruction world' many.returns with
      | error reason =>
        rw [stepped] at finished
        cases finished
      | ok move =>
        rw [stepped] at finished
        obtain ⟨move', stepped', moves⟩ := steps few.returns decoded here related stepped
        rw [explore_visit decoded known, stepped']
        exact follow_narrows ih moves (within.visited offset opcode _ _) finished reached

end Explorer

end Explorers

/-! ## Frames that leave out outcomes -/

theorem Lockstep.after_ok {W : Type} {R : W → W → Prop} {S : Unit → Prop}
    {transition : Transition W Unit} (lockstep : Lockstep R S transition) {left right moved : W}
    (related : R left right) (ran : after transition right = .ok moved) :
    ∃ moved', after transition left = .ok moved' ∧ R moved' moved := by
  have ended := lockstep left right related
  unfold after at ran ⊢
  generalize transition.run left = result', transition.run right = result at ended ran
  cases ended with
  | ok _ still =>
    cases ran
    exact ⟨_, rfl, still⟩
  | error => cases ran

namespace Frame

variable {V : Type} [AbstractValue V] {factory : ValueFactory V} {few many : Frame V}

/-- A frame, and the one that differs from it in that it has every outcome explored. -/
def Twins (factory : ValueFactory V) (few many : Frame V) : Prop :=
  few.factory = factory ∧ many = few.exhaustive

theorem twins_coupling (factory : ValueFactory V) :
    Coupling (fun _ => True) factory (fun _ => True) (Twins factory) where
  alike := by
    rintro few _ ⟨made, rfl⟩
    exact ⟨made, made, rfl, rfl, rfl, rfl⟩
  holds _ := by
    constructor <;> intros <;> trivial
  stack := by
    rintro few _ stack ⟨made, rfl⟩ _
    exact ⟨made, rfl⟩
  setLocal := by
    rintro few _ index kind _ ⟨made, rfl⟩ _
    exact ⟨made, rfl⟩
  locals := by
    rintro few _ value index _ ⟨made, rfl⟩ _
    exact ⟨made, rfl⟩
  fields := by
    rintro few _ value key _ ⟨made, rfl⟩ _
    exact ⟨made, rfl⟩
  statics := by
    rintro few _ value key _ ⟨made, rfl⟩ _
    exact ⟨made, rfl⟩
  flags := by
    rintro few _ flags _ ⟨made, rfl⟩
    exact ⟨made, rfl⟩
  candidates := by
    rintro few _ candidates _ ⟨made, rfl⟩
    exact ⟨made, rfl⟩
  returnValue := by
    rintro few _ value _ ⟨made, rfl⟩ _
    exact ⟨made, rfl⟩
  thrown := by
    rintro few _ value _ ⟨made, rfl⟩ _
    exact ⟨made, rfl⟩

namespace Twins

variable (twins : Twins factory few many) (target next : Nat) (returns returns' : List Nat)

include twins

theorem loopEdge_within :
    (loopEdge few target next returns).Within (Twins factory)
      (loopEdge many target next returns') := by
  obtain ⟨made, rfl⟩ := twins
  by_cases follows : (few.flags.taken && (!few.flags.passed || few.loopingValid)) = true
  · have loops : loopEdge few target next returns = .loop few target := if_pos follows
    have loops' : loopEdge few.exhaustive target next returns' = .loop few.exhaustive target :=
      if_pos follows
    rw [loops, loops']
    exact .loop ⟨made, rfl⟩
  · have falls : loopEdge few target next returns = .jump few next returns := if_neg follows
    have falls' : loopEdge few.exhaustive target next returns' =
        .jump few.exhaustive next returns' := if_neg follows
    rw [falls, falls']
    exact .jump ⟨made, rfl⟩

theorem forwardBranch_within :
    (forwardBranch few target next returns).Within (Twins factory)
      (forwardBranch many target next returns') := by
  obtain ⟨made, rfl⟩ := twins
  have forks : forwardBranch few.exhaustive target next returns' =
      .fork few.exhaustive target next := rfl
  rw [forks]
  unfold forwardBranch
  split
  · exact .fork ⟨made, rfl⟩
  · split
    · exact .taken ⟨made, rfl⟩
    · exact .passed ⟨made, rfl⟩

theorem switchTargets_within {body : MethodBody} {offset : Nat} {table : SwitchTable}
    {all : List Nat} (made : switchTargets body offset table many = .ok all) :
    ∃ some, switchTargets body offset table few = .ok some ∧ some.Sublist all := by
  obtain ⟨_, rfl⟩ := twins
  obtain ⟨targets, mapped, same⟩ := bind_eq_ok.mp made
  cases same
  unfold switchTargets
  split
  · exact ⟨_, bind_eq_ok.mpr ⟨targets, mapped, rfl⟩, .refl _⟩
  · have among : ∀ relative ∈ (World.switchCandidates few).map table.offsetFor,
        relative ∈ table.cases.map Prod.snd ++ [table.default] := by
      intro relative member
      obtain ⟨value, _, rfl⟩ := List.mem_map.mp member
      exact table.offsetFor_mem value
    obtain ⟨chosen, mapped', inside⟩ := mapM_ok_of_subset mapped among
    refine ⟨_, bind_eq_ok.mpr ⟨chosen, mapped', rfl⟩, ?_⟩
    apply ascending_sublist (SortedSet.ascending _) (SortedSet.ascending _)
    intro target member
    exact SortedSet.mem_ofList.mpr (inside target (SortedSet.mem_ofList.mp member))

end Twins

/-- An instruction that has nothing to do with subroutines does the same to both twins, and of the
places where the one goes on the other leaves out some. -/
theorem step_within {body : MethodBody} {instruction : Instruction} {move : Move (Frame V)}
    {others : List Nat} (returns : List Nat)
    (plain : instruction.operation.isSubroutine = false) (twins : Twins factory few many)
    (stepped : step body instruction many others = .ok move) :
    ∃ move', step body instruction few returns = .ok move' ∧ move'.Within (Twins factory) move := by
  have coupling := twins_coupling factory
  have closed := factory.closed_true
  unfold step at *
  cases operation : instruction.operation with
  | nop =>
    rw [operation] at stepped
    cases stepped
    exact ⟨_, rfl, .jump twins⟩
  | effect effect =>
    rw [operation] at stepped
    obtain ⟨moved, ran, made⟩ := bind_eq_ok.mp stepped
    cases made
    obtain ⟨moved', ran', still⟩ :=
      (coupling.perform closed effect fun _ _ => trivial).after_ok twins ran
    exact ⟨_, bind_eq_ok.mpr ⟨moved', ran', rfl⟩, .jump still⟩
  | goto relative =>
    rw [operation] at stepped
    obtain ⟨target, jumped, made⟩ := bind_eq_ok.mp stepped
    cases made
    exact ⟨_, bind_eq_ok.mpr ⟨target, jumped, rfl⟩, .jump twins⟩
  | jsr | ret =>
    rw [operation] at plain
    cases plain
  | branch test relative =>
    rw [operation] at stepped
    obtain ⟨target, jumped, rest⟩ := bind_eq_ok.mp stepped
    obtain ⟨moved, ran, made⟩ := bind_eq_ok.mp rest
    obtain ⟨moved', ran', still⟩ := (coupling.evaluateBranch trivial test).after_ok twins ran
    by_cases backward : relative ≤ 0
    · rw [if_pos backward] at made
      cases made
      refine ⟨_, bind_eq_ok.mpr ⟨target, jumped,
        bind_eq_ok.mpr ⟨moved', ran', if_pos backward⟩⟩, ?_⟩
      exact still.loopEdge_within ..
    · rw [if_neg backward] at made
      cases made
      refine ⟨_, bind_eq_ok.mpr ⟨target, jumped,
        bind_eq_ok.mpr ⟨moved', ran', if_neg backward⟩⟩, ?_⟩
      exact still.forwardBranch_within ..
  | switch table =>
    rw [operation] at stepped
    obtain ⟨moved, ran, rest⟩ := bind_eq_ok.mp stepped
    obtain ⟨all, found, made⟩ := bind_eq_ok.mp rest
    cases made
    obtain ⟨moved', ran', still⟩ := (coupling.evaluateSwitch trivial trivial).after_ok twins ran
    obtain ⟨some, found', sublist⟩ := still.switchTargets_within found
    exact ⟨_, bind_eq_ok.mpr ⟨moved', ran', bind_eq_ok.mpr ⟨some, found', rfl⟩⟩,
      .fanOut still sublist⟩
  | terminate terminal =>
    rw [operation] at stepped
    obtain ⟨moved, ran, made⟩ := bind_eq_ok.mp stepped
    cases made
    obtain ⟨moved', ran', still⟩ :=
      (coupling.terminate terminal fun _ _ => trivial).after_ok twins ran
    exact ⟨_, bind_eq_ok.mpr ⟨moved', ran', rfl⟩, .finish still⟩
  | unsupported =>
    rw [operation] at stepped
    cases stepped
    exact ⟨_, rfl, .abandon⟩

theorem twins_narrow (factory : ValueFactory V) (body : MethodBody) (fuel : Nat) :
    Explorer.Narrows (Twins factory) (fun offset => body.subroutineAt offset = false)
      (Explorer.explore body fuel) := by
  apply Explorer.explore_narrows
  intro offset instruction few many others move returns decoded plain twins stepped
  apply step_within returns ?_ twins stepped
  simpa only [MethodBody.subroutineAt, decoded] using plain

omit [AbstractValue V] in
theorem map_exhaustive {some all : List (Frame V)} (twins : List.Forall₂ (Twins factory) some all) :
    some.map exhaustive = all ∧ ∀ frame ∈ some, frame.factory = factory := by
  induction twins with
  | nil => exact ⟨rfl, nofun⟩
  | cons first _ ih =>
    obtain ⟨made, rfl⟩ := first
    exact ⟨congrArg _ ih.1, List.forall_mem_cons.mpr ⟨made, ih.2⟩⟩

end Frame

def terminals {W : Type} [World W] (body : MethodBody) (config : Config) (fuel : Nat) (world : W) :
    List W :=
  (Explorer.explore body fuel world 0 (.new config)).2.findings.terminals.toList

/-- Pruning only drops paths. Where the exploration of every outcome ends without an error, and has
not come across a subroutine, the exploration of the possible outcomes ends without an error, too.
It collects some of the same states, in the same order, reaches some of the same offsets, and what
its joined state returns is within what the other joined state returns. -/
theorem interpret_prunes (body : MethodBody) (config : Config) (fuel : Nat) (seeds : Seeds)
    (frame : Frame Interval) (all : Exploration (Frame Interval))
    (factory : frame.factory = seeds.factory)
    (finished : interpret body config fuel frame.exhaustive = .finished all)
    (plain : ∀ offset ∈ all.trace.coverage, body.subroutineAt offset = false) :
    ∃ pruned, interpret body config fuel frame = .finished pruned ∧
      ((terminals body config fuel frame).map Frame.exhaustive).Sublist
        (terminals body config fuel frame.exhaustive) ∧
      (∀ offset ∈ pruned.trace.coverage, offset ∈ all.trace.coverage) ∧
      ∀ value ∈ pruned.world.bind Frame.returnValue,
        ∃ value' ∈ all.world.bind Frame.returnValue, value'.subsumes value = .ok true := by
  obtain ⟨ending, left, joined, explored, joins, rfl⟩ :=
    Explorer.interpret_eq_finished.mp finished
  have fresh : Explorer.Within (Frame.Twins seeds.factory) (.new config) (.new config) :=
    ⟨.nil, nofun, rfl, Nat.le_refl _⟩
  obtain ⟨ending', left', explored', within⟩ :=
    Frame.twins_narrow seeds.factory body fuel ⟨factory, rfl⟩ fresh explored plain
  obtain ⟨kept, twins, sublist⟩ := List.sublistForall₂_iff.mp within.terminals
  obtain ⟨rfl, factories⟩ := Frame.map_exhaustive twins
  have joinable := List.pairwise_map.mp ((Frame.joinTerminals_joinable joins).sublist sublist)
  obtain ⟨joined', joins'⟩ := Frame.joinTerminals_ok
    (fun frame among => ⟨seeds, factories frame among⟩)
    (joinable.imp fun fit => ⟨fit.stack, fit.returnValue, fit.thrown⟩)
  refine ⟨left'.summary joined', Explorer.interpret_eq_finished.mpr
    ⟨ending', left', joined', explored', joins', rfl⟩, ?_, within.coverage, ?_⟩
  · unfold terminals
    rw [explored, explored']
    exact sublist
  · intro value returns
    have subset : ∀ v ∈ Frame.returned left'.findings.terminals.toList,
        v ∈ Frame.returned left.findings.terminals.toList := by
      intro v member
      obtain ⟨frame, among, held⟩ := List.mem_flatMap.mp member
      exact List.mem_flatMap.mpr
        ⟨frame.exhaustive, sublist.subset (List.mem_map_of_mem among), held⟩
    obtain ⟨value', present, covers⟩ := Frame.joinTerminals_covers joins' joins subset returns
    exact ⟨value', present, Interval.covers_iff.mp covers⟩

/-- A test that is decided, followed by a switch whose selector is known: `iconst_1; ifne +5;
iconst_2; ireturn; iconst_0; tableswitch 0: +17, default: +19; iconst_3; ireturn; iconst_4;
ireturn`. -/
def decidedBody : MethodBody :=
  ⟨#[0x04, 0x9a, 0x00, 0x05, 0x05, 0xac, 0x03, 0xaa, 0x00, 0x00, 0x00, 0x13,
    0x00, 0x00, 0x00, 0x00, 0x00, 0x00, 0x00, 0x00, 0x00, 0x00, 0x00, 0x11,
    0x06, 0xac, 0x07, 0xac], .empty⟩

theorem interpret_prunes_decided : ∃ all pruned value,
    interpret decidedBody .default 6 (Frame.initial Seeds.empty.factory).exhaustive =
      .finished all ∧ all.terminalStates = 3 ∧
    (∀ offset ∈ all.trace.coverage, decidedBody.subroutineAt offset = false) ∧
    interpret decidedBody .default 6 (Frame.initial Seeds.empty.factory) = .finished pruned ∧
    (terminals decidedBody .default 6 (Frame.initial Seeds.empty.factory)).length = 1 ∧
    ((terminals decidedBody .default 6 (Frame.initial Seeds.empty.factory)).map
      Frame.exhaustive).Sublist
        (terminals decidedBody .default 6 (Frame.initial Seeds.empty.factory).exhaustive) ∧
    all.world.bind Frame.returnValue = some value ∧
      value.subsumes (.integral .int (.singleton 3)) = .ok true := by
  have explored : ∃ all,
      interpret decidedBody .default 6 (Frame.initial Seeds.empty.factory).exhaustive =
        .finished all ∧ all.terminalStates = 3 ∧
      ∀ offset ∈ all.trace.coverage, decidedBody.subroutineAt offset = false :=
    ⟨_, rfl, rfl, by decide +kernel⟩
  obtain ⟨all, finished, count, plain⟩ := explored
  obtain ⟨pruned, ran, sublist, _, covers⟩ :=
    interpret_prunes decidedBody .default 6 .empty _ all rfl finished plain
  have returns : pruned.world.bind Frame.returnValue = some (.integral .int (.singleton 3)) := by
    cases ran
    rfl
  obtain ⟨value, held, above⟩ := covers _ returns
  exact ⟨all, pruned, value, finished, count, plain, ran, rfl, sublist, held, above⟩

end MethodFlow

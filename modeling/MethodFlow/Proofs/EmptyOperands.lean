import MethodFlow.Proofs.BranchOutcomes
import MethodFlow.Proofs.CodeBytes
import MethodFlow.Proofs.Exploration
import MethodFlow.Proofs.IntervalOrder

/-! Branches on operands without members. A test of ints, or of one reference, finds no outcome
possible, and the path goes on behind the branch. A test of two references finds that they differ,
so a branch that is taken if they do is always taken, backward too. -/
namespace MethodFlow

namespace Interval

variable {a b met : Interval}

theorem Covers.isBottom (covers : a.Covers b) (empty : a.isBottom = true) : b.isBottom = true := by
  cases covers with
  | integral _ covers =>
    rename_i r s _
    cases r with
    | empty =>
      cases s with
      | empty => rfl
      | span => cases covers
    | span => cases empty
  | floating covers =>
    rename_i r s
    obtain ⟨left, m⟩ := r
    obtain ⟨right, n⟩ := s
    cases left with
    | none =>
      cases right with
      | none => simp_all [isBottom, FloatRange.isEmpty, FloatRange.covers]
      | some => cases covers
    | some => cases empty
  | reference covers =>
    rename_i m n
    have nothing : m = .bottom := by simpa [Interval.isBottom] using empty
    subst nothing
    cases n <;> first | rfl | cases covers
  | returnAddress covers =>
    rename_i m n
    cases m with
    | any => cases empty
    | known targets =>
      cases n with
      | any => cases covers
      | known others =>
        have inside := Addresses.covers_known.mp covers
        simp_all [isBottom, SortedSet.isEmpty, List.eq_nil_iff_forall_not_mem]

theorem intersection_isBottom (made : a.intersection b = .ok met)
    (empty : a.isBottom = true ∨ b.isBottom = true) : met.isBottom = true := by
  have both := (intersection_covers made).mp (covers_refl met)
  rcases empty with left | right
  · exact both.1.isBottom left
  · exact both.2.isBottom right

theorem single?_of_isBottom (empty : a.isBottom = true) : a.concretize.single? = none := by
  cases a with
  | integral kind range =>
    cases range with
    | empty => rfl
    | span => cases empty
  | floating kind range =>
    obtain ⟨span, nan⟩ := range
    cases span with
    | none =>
      cases nan with
      | false => rfl
      | true => cases empty
    | some => cases empty
  | reference nullness =>
    cases nullness <;> first | rfl | cases empty
  | returnAddress addresses =>
    cases addresses with
    | any => cases empty
    | known targets =>
      have none : targets.toList = [] := List.isEmpty_iff.mp empty
      simp only [concretize, none]
      rfl

end Interval

/-- The operands of a branch, the upper one first: ones that can be tested, and one of them has no
members. The tests of ints look no further at the other operand. -/
inductive EmptyOperands : BranchTest → List Interval → Prop
  | zero {condition : Condition} {value : Interval} (empty : value.isBottom = true) :
      EmptyOperands (.zero condition) [value]
  | intCompare {condition : Condition} {left right : Interval}
      (empty : left.isBottom = true ∨ right.isBottom = true) :
      EmptyOperands (.intCompare condition) [right, left]
  | null {isNull : Bool} : EmptyOperands (.null isNull) [.reference .bottom]
  | refCompare {equal : Bool} {left right : Interval}
      (comparable : left.kind.compatible right.kind = true)
      (empty : left.isBottom = true ∨ right.isBottom = true) :
      EmptyOperands (.refCompare equal) [right, left]

/-- What a test finds possible if an operand has no members. -/
def BranchTest.emptyFlags : BranchTest → BranchFlags
  | .refCompare equal => ⟨!equal, equal⟩
  | _ => .none

namespace Feasibility

variable {left right : Interval}

theorem againstZero_empty {value : Interval} (zero : Interval) (condition : Condition)
    (empty : value.isBottom = true) : againstZero zero condition value = .ok .none := by
  have bottom : AbstractValue.isBottom value = true := empty
  unfold againstZero
  rw [if_pos bottom]
  rfl

theorem againstNull_empty (isNull : Bool) :
    againstValue isNull (Interval.reference .bottom) Interval.null = .ok .none := by
  cases isNull <;> rfl

theorem betweenInts_empty (condition : Condition)
    (empty : left.isBottom = true ∨ right.isBottom = true) :
    betweenInts condition left right = .ok .none := by
  have bottom : (AbstractValue.isBottom left || AbstractValue.isBottom right) = true :=
    Bool.or_eq_true_iff.mpr empty
  unfold betweenInts
  rw [if_pos bottom]
  rfl

theorem compareSame_empty (equal : Bool) (comparable : left.kind.compatible right.kind = true)
    (empty : left.isBottom = true ∨ right.isBottom = true) :
    compareSame equal left right = .ok (BranchTest.refCompare equal).emptyFlags := by
  obtain ⟨met, made⟩ := Interval.intersection_ok_iff.mpr comparable
  have common : AbstractValue.intersection left right = .ok met := made
  have nothing : AbstractValue.isBottom met = true := Interval.intersection_isBottom made empty
  have several : (AbstractValue.concretize left).single? = none ∨
      (AbstractValue.concretize right).single? = none :=
    empty.imp Interval.single?_of_isBottom Interval.single?_of_isBottom
  -- what differs is told from the operands alone, and not from what they have in common
  unfold compareSame
  rw [common]
  change Except.ok (sameness equal (!AbstractValue.isBottom met) _) = _
  rw [nothing]
  rcases several with one | one
  · rw [one]
    cases equal <;> rfl
  · rw [one]
    cases (AbstractValue.concretize left).single? <;> cases equal <;> rfl

end Feasibility

namespace BranchTest

variable {test : BranchTest}

theorem emptyFlags_taken : test.emptyFlags.taken = true ↔ test = .refCompare false := by
  cases test <;> simp [emptyFlags, BranchFlags.none]

theorem emptyFlags_passed : test.emptyFlags.passed = true ↔ test = .refCompare true := by
  cases test <;> simp [emptyFlags, BranchFlags.none]

end BranchTest

section Branch

variable {seeds : Seeds} {frame : Frame Interval} {test : BranchTest} {operands : List Interval}
  {rest : OperandStack Interval}

theorem EmptyOperands.evaluateBranch (empty : EmptyOperands test operands)
    (made : frame.factory = seeds.factory) (stack : frame.stack = operands ++ rest) :
    Yields (World.evaluateBranch test) frame ()
      { frame with stack := rest, flags := test.emptyFlags } := by
  cases empty with
  | @zero condition value empty =>
    have tested := Feasibility.againstZero_empty (frame.factory.int 0) condition empty
    exact (Frame.pop_yields stack).bind ((Yields.get _).bind
      ((Frame.compute_yields _ tested).bind rfl))
  | @intCompare condition left right empty =>
    have tested := Feasibility.betweenInts_empty condition empty
    exact Frame.pop_two_yields stack ((Frame.compute_yields _ tested).bind rfl)
  | @null isNull =>
    refine (Frame.pop_yields stack).bind ((Yields.get _).bind
      ((Frame.compute_yields _ ?_).bind rfl))
    rw [made]
    exact Feasibility.againstNull_empty isNull
  | @refCompare equal left right comparable empty =>
    have tested := Feasibility.compareSame_empty equal comparable empty
    exact Frame.pop_two_yields stack ((Frame.compute_yields _ tested).bind rfl)

section Edges

variable {left : Frame Interval} (flags : left.flags = test.emptyFlags)

include flags

theorem not_taken_of_empty (other : test ≠ .refCompare false) : left.flags.taken = false := by
  refine Bool.eq_false_iff.mpr fun taken => other (BranchTest.emptyFlags_taken.mp ?_)
  rwa [← flags]

theorem loopEdge_empty (target next : Nat) (returns : List Nat) :
    loopEdge left target next returns =
      if test = .refCompare false then .loop left target else .jump left next returns := by
  by_cases different : test = .refCompare false
  · subst different
    simp [loopEdge, World.takenFeasible, World.passedFeasible, flags, BranchTest.emptyFlags]
  · simp [loopEdge, World.takenFeasible, not_taken_of_empty flags different, different]

theorem forwardBranch_empty (decided : left.evaluateAll = false) (target next : Nat)
    (returns : List Nat) :
    forwardBranch left target next returns =
      .jump left (if test = .refCompare false then target else next) returns := by
  by_cases different : test = .refCompare false
  · subst different
    simp [forwardBranch, World.allBranches, World.shouldTake, decided, flags,
      BranchTest.emptyFlags]
  · simp [forwardBranch, World.allBranches, World.shouldTake, decided,
      not_taken_of_empty flags different, different]

end Edges

/-- Unless every outcome has to be explored, the step goes to the target if two references are
tested for being different, and to the next instruction otherwise. -/
theorem EmptyOperands.step {body : MethodBody} {instruction : Instruction} {relative : Int}
    {target : Nat} (empty : EmptyOperands test operands) (made : frame.factory = seeds.factory)
    (stack : frame.stack = operands ++ rest) (decided : frame.evaluateAll = false)
    (operation : instruction.operation = .branch test relative)
    (inside : jumpTarget body instruction.offset relative = .ok target) (returns : List Nat) :
    let left : Frame Interval := { frame with stack := rest, flags := test.emptyFlags }
    MethodFlow.step body instruction frame returns =
      .ok (if test = .refCompare false then
          if relative ≤ 0 then .loop left target else .jump left target returns
        else .jump left (instruction.offset + instruction.length) returns) := by
  intro left
  have flags : left.flags = test.emptyFlags := rfl
  have evaluated : after (World.evaluateBranch test) frame = .ok left :=
    after_eq (empty.evaluateBranch made stack)
  simp only [MethodFlow.step, operation, inside, evaluated, Bind.bind, Except.bind]
  by_cases backward : relative ≤ 0
  · simp only [if_pos backward]
    exact congrArg Except.ok (loopEdge_empty flags target _ returns)
  · simp only [if_neg backward]
    refine (congrArg Except.ok (forwardBranch_empty flags decided target _ returns)).trans ?_
    split <;> rfl

/-- A branch with an operand that has no members takes its operands from the stack. Only a test of
two references finds an outcome possible, and it is that they differ. Unless every outcome has to be
explored, the path goes on behind the branch, without a fork and without a loop, except for a branch
that is taken if two references differ: it is always taken. -/
theorem branch_passed_unless_different (seeds : Seeds) (frame : Frame Interval) (test : BranchTest)
    (operands : List Interval) (rest : OperandStack Interval)
    (made : frame.factory = seeds.factory) (stack : frame.stack = operands ++ rest)
    (empty : EmptyOperands test operands) :
    ∃ left : Frame Interval, Yields (World.evaluateBranch test) frame () left ∧
      left.stack = rest ∧
      (World.takenFeasible left = true ↔ test = .refCompare false) ∧
      (World.passedFeasible left = true ↔ test = .refCompare true) ∧
      ∀ (body : MethodBody) (offset target : Nat) (instruction : Instruction) (opcode : Opcode)
        (relative : Int), body.decode offset = .ok instruction →
        instruction.opcode = some opcode → instruction.operation = .branch test relative →
        jumpTarget body offset relative = .ok target → frame.evaluateAll = false →
        ∀ (fuel : Nat) (explorer : Explorer (Frame Interval)),
          let visited := explorer.update (·.visited offset opcode frame.stack.length)
          Explorer.explore body (fuel + 1) frame offset explorer =
            if test = .refCompare false then
              Explorer.explore body fuel left target
                (if relative ≤ 0 then visited.update .followed else visited)
            else Explorer.explore body fuel left (offset + instruction.length) visited := by
  refine ⟨_, empty.evaluateBranch made stack, rfl, BranchTest.emptyFlags_taken,
    BranchTest.emptyFlags_passed, ?_⟩
  intro body offset target instruction opcode relative decoded known operation inside decided fuel
    explorer visited
  have place : instruction.offset = offset := (MethodBody.decode_cases decoded).1
  have stepped := empty.step made stack decided operation (place.symm ▸ inside) explorer.returns
  rw [Explorer.explore_visit decoded known, stepped, place]
  split
  · split <;> rfl
  · rfl

end Branch

theorem MethodBody.Holds.decode_branch {body : MethodBody} {offset : Nat} {opcode : Opcode}
    {test : BranchTest} {relative : Int} (held : body.Holds offset [opcode.byte])
    (layout : opcode.layout = .branch test) (read : body.i16At (offset + 1) = .ok relative) :
    body.decode offset = .ok ⟨offset, opcode.byte, some opcode, 3, .branch test relative⟩ := by
  refine held.decode ?_
  rw [layout, operationAt, read]
  rfl

def loopWhileBelow : MethodBody := ⟨#[0, 161, 255, 255, 177], .empty⟩

/-- A loop ends where an operand of its test has no members, also if looping is allowed. -/
theorem branch_passed_unless_different_below :
    let operands : OperandStack Interval := [.integral .int .empty, .integral .int (.singleton 5)]
    let frame : Frame Interval :=
      { Frame.initial Seeds.empty.factory with stack := operands, loopingValid := true }
    ∃ left : Frame Interval, Yields (World.evaluateBranch (.intCompare .lt)) frame () left ∧
      left.stack = [] ∧ World.takenFeasible left = false ∧ World.passedFeasible left = false ∧
      ∀ (fuel : Nat) (explorer : Explorer (Frame Interval)),
        Explorer.explore loopWhileBelow (fuel + 1) frame 1 explorer =
          Explorer.explore loopWhileBelow fuel left 4
            (explorer.update (·.visited 1 .ifIcmplt 2)) := by
  intro operands frame
  obtain ⟨left, yields, stack, taken, passed, onward⟩ := branch_passed_unless_different .empty frame
    (.intCompare .lt) operands [] rfl rfl (.intCompare (.inr rfl))
  refine ⟨left, yields, stack, ?_, ?_, fun fuel explorer => ?_⟩
  · exact Bool.eq_false_iff.mpr fun isTaken => nomatch taken.mp isTaken
  · exact Bool.eq_false_iff.mpr fun isPassed => nomatch passed.mp isPassed
  · have held : loopWhileBelow.Holds 1 [Opcode.ifIcmplt.byte] := ⟨rfl, trivial⟩
    have decoded := held.decode_branch rfl (by decide : loopWhileBelow.i16At 2 = .ok (-1))
    exact onward loopWhileBelow 1 0 _ .ifIcmplt (-1) decoded rfl rfl rfl rfl fuel explorer

namespace Explorer

variable {W : Type} [World W] {body : MethodBody}

/-- A path goes on from one state and offset to others, whatever was found before. -/
def Goes (body : MethodBody) (world : W) (offset : Nat) (left : W) (next : Nat) : Prop :=
  ∀ fuel explorer, ∃ found, explore body (fuel + 1) world offset explorer =
    explore body fuel left next found

theorem Goes.of_effect {world left : W} {offset length : Nat} {byte : UInt8} {opcode : Opcode}
    {effect : Effect}
    (decoded : body.decode offset = .ok ⟨offset, byte, some opcode, length, .effect effect⟩)
    (performed : Yields (World.perform effect) world () left) :
    Goes body world offset left (offset + length) := by
  intro fuel explorer
  refine ⟨explorer.update (·.visited offset opcode (World.stackDepth world)), ?_⟩
  rw [explore_visit decoded rfl]
  simp only [step, after_eq performed, Bind.bind, Except.bind]
  rfl

/-- A path that can always go on never ends. -/
theorem outOfFuel_of_goes {stays : W → Nat → Prop}
    (goes : ∀ world offset, stays world offset →
      ∃ left next, stays left next ∧ Goes body world offset left next)
    (fuel : Nat) {world : W} {offset : Nat} (start : stays world offset) (explorer : Explorer W) :
    (explore body fuel world offset explorer).1 = .outOfFuel := by
  induction fuel generalizing world offset explorer with
  | zero => rfl
  | succ fuel ih =>
    obtain ⟨left, next, again, onward⟩ := goes world offset start
    obtain ⟨found, same⟩ := onward fuel explorer
    rw [same]
    exact ih again found

end Explorer

/-- Compares an element of null with null, and starts again if they differ. -/
def loopWhileDifferent : MethodBody := ⟨#[1, 3, 50, 1, 166, 255, 252], .empty⟩

inductive LoopStack : Nat → OperandStack Interval → Prop
  | start : LoopStack 0 []
  | array : LoopStack 1 [.reference .null]
  | index : LoopStack 2 [.integral .int (.singleton 0), .reference .null]
  | element : LoopStack 3 [.reference .bottom]
  | compare : LoopStack 4 [.reference .null, .reference .bottom]

/-- The loop is at the offset, and one outcome of its test is enough. -/
structure Looping (seeds : Seeds) (frame : Frame Interval) (offset : Nat) : Prop where
  made : frame.factory = seeds.factory
  decided : frame.evaluateAll = false
  stack : LoopStack offset frame.stack

theorem Frame.push_literal_yields {frame : Frame Interval} {literal : Literal} {value : Interval}
    {rest : OperandStack Interval} (stack : frame.stack = rest)
    (stands : literalValue frame.factory literal = .ok value) :
    Yields (World.perform (.push literal)) frame () { frame with stack := value :: rest } := by
  subst stack
  exact (Yields.get frame).bind ((compute_yields frame stands).bind (push_yields frame value))

theorem Looping.goes {seeds : Seeds} {frame : Frame Interval} {offset : Nat}
    (looping : Looping seeds frame offset) : ∃ left next, Looping seeds left next ∧
      Explorer.Goes loopWhileDifferent frame offset left next := by
  obtain ⟨made, decided, stack⟩ := looping
  generalize held : frame.stack = operands at stack
  cases stack with
  | start =>
    have stands : Frame.literalValue frame.factory .null = .ok (.reference .null) := by
      rw [made]
      rfl
    refine ⟨_, _, ?_, .of_effect rfl (Frame.push_literal_yields held stands)⟩
    exact ⟨made, decided, .array⟩
  | array =>
    have stands : Frame.literalValue frame.factory (.int 0) =
        .ok (.integral .int (.singleton 0)) := by
      rw [made]
      rfl
    refine ⟨_, _, ?_, .of_effect rfl (Frame.push_literal_yields held stands)⟩
    exact ⟨made, decided, .index⟩
  | index =>
    have loaded : Interval.loadFromArray (.reference .null) (.integral .int (.singleton 0))
        .reference = .ok (.reference .bottom) := rfl
    refine ⟨_, _, ?_,
      .of_effect rfl (Frame.pop_two_yields held ((Frame.compute_yields _ loaded).bind rfl))⟩
    exact ⟨made, decided, .element⟩
  | element =>
    have stands : Frame.literalValue frame.factory .null = .ok (.reference .null) := by
      rw [made]
      rfl
    refine ⟨_, _, ?_, .of_effect rfl (Frame.push_literal_yields held stands)⟩
    exact ⟨made, decided, .compare⟩
  | compare =>
    have opcode : loopWhileDifferent.Holds 4 [Opcode.ifAcmpne.byte] := ⟨rfl, trivial⟩
    have decoded := opcode.decode_branch rfl (by decide : loopWhileDifferent.i16At 5 = .ok (-4))
    have empty : EmptyOperands (.refCompare false) [.reference .null, .reference .bottom] :=
      .refCompare rfl (.inl rfl)
    have inside : jumpTarget loopWhileDifferent 4 (-4) = .ok 0 := rfl
    -- both operands are popped, so the loop starts again as it did before
    let left : Frame Interval :=
      { frame with stack := [], flags := (BranchTest.refCompare false).emptyFlags }
    refine ⟨left, 0, ⟨made, decided, .start⟩, fun fuel explorer => ?_⟩
    let visited := explorer.update (·.visited 4 .ifAcmpne (World.stackDepth frame))
    refine ⟨visited.update .followed, ?_⟩
    rw [Explorer.explore_visit decoded rfl, empty.step made held decided rfl inside]
    rfl

/-- An element of null has no members and is found to differ from null, so a branch on that is taken
backward, and a loop with it never ends. -/
theorem different_from_null_forever :
    (∃ left : Frame Interval,
      Yields (World.evaluateBranch (.refCompare false))
        { Frame.initial Seeds.empty.factory with
          stack := [.reference .null, .reference .bottom] } () left ∧
        World.takenFeasible left = true) ∧
    ∀ (config : Config) (fuel : Nat),
      interpret loopWhileDifferent config fuel (Frame.initial Seeds.empty.factory) =
        .outOfFuel := by
  have empty : EmptyOperands (.refCompare false) [.reference .null, .reference .bottom] :=
    .refCompare rfl (.inl rfl)
  have made : (Frame.initial Seeds.empty.factory).factory = Seeds.empty.factory := rfl
  refine ⟨⟨_, empty.evaluateBranch made rfl, rfl⟩, fun config fuel => ?_⟩
  have start : Looping .empty (Frame.initial Seeds.empty.factory) 0 := ⟨made, rfl, .start⟩
  have ran := Explorer.outOfFuel_of_goes (fun _ _ => Looping.goes) fuel start (.new config)
  rw [Explorer.interpret_eq_report, ran]
  rfl

end MethodFlow

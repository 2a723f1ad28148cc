import MethodFlow.Proofs.Simulation

/-! What a branch says of its outcomes. A test of ints or of one reference finds an outcome possible
exactly if some members of its operands have it. A test of two references does so as well, except
that it takes an operand without members to differ from any other. -/
namespace MethodFlow

inductive Reference
  | null
  | object (identity : Nat)
  deriving DecidableEq

namespace Nullness

variable {m n : Nullness}

def Admits (nullness : Nullness) : Reference → Prop
  | .null => nullness.mayBeNull = true
  | .object _ => nullness.mayBeObject = true

theorem exists_null : (∃ x, n.Admits x ∧ x = .null) ↔ n.mayBeNull = true := by
  simp [Admits]

theorem exists_object : (∃ x, n.Admits x ∧ x ≠ .null) ↔ n.mayBeObject = true := by
  constructor
  · rintro ⟨x, admits, object⟩
    cases x with
    | null => exact absurd rfl object
    | object _ => exact admits
  · intro object
    exact ⟨.object 0, object, nofun⟩

theorem exists_common : (∃ x, m.Admits x ∧ n.Admits x) ↔
    (m.mayBeNull && n.mayBeNull || m.mayBeObject && n.mayBeObject) = true := by
  simp only [Bool.or_eq_true, Bool.and_eq_true]
  constructor
  · rintro ⟨x, left, right⟩
    cases x with
    | null => exact .inl ⟨left, right⟩
    | object _ => exact .inr ⟨left, right⟩
  · rintro (⟨left, right⟩ | ⟨left, right⟩)
    · exact ⟨.null, left, right⟩
    · exact ⟨.object 0, left, right⟩

theorem exists_admitted (inhabited : n ≠ .bottom) : ∃ x, n.Admits x := by
  cases n with
  | bottom => exact absurd rfl inhabited
  | null | maybeNull => exact ⟨.null, rfl⟩
  | nonNull => exact ⟨.object 0, rfl⟩

theorem exists_other (object : n.mayBeObject = true) (x : Reference) : ∃ y, n.Admits y ∧ x ≠ y := by
  cases x with
  | null => exact ⟨.object 0, object, nofun⟩
  | object identity =>
    refine ⟨.object (identity + 1), object, fun same => ?_⟩
    exact Nat.succ_ne_self identity (Reference.object.inj same).symm

theorem exists_different (left : m ≠ .bottom) (right : n ≠ .bottom) :
    (∃ x y, m.Admits x ∧ n.Admits y ∧ x ≠ y) ↔ ¬(m = .null ∧ n = .null) := by
  constructor
  · rintro ⟨x, y, inLeft, inRight, different⟩ ⟨rfl, rfl⟩
    cases x with
    | object _ => cases inLeft
    | null =>
      cases y with
      | object _ => cases inRight
      | null => exact different rfl
  · intro several
    by_cases object : n.mayBeObject = true
    · obtain ⟨x, inLeft⟩ := exists_admitted left
      obtain ⟨y, inRight, different⟩ := exists_other object x
      exact ⟨x, y, inLeft, inRight, different⟩
    · obtain ⟨y, inRight⟩ := exists_admitted right
      have object : m.mayBeObject = true := by
        cases m <;> cases n <;> simp_all [mayBeObject]
      obtain ⟨x, inLeft, different⟩ := exists_other object y
      exact ⟨x, y, inLeft, inRight, different.symm⟩

end Nullness

namespace Feasibility

theorem againstNull (isNull : Bool) (nullness : Nullness) :
    againstValue isNull (Interval.reference nullness) Interval.null =
      .ok (sameness isNull nullness.mayBeNull nullness.mayBeObject) := by
  cases nullness <;> rfl

theorem againstNull_outcomes (isNull outcome : Bool) (nullness : Nullness) :
    (sameness isNull nullness.mayBeNull nullness.mayBeObject).allows outcome = true ↔
      ∃ x, nullness.Admits x ∧ (x = .null ↔ outcome = isNull) := by
  rw [sameness_allows]
  split
  · rename_i same
    simp only [same, iff_true]
    exact Nullness.exists_null.symm
  · rename_i other
    simp only [other, iff_false]
    exact Nullness.exists_object.symm

theorem compareSame_references (equal : Bool) (m n : Nullness) :
    compareSame equal (Interval.reference m) (.reference n) =
      .ok (sameness equal (m.mayBeNull && n.mayBeNull || m.mayBeObject && n.mayBeObject)
        (!decide (m = .null ∧ n = .null))) := by
  cases m <;> cases n <;> rfl

theorem compareSame_outcomes (equal outcome : Bool) (m n : Nullness) :
    (sameness equal (m.mayBeNull && n.mayBeNull || m.mayBeObject && n.mayBeObject)
        (!decide (m = .null ∧ n = .null))).allows outcome = true ↔
      (∃ x y, m.Admits x ∧ n.Admits y ∧ (x = y ↔ outcome = equal)) ∨
        (outcome ≠ equal ∧ (m = .bottom ∨ n = .bottom)) := by
  rw [sameness_allows]
  split
  · rename_i same
    simp only [same, iff_true, ne_eq, not_true, false_and, or_false]
    rw [← Nullness.exists_common]
    constructor
    · rintro ⟨x, inLeft, inRight⟩
      exact ⟨x, x, inLeft, inRight, rfl⟩
    · rintro ⟨x, _, inLeft, inRight, rfl⟩
      exact ⟨x, inLeft, inRight⟩
  · rename_i other
    simp only [other, iff_false, ne_eq, not_false_eq_true, true_and, Bool.not_eq_true',
      decide_eq_false_iff_not]
    by_cases inhabited : m = .bottom ∨ n = .bottom
    · refine iff_of_true ?_ (.inr inhabited)
      rintro ⟨rfl, rfl⟩
      simp at inhabited
    · have both := not_or.mp inhabited
      rw [or_iff_left inhabited]
      exact (Nullness.exists_different both.1 both.2).symm

end Feasibility

namespace Frame

variable {frame : Frame Interval} {rest : OperandStack Interval} {test : BranchTest}
  {possible : Bool → Prop}

/-- The branch takes its operands from the stack and finds exactly the described outcomes
possible. -/
def Finds (frame : Frame Interval) (test : BranchTest) (rest : OperandStack Interval)
    (possible : Bool → Prop) : Prop :=
  ∃ left : Frame Interval, Yields (World.evaluateBranch test) frame () left ∧ left.stack = rest ∧
    (World.takenFeasible left = true ↔ possible true) ∧
    (World.passedFeasible left = true ↔ possible false)

theorem Finds.of_flags {flags : BranchFlags}
    (yields : Yields (evaluateBranch test) frame () { frame with stack := rest, flags := flags })
    (outcomes : ∀ outcome, flags.allows outcome = true ↔ possible outcome) :
    frame.Finds test rest possible :=
  ⟨_, yields, rfl, outcomes true, outcomes false⟩

/-- A branch on ints or on one reference finds an outcome possible exactly if some members of its
operands have it. A branch on two references also does, unless an operand has no members; then it
finds that they may differ. -/
theorem branch_outcomes (seeds : Seeds) (frame : Frame Interval) (rest : OperandStack Interval)
    (made : frame.factory = seeds.factory) :
    (∀ (kind : IntKind) (range : IntRange) (condition : Condition), kind.category = .one →
      frame.stack = .integral kind range :: rest →
      frame.Finds (.zero condition) rest fun outcome =>
        ∃ x, range.contains x = true ∧ condition.holds x 0 = outcome) ∧
    (∀ (k l : IntKind) (left right : IntRange) (condition : Condition),
      k.category = .one → l.category = .one →
      frame.stack = .integral l right :: .integral k left :: rest →
      frame.Finds (.intCompare condition) rest fun outcome =>
        ∃ x y, left.contains x = true ∧ right.contains y = true ∧
          condition.holds x y = outcome) ∧
    (∀ (nullness : Nullness) (isNull : Bool), frame.stack = .reference nullness :: rest →
      frame.Finds (.null isNull) rest fun outcome =>
        ∃ x, nullness.Admits x ∧ (x = .null ↔ outcome = isNull)) ∧
    (∀ (left right : Nullness) (equal : Bool),
      frame.stack = .reference right :: .reference left :: rest →
      frame.Finds (.refCompare equal) rest fun outcome =>
        (∃ x y, left.Admits x ∧ right.Admits y ∧ (x = y ↔ outcome = equal)) ∨
          (outcome ≠ equal ∧ (left = .bottom ∨ right = .bottom))) := by
  refine ⟨?_, ?_, ?_, ?_⟩
  · intro kind range condition category stack
    obtain ⟨flags, tested, outcomes⟩ := Feasibility.againstZero_outcomes category condition range
    refine .of_flags ((pop_yields stack).bind ((Yields.get _).bind
      ((compute_yields _ ?_).bind rfl))) outcomes
    rw [made]
    exact tested
  · intro k l left right condition leftCategory rightCategory stack
    obtain ⟨flags, tested, outcomes⟩ := Feasibility.betweenInts_outcomes
      (leftCategory.trans rightCategory.symm) condition left right
    exact .of_flags (pop_two_yields stack ((compute_yields _ tested).bind rfl)) outcomes
  · intro nullness isNull stack
    refine .of_flags ((pop_yields stack).bind ((Yields.get _).bind
      ((compute_yields _ ?_).bind rfl))) (Feasibility.againstNull_outcomes isNull · nullness)
    rw [made]
    exact Feasibility.againstNull isNull nullness
  · intro left right equal stack
    have tested := Feasibility.compareSame_references equal left right
    exact .of_flags (pop_two_yields stack ((compute_yields _ tested).bind rfl))
      (Feasibility.compareSame_outcomes equal · left right)

/-- Five is not below any number up to five, so a test for not being below is decided. -/
theorem branch_outcomes_decided :
    let operands : OperandStack Interval :=
      [.integral .byte (.between 0 5), .integral .int (.singleton 5)]
    let frame : Frame Interval := { initial Seeds.empty.factory with stack := operands }
    ∃ left : Frame Interval, Yields (World.evaluateBranch (.intCompare .ge)) frame () left ∧
      left.stack = [] ∧ World.takenFeasible left = true ∧ World.passedFeasible left = false := by
  intro operands frame
  obtain ⟨_, ints, _⟩ := branch_outcomes .empty frame [] rfl
  obtain ⟨left, yields, stack, taken, passed⟩ :=
    ints .int .byte (.singleton 5) (.between 0 5) .ge rfl rfl rfl
  refine ⟨left, yields, stack, taken.mpr ⟨5, 0, by decide⟩, ?_⟩
  rw [Bool.eq_false_iff, Ne, passed]
  rintro ⟨x, y, inLeft, inRight, below⟩
  rw [IntRange.contains_singleton] at inLeft
  rw [IntRange.contains_between] at inRight
  simp only [Condition.holds, decide_eq_false_iff_not] at below
  omega

end Frame

end MethodFlow

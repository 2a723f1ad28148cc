import MethodFlow.Proofs.Denotation
import MethodFlow.Proofs.DenotedValues

/-! Outcomes of tests. A test of ints finds an outcome possible exactly if some members of its
operands have it, and the candidates of a switch are exactly the members of its selector. -/
namespace MethodFlow

/-- The flags allow the outcome of a test, which is true if the branch is taken. -/
def BranchFlags.allows (flags : BranchFlags) (outcome : Bool) : Bool :=
  if outcome then flags.taken else flags.passed

namespace Feasibility

@[simp] theorem none_allows (outcome : Bool) : BranchFlags.none.allows outcome = false := by
  cases outcome <;> rfl

theorem sameness_allows (expected equal differ outcome : Bool) :
    (sameness expected equal differ).allows outcome =
      if outcome = expected then equal else differ := by
  cases expected <;> cases outcome <;> rfl

/-- An order test comes out one way for some members exactly if it does so at opposite ends. -/
theorem order_extremes (order : Order) (outcome : Bool) {a b c d : Int} (ab : a ≤ b) (cd : c ≤ d) :
    (∃ x y, (a ≤ x ∧ x ≤ b) ∧ (c ≤ y ∧ y ≤ d) ∧ (Condition.order order).holds x y = outcome) ↔
      (Condition.order order).holds a d = outcome ∨
        (Condition.order order).holds b c = outcome := by
  constructor
  · rintro ⟨x, y, inLeft, inRight, holds⟩
    cases order <;> cases outcome <;>
      simp only [Condition.holds, decide_eq_true_eq, decide_eq_false_iff_not] at holds ⊢ <;> omega
  · rintro (low | high)
    · exact ⟨a, d, ⟨Int.le_refl a, ab⟩, ⟨cd, Int.le_refl d⟩, low⟩
    · exact ⟨b, c, ⟨ab, Int.le_refl b⟩, ⟨Int.le_refl c, cd⟩, high⟩

theorem ordered_allows (order : Order) (outcome : Bool) {a b c d : Int} (ab : a ≤ b) (cd : c ≤ d) :
    (ordered order (a, b) (c, d)).allows outcome = true ↔
      ∃ x y, (a ≤ x ∧ x ≤ b) ∧ (c ≤ y ∧ y ≤ d) ∧
        (Condition.order order).holds x y = outcome := by
  rw [order_extremes order outcome ab cd]
  cases order <;> cases outcome <;> simp [ordered, BranchFlags.allows, Condition.holds] <;> omega

theorem same_holds (expected outcome : Bool) (x y : Int) :
    (Condition.same expected).holds x y = outcome ↔ ((x = y) ↔ outcome = expected) := by
  cases expected <;> cases outcome <;> simp [Condition.holds]

theorem meet_isEmpty {left right : IntRange} :
    (!(left.meet right).isEmpty) = true ↔
      ∃ x, left.contains x = true ∧ right.contains x = true := by
  rw [Bool.not_eq_true', Bool.eq_false_iff, Ne, IntRange.isEmpty_iff]
  simp only [← Bool.not_eq_true, IntRange.contains_meet, not_forall, not_not]

theorem between_isEmpty (low high : Int) :
    (IntRange.between low high).isEmpty = decide (high < low) := by
  unfold IntRange.between
  split <;> simp [IntRange.isEmpty] <;> omega

theorem without_zero_isEmpty {range : IntRange} :
    (!(range.without (.singleton 0)).isEmpty) = true ↔
      ∃ y, range.contains y = true ∧ y ≠ 0 := by
  cases range with
  | empty => simp [IntRange.without, IntRange.trim, IntRange.isEmpty]
  | span low high ordered =>
    have single : (∃ y, (low ≤ y ∧ y ≤ high) ∧ y ≠ 0) ↔ ¬(low = 0 ∧ high = 0) := by
      constructor
      · rintro ⟨y, member, different⟩
        omega
      · intro other
        by_cases atLow : low = 0
        · exact ⟨high, ⟨ordered, Int.le_refl high⟩, by omega⟩
        · exact ⟨low, ⟨Int.le_refl low, ordered⟩, atLow⟩
    have next : signedWord (0 + 1) = 1 := rfl
    have previous : signedWord (0 - 1) = -1 := rfl
    simp only [IntRange.contains_span, single, IntRange.without, IntRange.singleton, IntRange.trim,
      next, previous]
    split
    · rename_i apart
      simp only [Bool.or_eq_true, decide_eq_true_eq] at apart
      simp only [IntRange.isEmpty, Bool.not_false, true_iff]
      omega
    · rename_i near
      simp only [Bool.or_eq_true, decide_eq_true_eq] at near
      split
      · split
        · simp only [IntRange.isEmpty, Bool.not_true, Bool.false_eq_true, false_iff]
          omega
        · simp only [between_isEmpty, Bool.not_eq_true', decide_eq_false_iff_not]
          omega
      · split
        · simp only [between_isEmpty, Bool.not_eq_true', decide_eq_false_iff_not]
          omega
        · simp only [IntRange.isEmpty, Bool.not_false, true_iff]
          omega

theorem againstValue_integral {kind : IntKind} (category : kind.category = .one) (expected : Bool)
    (range : IntRange) (x : Int) :
    againstValue expected (Interval.integral kind range) (Interval.integral .int (.singleton x)) =
      .ok (sameness expected (!(range.meet (.singleton x)).isEmpty)
        (!(range.without (.singleton x)).isEmpty)) := by
  have paired := fun operation =>
    Interval.pair_integral (l := .int) category operation range (.singleton x)
  simp only [againstValue, AbstractValue.intersection, Interval.intersection, paired,
    AbstractValue.minus, Interval.minus, AbstractValue.isBottom, Interval.isBottom]
  rfl

theorem againstZero_outcomes {kind : IntKind} (category : kind.category = .one)
    (condition : Condition) (range : IntRange) :
    ∃ flags, againstZero (Interval.int 0) condition (.integral kind range) = .ok flags ∧
      ∀ outcome, flags.allows outcome = true ↔
        ∃ x, range.contains x = true ∧ condition.holds x 0 = outcome := by
  cases range with
  | empty => exact ⟨.none, rfl, by simp⟩
  | span low high ordered =>
    have zero : Interval.int 0 = .integral .int (.singleton 0) := rfl
    cases condition with
    | same expected =>
      refine ⟨_, againstValue_integral category expected _ 0, ?_⟩
      intro outcome
      rw [sameness_allows]
      split
      · rename_i same
        simp only [same, meet_isEmpty, same_holds, iff_true, IntRange.contains_singleton]
      · rename_i other
        simp only [other, without_zero_isEmpty, same_holds, iff_false, ne_eq]
    | order order =>
      refine ⟨Feasibility.ordered order (low, high) (0, 0), ?_, ?_⟩
      · simp only [againstZero, zero, againstValue_integral category]
        rfl
      · intro outcome
        rw [ordered_allows order outcome ordered (Int.le_refl 0)]
        constructor
        · rintro ⟨x, y, inside, atZero, holds⟩
          obtain rfl : y = 0 := by omega
          exact ⟨x, IntRange.contains_span.mpr inside, holds⟩
        · rintro ⟨x, inside, holds⟩
          exact ⟨x, 0, IntRange.contains_span.mp inside, ⟨Int.le_refl 0, Int.le_refl 0⟩, holds⟩

theorem int_beq (x y : Int) : (ConcreteValue.int x == ConcreteValue.int y) = decide (x = y) := by
  rw [Bool.eq_iff_iff, ConcreteValue.int_beq_iff, ConcreteValue.int.injEq, decide_eq_true_eq,
    eq_comm]

theorem compareSame_integral {k l : IntKind} (category : k.category = l.category) (expected : Bool)
    {a b c d : Int} (ab : a ≤ b) (cd : c ≤ d) :
    compareSame expected (Interval.integral k (.span a b ab)) (.integral l (.span c d cd)) =
      .ok (sameness expected (!((IntRange.span a b ab).meet (.span c d cd)).isEmpty)
        (!decide (a = b ∧ c = d ∧ a = c))) := by
  have paired := Interval.pair_integral category "intersection" (.span a b ab) (.span c d cd)
  have leftSingle : (AbstractValue.concretize (Interval.integral k (.span a b ab))).single? =
      if a = b then some (ConcreteValue.int a) else none := rfl
  have rightSingle : (AbstractValue.concretize (Interval.integral l (.span c d cd))).single? =
      if c = d then some (ConcreteValue.int c) else none := rfl
  have common : AbstractValue.intersection (Interval.integral k (.span a b ab))
      (.integral l (.span c d cd)) =
      .ok (.integral (if k = l then k else .int) ((IntRange.span a b ab).meet (.span c d cd))) := by
    simp only [AbstractValue.intersection, Interval.intersection, paired]
    rfl
  simp only [compareSame, common, leftSingle, rightSingle]
  refine congrArg (fun differ => Except.ok (sameness expected _ differ)) ?_
  by_cases left : a = b
  · by_cases right : c = d
    · simp [left, right, int_beq]
    · simp [left, right]
  · simp [left]

/-- A test of two ints may come out one way exactly if it does so for some members. -/
theorem betweenInts_outcomes {k l : IntKind} (category : k.category = l.category)
    (condition : Condition) (left right : IntRange) :
    ∃ flags, betweenInts condition (Interval.integral k left) (.integral l right) = .ok flags ∧
      ∀ outcome, flags.allows outcome = true ↔
        ∃ x y, left.contains x = true ∧ right.contains y = true ∧
          condition.holds x y = outcome := by
  cases left with
  | empty => exact ⟨.none, rfl, by simp⟩
  | span a b ab =>
    cases right with
    | empty => exact ⟨.none, rfl, by simp⟩
    | span c d cd =>
      cases condition with
      | same expected =>
        refine ⟨_, compareSame_integral category expected ab cd, ?_⟩
        intro outcome
        rw [sameness_allows]
        split
        · rename_i same
          rw [meet_isEmpty]
          constructor
          · rintro ⟨x, inLeft, inRight⟩
            exact ⟨x, x, inLeft, inRight, (same_holds ..).mpr (by simp [same])⟩
          · rintro ⟨x, y, inLeft, inRight, holds⟩
            obtain rfl : x = y := ((same_holds ..).mp holds).mpr same
            exact ⟨x, inLeft, inRight⟩
        · rename_i other
          simp only [same_holds, other, iff_false, IntRange.contains_span, Bool.not_eq_true',
            decide_eq_false_iff_not]
          constructor
          · intro several
            by_cases lower : a = d
            · exact ⟨b, c, ⟨ab, Int.le_refl b⟩, ⟨Int.le_refl c, cd⟩, by omega⟩
            · exact ⟨a, d, ⟨Int.le_refl a, ab⟩, ⟨cd, Int.le_refl d⟩, lower⟩
          · rintro ⟨x, y, inLeft, inRight, different⟩
            omega
      | order order =>
        refine ⟨Feasibility.ordered order (a, b) (c, d), rfl, ?_⟩
        intro outcome
        simp only [IntRange.contains_span]
        exact ordered_allows order outcome ab cd

end Feasibility

namespace Interval

variable {exact : Prop}

/-- The outcome a test has for denoted words is possible, and if nothing else is denoted the other
one is not. -/
theorem denotes_outcome {condition : Condition} {flags : BranchFlags} {left right : IntRange}
    {x y : Int} (inLeft : left.contains x = true) (inRight : right.contains y = true)
    (onlyLeft : exact → left = .singleton x) (onlyRight : exact → right = .singleton y)
    (outcomes : ∀ outcome, flags.allows outcome = true ↔
      ∃ x y, left.contains x = true ∧ right.contains y = true ∧ condition.holds x y = outcome) :
    flags.allows (condition.holds x y) = true ∧
      (exact → flags.allows (!condition.holds x y) = false) := by
  refine ⟨(outcomes _).mpr ⟨x, y, inLeft, inRight, rfl⟩, ?_⟩
  intro holds
  rw [Bool.eq_false_iff, Ne, outcomes]
  rintro ⟨p, q, memberLeft, memberRight, opposite⟩
  rw [onlyLeft holds, IntRange.contains_singleton] at memberLeft
  rw [onlyRight holds, IntRange.contains_singleton] at memberRight
  rw [memberLeft, memberRight] at opposite
  exact Bool.not_ne_self _ opposite.symm

theorem denotes_againstZero {word : Word} {a : Interval} (condition : Condition)
    (inside : Denotes exact word a) (isInt : word.width = .int) :
    ∃ flags, Feasibility.againstZero (int 0) condition a = .ok flags ∧
      flags.allows (condition.holds word.value 0) = true ∧
      (exact → flags.allows (!condition.holds word.value 0) = false) := by
  obtain ⟨category, member, only⟩ := inside
  rename_i kind range
  rw [isInt] at category
  obtain ⟨flags, made, outcomes⟩ := Feasibility.againstZero_outcomes category condition range
  have atZero : (IntRange.singleton 0).contains 0 = true := IntRange.contains_singleton.mpr rfl
  refine ⟨flags, made, denotes_outcome member atZero only (fun _ => rfl) ?_⟩
  intro outcome
  simp [outcomes]

theorem denotes_betweenInts {left right : Word} {a b : Interval} (condition : Condition)
    (inLeft : Denotes exact left a) (inRight : Denotes exact right b)
    (sameWidth : left.width = right.width) :
    ∃ flags, Feasibility.betweenInts condition a b = .ok flags ∧
      flags.allows (condition.holds left.value right.value) = true ∧
      (exact → flags.allows (!condition.holds left.value right.value) = false) := by
  obtain ⟨readLeft, memberLeft, onlyLeft⟩ := inLeft
  obtain ⟨readRight, memberRight, onlyRight⟩ := inRight
  have category := readLeft.trans ((congrArg (·.kind.category) sameWidth).trans readRight.symm)
  obtain ⟨flags, made, outcomes⟩ := Feasibility.betweenInts_outcomes category condition _ _
  exact ⟨flags, made, denotes_outcome memberLeft memberRight onlyLeft onlyRight outcomes⟩

theorem denotes_candidates {word : Word} {a : Interval} (inside : Denotes exact word a)
    (limit : Nat) (positive : 0 < limit) :
    (∀ listed, a.concretize.integers? limit = some listed → word.value ∈ listed) ∧
      (exact → a.concretize.integers? limit = some [word.value]) := by
  obtain ⟨category, member, only⟩ := inside
  obtain ⟨low, high, ordered, rfl, above, below⟩ := IntRange.span_of_contains member
  simp only [concretize, Concretization.integers?]
  constructor
  · intro listed made
    split at made
    · cases made
      rw [Concretization.mem_ascendingFrom]
      omega
    · cases made
  · intro holds
    have single := only holds
    rw [IntRange.singleton, IntRange.span.injEq] at single
    obtain ⟨rfl, rfl⟩ := single
    have count : (word.value - word.value + 1).toNat = 1 := by omega
    rw [count]
    exact if_pos positive

end Interval

end MethodFlow

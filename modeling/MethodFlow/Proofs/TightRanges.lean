import MethodFlow.Proofs.RangeMonotone

/-! The four basic operators and negation lose nothing beyond what a range must lose. If none of the
exact results leaves the width, the computed range is the smallest one that holds them all;
otherwise it is the full range. -/
namespace MethodFlow

/-- The smallest range that holds the given integers. -/
structure IntRange.Tightest (range : IntRange) (values : Int → Prop) : Prop where
  holds (value : Int) (among : values value) : range.contains value = true
  least (other : IntRange) (holding : ∀ value, values value → other.contains value = true) :
    other.covers range = true

namespace IntRange.Tightest

variable {range : IntRange} {values : Int → Prop}

theorem of_bounds {low high : Int} (lowest : values low) (highest : values high)
    (bounds : ∀ value, values value → low ≤ value ∧ value ≤ high) :
    (between low high).Tightest values where
  holds value among := contains_between.mpr (bounds value among)
  least _ holding := covers_between (holding low lowest) (holding high highest)

theorem empty (none : ∀ value, ¬values value) : IntRange.empty.Tightest values where
  holds value among := absurd among (none value)
  least other _ := covers_empty other

theorem isEmpty_iff (tightest : range.Tightest values) :
    range.isEmpty = true ↔ ¬∃ value, values value := by
  rw [IntRange.isEmpty_iff]
  constructor
  · rintro none ⟨value, among⟩
    have member := tightest.holds value among
    rw [none value] at member
    cases member
  · intro none value
    have nothing := tightest.least .empty fun value among => absurd ⟨value, among⟩ none
    cases range with
    | empty => rfl
    | span => cases nothing

end IntRange.Tightest

/-- The best that a range can say of the exact results of an instruction. -/
structure Width.Best (width : Width) (results : Int → Prop) (range : IntRange) : Prop where
  tightest (inside : ∀ value, results value → width.kind.fullRange.contains value = true) :
    range.Tightest results
  widened (leaving : ∃ value, results value ∧ width.kind.fullRange.contains value = false) :
    range = width.kind.fullRange

namespace Width.Best

variable {width : Width} {results others : Int → Prop} {range other : IntRange}

theorem inside_or_leaving (width : Width) (results : Int → Prop) :
    (∀ value, results value → width.kind.fullRange.contains value = true) ∨
      ∃ value, results value ∧ width.kind.fullRange.contains value = false := by
  by_cases inside : ∀ value, results value → width.kind.fullRange.contains value = true
  · exact .inl inside
  · simp only [not_forall, Bool.not_eq_true] at inside
    obtain ⟨value, among, outside⟩ := inside
    exact .inr ⟨value, among, outside⟩

/-- Bounds that are results themselves make the best range, once they are clamped. -/
theorem of_bounds {low high : Int} (lowest : results low) (highest : results high)
    (bounds : ∀ value, results value → low ≤ value ∧ value ≤ high) :
    width.Best results (.clamped low high (.signed width.bits)) := by
  rw [IntRange.clamped_eq (bounds low lowest).2]
  split
  · rename_i fits
    refine ⟨fun _ => .of_bounds lowest highest bounds, ?_⟩
    rintro ⟨value, among, outside⟩
    have between := bounds value among
    have inside : width.Fits value := by
      unfold Width.Fits at *
      omega
    rw [Width.contains_fullRange.mpr inside] at outside
    cases outside
  · rename_i leaves
    refine ⟨fun inside => ?_, fun _ => width.fullRange_kind.symm⟩
    have low := Width.contains_fullRange.mp (inside low lowest)
    have high := Width.contains_fullRange.mp (inside high highest)
    exact absurd ⟨low, high⟩ leaves

theorem fullRange_covers (best : width.Best results range) :
    width.kind.fullRange.covers range = true := by
  rcases inside_or_leaving width results with inside | leaving
  · exact (best.tightest inside).least _ inside
  · rw [best.widened leaving]
    exact IntRange.covers_refl _

theorem isEmpty_iff (best : width.Best results range) :
    range.isEmpty = true ↔ ¬∃ value, results value := by
  rcases inside_or_leaving width results with inside | ⟨value, among, outside⟩
  · exact (best.tightest inside).isEmpty_iff
  · have nonempty : width.kind.fullRange.isEmpty = false := by cases width <;> rfl
    rw [best.widened ⟨value, among, outside⟩, nonempty]
    simpa using ⟨value, among⟩

theorem congr (best : width.Best results range) (same : ∀ value, results value ↔ others value) :
    width.Best others range :=
  (funext fun value => propext (same value) : results = others) ▸ best

theorem empty (none : ∀ value, ¬results value) : width.Best results .empty where
  tightest _ := .empty none
  widened := by
    rintro ⟨value, among, _⟩
    exact absurd among (none value)

theorem hull (first : width.Best results range) (second : width.Best others other) :
    width.Best (fun value => results value ∨ others value) (range.hull other) where
  tightest inside := by
    obtain ⟨holdsFirst, leastFirst⟩ := first.tightest fun value among => inside value (.inl among)
    obtain ⟨holdsSecond, leastSecond⟩ :=
      second.tightest fun value among => inside value (.inr among)
    refine ⟨?_, fun wider holding => IntRange.covers_hull.mpr ⟨?_, ?_⟩⟩
    · rintro value (among | among)
      · exact IntRange.contains_hull (.inl (holdsFirst value among))
      · exact IntRange.contains_hull (.inr (holdsSecond value among))
    · exact leastFirst wider fun value among => holding value (.inl among)
    · exact leastSecond wider fun value among => holding value (.inr among)
  widened := by
    have within := IntRange.covers_hull.mpr ⟨first.fullRange_covers, second.fullRange_covers⟩
    have whole := IntRange.covers_hull.mp (IntRange.covers_refl (range.hull other))
    rintro ⟨value, among | among, outside⟩
    · rw [first.widened ⟨value, among, outside⟩] at whole within ⊢
      exact IntRange.eq_of_covers whole.1 within
    · rw [second.widened ⟨value, among, outside⟩] at whole within ⊢
      exact IntRange.eq_of_covers whole.2 within

theorem foldl_hull {α : Type} {part : α → IntRange} {partly : α → Int → Prop} {parts : List α}
    (start : width.Best results range)
    (each : ∀ item ∈ parts, width.Best (partly item) (part item)) :
    width.Best (fun value => results value ∨ ∃ item ∈ parts, partly item value)
      (parts.foldl (fun joined item => joined.hull (part item)) range) := by
  induction parts generalizing results range with
  | nil => simpa using start
  | cons item rest ih =>
    rw [List.forall_mem_cons] at each
    have further := ih (start.hull each.1) each.2
    simpa [or_assoc] using further

theorem of_corners {p q r s : Int} (corners : ∀ corner ∈ [p, q, r, s], results corner)
    (bounds : ∀ value, results value →
      min (min p q) (min r s) ≤ value ∧ value ≤ max (max p q) (max r s)) :
    width.Best results (.corners p q r s (.signed width.bits)) := by
  simp only [List.forall_mem_cons] at corners
  refine of_bounds ?_ ?_ bounds
  · rcases min_choice (min p q) (min r s) with least | least <;> rw [least]
    · rcases min_choice p q with least | least <;> rw [least] <;> simp [corners]
    · rcases min_choice r s with least | least <;> rw [least] <;> simp [corners]
  · rcases max_choice (max p q) (max r s) with greatest | greatest <;> rw [greatest]
    · rcases max_choice p q with greatest | greatest <;> rw [greatest] <;> simp [corners]
    · rcases max_choice r s with greatest | greatest <;> rw [greatest] <;> simp [corners]

end Width.Best

/-- An exact result of an instruction on members of its operands, before it is cut to the width. -/
def Width.Computes (width : Width) (op : ArithmeticOp) (left right : IntRange) (value : Int) :
    Prop :=
  ∃ x y, left.contains x = true ∧ right.contains y = true ∧ width.result op x y = some value

def IntRange.Negates (range : IntRange) (value : Int) : Prop :=
  ∃ x, range.contains x = true ∧ -x = value

namespace IntRange

variable {width : Width} {a b c d : Int}

theorem nonzeroParts_within (cd : c ≤ d) {part : Int × Int} (among : part ∈ nonzeroParts c d) :
    c ≤ part.1 ∧ part.1 ≤ part.2 ∧ part.2 ≤ d ∧ (0 < part.1 ∨ part.2 < 0) := by
  simp only [nonzeroParts, List.mem_append, List.mem_ite_nil_right, List.mem_singleton] at among
  rcases among with ⟨negative, rfl⟩ | ⟨positive, rfl⟩ <;> simp only <;> omega

theorem best_part (ab : a ≤ b) {part : Int × Int} (ordered : part.1 ≤ part.2)
    (oneSided : 0 < part.1 ∨ part.2 < 0) :
    width.Best
      (fun value => ∃ x y, (a ≤ x ∧ x ≤ b) ∧ (part.1 ≤ y ∧ y ≤ part.2) ∧ x.tdiv y = value)
      (corners (a.tdiv part.1) (a.tdiv part.2) (b.tdiv part.1) (b.tdiv part.2)
        (signed width.bits)) := by
  refine .of_corners ?_ ?_
  · simp only [List.forall_mem_cons]
    exact ⟨⟨a, part.1, by omega, by omega, rfl⟩, ⟨a, part.2, by omega, by omega, rfl⟩,
      ⟨b, part.1, by omega, by omega, rfl⟩, ⟨b, part.2, by omega, by omega, rfl⟩, nofun⟩
  · rintro value ⟨x, y, left, right, rfl⟩
    exact quotient_between oneSided left right

theorem best_quotient (ab : a ≤ b) (cd : c ≤ d) :
    width.Best (width.Computes .div (span a b ab) (span c d cd))
      (quotient a b c d (signed width.bits)) := by
  have start : width.Best (fun _ => False) empty := .empty fun _ => not_false
  have each (part : Int × Int) (among : part ∈ nonzeroParts c d) :=
    @best_part width _ _ ab _ (nonzeroParts_within cd among).2.1
      (nonzeroParts_within cd among).2.2.2
  refine (start.foldl_hull each).congr fun value => ?_
  simp only [Width.Computes, contains_span, Width.result, Option.ite_none_left_eq_some,
    Option.some.injEq, false_or]
  -- A divisor other than zero lies in one of the parts, and no part has zero.
  constructor
  · rintro ⟨part, among, x, y, left, right, quotient⟩
    have within := nonzeroParts_within cd among
    exact ⟨x, y, left, by omega, by omega, quotient⟩
  · rintro ⟨x, y, left, right, nonzero, quotient⟩
    obtain ⟨part, among, above, below, _⟩ := nonzeroParts_part right.1 right.2 nonzero
    exact ⟨part, among, x, y, left, ⟨above, below⟩, quotient⟩

theorem best_product (ab : a ≤ b) (cd : c ≤ d) :
    width.Best (width.Computes .mul (span a b ab) (span c d cd))
      (corners (a * c) (a * d) (b * c) (b * d) (signed width.bits)) := by
  refine .of_corners ?_ ?_
  · simp only [List.forall_mem_cons, Width.Computes, contains_span]
    exact ⟨⟨a, c, by omega, by omega, rfl⟩, ⟨a, d, by omega, by omega, rfl⟩,
      ⟨b, c, by omega, by omega, rfl⟩, ⟨b, d, by omega, by omega, rfl⟩, nofun⟩
  · rintro value ⟨x, y, left, right, product⟩
    cases product
    exact product_between (contains_span.mp left) (contains_span.mp right)

theorem best_sum (ab : a ≤ b) (cd : c ≤ d) :
    width.Best (width.Computes .add (span a b ab) (span c d cd))
      (clamped (a + c) (b + d) (signed width.bits)) := by
  refine .of_bounds ⟨a, c, ?_, ?_, rfl⟩ ⟨b, d, ?_, ?_, rfl⟩ ?_
  · exact contains_span.mpr (by omega)
  · exact contains_span.mpr (by omega)
  · exact contains_span.mpr (by omega)
  · exact contains_span.mpr (by omega)
  · rintro value ⟨x, y, left, right, sum⟩
    cases sum
    rw [contains_span] at left right
    omega

theorem best_difference (ab : a ≤ b) (cd : c ≤ d) :
    width.Best (width.Computes .sub (span a b ab) (span c d cd))
      (clamped (a - d) (b - c) (signed width.bits)) := by
  refine .of_bounds ⟨a, d, ?_, ?_, rfl⟩ ⟨b, c, ?_, ?_, rfl⟩ ?_
  · exact contains_span.mpr (by omega)
  · exact contains_span.mpr (by omega)
  · exact contains_span.mpr (by omega)
  · exact contains_span.mpr (by omega)
  · rintro value ⟨x, y, left, right, difference⟩
    cases difference
    rw [contains_span] at left right
    omega

theorem best_arithmetic {op : ArithmeticOp} (basic : op ∈ [.add, .sub, .mul, .div])
    (left right : IntRange) :
    width.Best (width.Computes op left right) (left.arithmetic op width.bits right) := by
  cases left with
  | empty =>
    apply Width.Best.empty
    rintro value ⟨x, y, ⟨⟩, _⟩
  | span a b ab =>
    cases right with
    | empty =>
      apply Width.Best.empty
      rintro value ⟨x, y, _, ⟨⟩, _⟩
    | span c d cd =>
      simp only [List.mem_cons, List.not_mem_nil, or_false] at basic
      rcases basic with rfl | rfl | rfl | rfl
      · exact best_sum ab cd
      · exact best_difference ab cd
      · exact best_product ab cd
      · exact best_quotient ab cd

theorem best_negate (range : IntRange) :
    width.Best range.Negates (range.negate width.kind.fullRange) := by
  cases range with
  | empty =>
    apply Width.Best.empty
    rintro value ⟨x, ⟨⟩, _⟩
  | span a b ab =>
    rw [width.fullRange_kind]
    refine .of_bounds ⟨b, ?_, rfl⟩ ⟨a, ?_, rfl⟩ ?_
    · exact contains_span.mpr (by omega)
    · exact contains_span.mpr (by omega)
    · rintro value ⟨x, member, rfl⟩
      rw [contains_span] at member
      omega

end IntRange

namespace Interval

theorem negate_integral {width : Width} {k : IntKind} (range : IntRange)
    (read : k.category = width.kind.category) :
    negate (.integral width) (integral k range) =
      .ok (integral width.kind (range.negate width.kind.fullRange)) := by
  simp only [negate, integralOperand_ok _ _ read]
  rfl

/-- Each basic operator, and negation, accepts operands of its kinds and gives the best range for
its exact results, which is empty only if there are none. -/
theorem arithmetic_tight (width : Width) (k l : IntKind) (left right : IntRange)
    (readLeft : k.category = width.kind.category) (readRight : l.category = width.kind.category) :
    (∀ op ∈ [ArithmeticOp.add, .sub, .mul, .div], ∃ range,
      arithmetic op (.integral width) (integral k left) (integral l right) =
        .ok (integral width.kind range) ∧
      width.Best (width.Computes op left right) range ∧
      (range.isEmpty = true ↔ ¬∃ value, width.Computes op left right value)) ∧
    ∃ range,
      negate (.integral width) (integral k left) = .ok (integral width.kind range) ∧
      width.Best left.Negates range ∧
      (range.isEmpty = true ↔ ¬∃ value, left.Negates value) := by
  constructor
  · intro op basic
    have plain : width.rightKind op = width.kind := by
      simp only [List.mem_cons, List.not_mem_nil, or_false] at basic
      rcases basic with rfl | rfl | rfl | rfl <;> rfl
    have best : width.Best (width.Computes op left right) _ :=
      IntRange.best_arithmetic basic left right
    exact ⟨_, arithmetic_integral left right readLeft (plain ▸ readRight), best, best.isEmpty_iff⟩
  · have best : width.Best left.Negates _ := IntRange.best_negate left
    exact ⟨_, negate_integral left readLeft, best, best.isEmpty_iff⟩

/-- Divisors on both sides of zero give quotients between those by -1 and by 1, and the negation of
the least int is widened. -/
theorem arithmetic_tight_mixed :
    arithmetic .div .int (integral .short (.between (-7) 9)) (integral .byte (.between (-2) 3)) =
        .ok (integral .int (.between (-9) 9)) ∧
      (IntRange.between (-9) 9).Tightest
        (Width.int.Computes .div (.between (-7) 9) (.between (-2) 3)) ∧
      negate .int (integral .int (.between (-2147483648) 5)) =
        .ok (integral .int IntKind.int.fullRange) := by
  obtain ⟨range, made, best, _⟩ := (arithmetic_tight .int .short .byte (.between (-7) 9)
    (.between (-2) 3) rfl rfl).1 .div (by decide)
  obtain ⟨negated, turned, widened, _⟩ := (arithmetic_tight .int .int .int
    (.between (-2147483648) 5) .empty rfl rfl).2
  have quotients : arithmetic .div .int (integral .short (.between (-7) 9))
      (integral .byte (.between (-2) 3)) = .ok (integral .int (.between (-9) 9)) := rfl
  have same := made.symm.trans quotients
  cases same
  refine ⟨quotients, ?_, ?_⟩
  · rcases Width.Best.inside_or_leaving .int _ with inside | leaving
    · exact best.tightest inside
    · exact absurd (best.widened leaving) (by decide)
  · have leaving : (IntRange.between (-2147483648) 5).Negates 2147483648 :=
      ⟨-2147483648, by decide, rfl⟩
    rw [turned, widened.widened ⟨_, leaving, by decide⟩]
    rfl

end Interval

end MethodFlow

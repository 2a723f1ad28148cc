import MethodFlow.Proofs.ExtendedCorners
import MethodFlow.Proofs.RangeOrder

/-! Products and quotients of floating-point ranges. A number of a format stands for an extended
real, and an operation rounds the exact result in a way that keeps the order. So a range of corners
keeps every product unless one operand is only zero and the other everything, and every quotient
unless everything is divided by one infinity. -/
namespace MethodFlow

open FloatFormat

/-- The numbers of a format are extended reals, and NaN is none. An operation gives NaN if there is
no exact result, and otherwise rounds it in a way that keeps the order. Division by zero has no
exact result, but gives a number unless zero is divided. -/
class RoundedFormat (α : Type) [FloatFormat α] where
  value : α → Option EReal
  round : EReal → EReal
  round_mono : Monotone round
  le_iff {x y : α} : le x y = true ↔ ∃ p q, value x = some p ∧ value y = some q ∧ p ≤ q
  value_zero : value (zero : α) = some 0
  value_infinity : value (infinity : α) = some ⊤
  value_negInfinity : value (negInfinity : α) = some ⊥
  value_mul {x y : α} {p q : EReal} : value x = some p → value y = some q → ProductDefined p q →
    value (mul x y) = some (round (p * q))
  mul_nan {x y : α} :
    (∀ p q, value x = some p → value y = some q → ¬ProductDefined p q) → value (mul x y) = none
  value_div {x y : α} {p q : EReal} : value x = some p → value y = some q → q ≠ 0 →
    QuotientDefined p q → value (div x y) = some (round (p / q))
  div_nan {x y : α} :
    (∀ p q, value x = some p → value y = some q → q ≠ 0 ∧ ¬QuotientDefined p q) →
      value (div x y) = none
  div_zero {x y : α} {p : EReal} : value x = some p → value y = some 0 →
    (value (div x y) = none ↔ p = 0)

namespace RoundedFormat

variable {α : Type} [FloatFormat α] [RoundedFormat α] {x y z : α} {p q : EReal}

theorem le_of_value (first : value x = some p) (second : value y = some q) :
    le x y = true ↔ p ≤ q := by
  rw [le_iff]
  constructor
  · rintro ⟨p', q', first', second', below⟩
    cases first.symm.trans first'
    cases second.symm.trans second'
    exact below
  · exact fun below => ⟨p, q, first, second, below⟩

theorem mul_mono {z w : α} {r s : EReal} (valueX : value x = some p) (valueY : value y = some q)
    (valueZ : value z = some r) (valueW : value w = some s) (first : ProductDefined p q)
    (second : ProductDefined r s) (below : p * q ≤ r * s) : le (mul x y) (mul z w) = true :=
  (le_of_value (value_mul valueX valueY first) (value_mul valueZ valueW second)).mpr
    (round_mono below)

theorem div_mono {z w : α} {r s : EReal} (valueX : value x = some p) (valueY : value y = some q)
    (valueZ : value z = some r) (valueW : value w = some s) (nonzero : q ≠ 0) (nonzero' : s ≠ 0)
    (first : QuotientDefined p q) (second : QuotientDefined r s) (below : p / q ≤ r / s) :
    le (div x y) (div z w) = true :=
  (le_of_value (value_div valueX valueY nonzero first)
    (value_div valueZ valueW nonzero' second)).mpr (round_mono below)

theorem le_self_iff : le x x = true ↔ ∃ p, value x = some p := by
  rw [le_iff]
  constructor
  · rintro ⟨p, _, number, _, _⟩
    exact ⟨p, number⟩
  · rintro ⟨p, number⟩
    exact ⟨p, p, number, number, le_rfl⟩

theorem isNaN_iff : isNaN x = true ↔ value x = none := by
  rw [isNaN, Bool.not_eq_true', ← Bool.not_eq_true, le_self_iff]
  cases value x <;> simp

theorem same_iff (first : value x = some p) (second : value y = some q) :
    same x y = true ↔ p = q := by
  rw [same, Bool.and_eq_true, le_of_value first second, le_of_value second first, le_antisymm_iff]

theorem le_infinity (number : le x x = true) : le x infinity = true := by
  obtain ⟨p, number⟩ := le_self_iff.mp number
  exact (le_of_value number value_infinity).mpr le_top

theorem negInfinity_le (number : le x x = true) : le negInfinity x = true := by
  obtain ⟨p, number⟩ := le_self_iff.mp number
  exact (le_of_value value_negInfinity number).mpr bot_le

instance : OrderedFormat α where
  le_left {x y} below := by
    obtain ⟨p, _, number, _, _⟩ := le_iff.mp below
    exact le_self_iff.mpr ⟨p, number⟩
  le_right {x y} below := by
    obtain ⟨_, q, _, number, _⟩ := le_iff.mp below
    exact le_self_iff.mpr ⟨q, number⟩
  le_trans {x y z} below above := by
    obtain ⟨p, q, first, second, below⟩ := le_iff.mp below
    obtain ⟨q', r, second', third, above⟩ := le_iff.mp above
    cases second.symm.trans second'
    exact le_iff.mpr ⟨p, r, first, third, below.trans above⟩
  le_total {x y} first second := by
    obtain ⟨p, first⟩ := le_self_iff.mp first
    obtain ⟨q, second⟩ := le_self_iff.mp second
    rw [le_of_value first second, le_of_value second first]
    exact le_total p q

end RoundedFormat

namespace FloatFormat

open OrderedFormat

variable {α : Type} [FloatFormat α] [OrderedFormat α]

theorem foldl_lower_le {numbers : List α} {start : α} (number : le start start = true)
    (others : ∀ x ∈ numbers, le x x = true) :
    le (numbers.foldl lower start) start = true ∧
      ∀ x ∈ numbers, le (numbers.foldl lower start) x = true := by
  induction numbers generalizing start with
  | nil => exact ⟨number, by simp⟩
  | cons first rest ih =>
    have head := others first List.mem_cons_self
    have least := lower_le number head
    obtain ⟨below, rests⟩ := ih (le_left least.1) fun x member => others x (.tail _ member)
    refine ⟨le_trans below least.1, fun x member => ?_⟩
    rcases List.mem_cons.mp member with rfl | later
    · exact le_trans below least.2
    · exact rests x later

theorem le_foldl_upper {numbers : List α} {start : α} (number : le start start = true)
    (others : ∀ x ∈ numbers, le x x = true) :
    le start (numbers.foldl upper start) = true ∧
      ∀ x ∈ numbers, le x (numbers.foldl upper start) = true := by
  induction numbers generalizing start with
  | nil => exact ⟨number, by simp⟩
  | cons first rest ih =>
    have head := others first List.mem_cons_self
    have greatest := le_upper number head
    obtain ⟨above, rests⟩ := ih (le_right greatest.1) fun x member => others x (.tail _ member)
    refine ⟨le_trans greatest.1 above, fun x member => ?_⟩
    rcases List.mem_cons.mp member with rfl | later
    · exact le_trans greatest.2 above
    · exact rests x later

end FloatFormat

/-! ## Ranges and their members -/

namespace FloatRange

open OrderedFormat RoundedFormat

variable {α : Type} [FloatFormat α]

theorem full_covers [RoundedFormat α] (range : FloatRange α) : full.covers range = true := by
  have ordered : le (negInfinity : α) infinity = true :=
    (le_of_value value_negInfinity value_infinity).mpr bot_le
  have whole : (full : FloatRange α) = ⟨some ⟨_, _, ordered⟩, true⟩ := dif_pos ordered
  obtain ⟨span, nan⟩ := range
  rw [whole]
  cases span with
  | none => rfl
  | some span =>
    simp [covers, negInfinity_le (le_left span.ordered), le_infinity (le_right span.ordered)]

/-- A number is a member if it lies between the bounds, and NaN if the flag is set. -/
def Member (range : FloatRange α) (x : α) : Prop :=
  if isNaN x = true then range.nan = true else range.contains x = true

instance (range : FloatRange α) (x : α) : Decidable (range.Member x) :=
  inferInstanceAs (Decidable (if isNaN x = true then _ else _))

/-- The bounds are these two numbers, either zero being the same. -/
def Spans (range : FloatRange α) (low high : α) : Prop :=
  ∃ span, range.span = some span ∧ same span.low low = true ∧ same span.high high = true

def boxCorners (op : α → α → α) (s t : FloatSpan α) : List α :=
  [op s.low t.low, op s.low t.high, op s.high t.low, op s.high t.high]

theorem mem_boxCorners {op : α → α → α} {s t : FloatSpan α} {x y : α}
    (first : x = s.low ∨ x = s.high) (second : y = t.low ∨ y = t.high) :
    op x y ∈ boxCorners op s t := by
  rcases first with rfl | rfl <;> rcases second with rfl | rfl <;> simp [boxCorners]

theorem isEmpty_of_member {range : FloatRange α} {x : α} (member : range.Member x) :
    range.isEmpty = false := by
  obtain ⟨span, nan⟩ := range
  unfold Member at member
  split at member
  · simp [isEmpty, show nan = true from member]
  · cases span with
    | none => cases member
    | some => rfl

theorem nan_arithmetic {op : ArithmeticOp} {left right : FloatRange α}
    (first : left.isEmpty = false) (second : right.isEmpty = false)
    (nan : (left.nan || right.nan) = true) : (arithmetic op left right).nan = true := by
  unfold arithmetic
  rw [first, second, nan]
  cases left.bounds? with
  | none => rfl
  | some => cases right.bounds? with
    | none => rfl
    | some => cases op <;> simp [corners, remainder, nan_of] <;> split <;> simp [nan_of]

section Spans

variable {s t : FloatSpan α} {m n : Bool}

theorem arithmetic_mul : arithmetic .mul ⟨some s, m⟩ ⟨some t, n⟩ = corners (boxCorners mul s t)
    (m || n || (contains zero ⟨some s, m⟩ && holdsInfinity ⟨some t, n⟩) ||
      (contains zero ⟨some t, n⟩ && holdsInfinity ⟨some s, m⟩)) := rfl

theorem arithmetic_div_zero (holds : contains zero ⟨some t, n⟩ = true) :
    arithmetic .div ⟨some s, m⟩ ⟨some t, n⟩ = of (some (negInfinity, infinity))
      (m || n || (holdsInfinity ⟨some s, m⟩ && holdsInfinity ⟨some t, n⟩) ||
        contains zero ⟨some s, m⟩) := by
  simp [arithmetic, isEmpty, bounds?, holds]

theorem arithmetic_div_nonzero (holds : contains zero ⟨some t, n⟩ = false) :
    arithmetic .div ⟨some s, m⟩ ⟨some t, n⟩ = corners (boxCorners div s t)
      (m || n || (holdsInfinity ⟨some s, m⟩ && holdsInfinity ⟨some t, n⟩)) := by
  simp [arithmetic, isEmpty, bounds?, holds, boxCorners]

end Spans

variable [RoundedFormat α]

theorem contains_of {low high x : α} {nan : Bool} (below : le low x = true)
    (above : le x high = true) : (of (some (low, high)) nan).contains x = true := by
  rw [of, dif_pos (le_trans below above)]
  simp only [contains, below, above, Bool.and_self]

theorem contains_corners {values : List α} {nan : Bool} {x : α}
    (below : ∃ corner ∈ values, le corner x = true)
    (above : ∃ corner ∈ values, le x corner = true) :
    (corners values nan).contains x = true := by
  have number : ∀ y ∈ values.filter fun value => !isNaN value, le y y = true := by
    intro y member
    simpa [isNaN] using (List.mem_filter.mp member).2
  obtain ⟨low, lowMember, below⟩ := below
  obtain ⟨high, highMember, above⟩ := above
  have top : le (infinity : α) infinity = true := le_self_iff.mpr ⟨_, value_infinity⟩
  have bot : le (negInfinity : α) negInfinity = true := le_self_iff.mpr ⟨_, value_negInfinity⟩
  have lowest := (foldl_lower_le top number).2 low
    (List.mem_filter.mpr ⟨lowMember, by simp [isNaN, le_left below]⟩)
  have highest := (le_foldl_upper bot number).2 high
    (List.mem_filter.mpr ⟨highMember, by simp [isNaN, le_right above]⟩)
  exact contains_of (le_trans lowest below) (le_trans above highest)

theorem span_corners_nan {values : List α} {nan : Bool} (all : ∀ x ∈ values, value x = none) :
    (corners values nan).span = none := by
  have nothing : (values.filter fun value => !isNaN value) = [] := by
    simpa [List.filter_eq_nil_iff, isNaN_iff] using all
  have crossed : ¬le (infinity : α) negInfinity = true := by
    rw [le_of_value value_infinity value_negInfinity]
    simp
  rw [corners, nothing]
  exact congrArg span (dif_neg crossed)

/-! ## Bounds -/

structure Bounds (span : FloatSpan α) (a b : EReal) : Prop where
  low : value span.low = some a
  high : value span.high = some b

theorem exists_bounds (span : FloatSpan α) : ∃ a b, Bounds span a b := by
  obtain ⟨a, b, low, high, _⟩ := le_iff.mp span.ordered
  exact ⟨a, b, low, high⟩

section Bounds

variable {s t : FloatSpan α} {a b c d u v p q : EReal} {x y : α} {m n : Bool}

theorem Bounds.contains_iff (bounds : Bounds s a b) (number : value x = some p) :
    contains x ⟨some s, m⟩ = true ↔ a ≤ p ∧ p ≤ b := by
  simp only [contains, Bool.and_eq_true, le_of_value bounds.low number,
    le_of_value number bounds.high]

theorem Bounds.spans_iff (bounds : Bounds s a b) (low : value x = some p)
    (high : value y = some q) : Spans ⟨some s, m⟩ x y ↔ a = p ∧ b = q := by
  simp only [Spans, Option.some.injEq, exists_eq_left', same_iff bounds.low low,
    same_iff bounds.high high]

theorem Bounds.holdsInfinity_iff (bounds : Bounds s a b) :
    holdsInfinity ⟨some s, m⟩ = true ↔ b = ⊤ ∨ a = ⊥ := by
  rw [holdsInfinity, Bool.or_eq_true, bounds.contains_iff value_infinity,
    bounds.contains_iff value_negInfinity]
  simp

theorem Bounds.of_corner (bounds : Bounds s a b) (corner : u = a ∨ u = b) :
    ∃ e, (e = s.low ∨ e = s.high) ∧ value e = some u := by
  rcases corner with rfl | rfl
  · exact ⟨s.low, .inl rfl, bounds.low⟩
  · exact ⟨s.high, .inr rfl, bounds.high⟩

theorem contains_boxCorners {op : α → α → α} {z : α} (first : Bounds s a b) (second : Bounds t c d)
    (below : ∃ u v, (u = a ∨ u = b) ∧ (v = c ∨ v = d) ∧
      ∀ e f, value e = some u → value f = some v → le (op e f) z = true)
    (above : ∃ u v, (u = a ∨ u = b) ∧ (v = c ∨ v = d) ∧
      ∀ e f, value e = some u → value f = some v → le z (op e f) = true) :
    (corners (boxCorners op s t) m).contains z = true := by
  obtain ⟨u, v, cornerU, cornerV, below⟩ := below
  obtain ⟨u', v', cornerU', cornerV', above⟩ := above
  obtain ⟨e, boundE, valueE⟩ := first.of_corner cornerU
  obtain ⟨f, boundF, valueF⟩ := second.of_corner cornerV
  obtain ⟨e', boundE', valueE'⟩ := first.of_corner cornerU'
  obtain ⟨f', boundF', valueF'⟩ := second.of_corner cornerV'
  exact contains_corners ⟨op e f, mem_boxCorners boundE boundF, below e f valueE valueF⟩
    ⟨op e' f', mem_boxCorners boundE' boundF', above e' f' valueE' valueF'⟩

theorem member_of_nan {range : FloatRange α} (none : value x = none) :
    range.Member x ↔ range.nan = true := by
  rw [Member, if_pos (isNaN_iff.mpr none)]

theorem member_of_number {range : FloatRange α} (number : value x = some p) :
    range.Member x ↔ range.contains x = true := by
  rw [Member, if_neg (by simp [isNaN_iff, number])]

theorem member_of_le {range : FloatRange α} (number : le x x = true) :
    range.Member x ↔ range.contains x = true := by
  obtain ⟨p, number⟩ := le_self_iff.mp number
  exact member_of_number number

theorem exists_bounds_of_member {range : FloatRange α} (member : range.Member x)
    (number : value x = some p) :
    ∃ s m a b, range = ⟨some s, m⟩ ∧ Bounds s a b ∧ a ≤ p ∧ p ≤ b := by
  obtain ⟨span, m⟩ := range
  rw [member_of_number number] at member
  cases span with
  | none => cases member
  | some s =>
    obtain ⟨a, b, bounds⟩ := exists_bounds s
    exact ⟨s, m, a, b, rfl, bounds, (bounds.contains_iff number).mp member⟩

theorem not_contains_corners {op : α → α → α} {z : α} (first : Bounds s a b)
    (second : Bounds t c d) (undefined : ∀ e f u v, value e = some u → value f = some v →
      (u = a ∨ u = b) → (v = c ∨ v = d) → value (op e f) = none) :
    (corners (boxCorners op s t) m).contains z = false := by
  have all : ∀ x ∈ boxCorners op s t, value x = none := by
    simp only [boxCorners, List.mem_cons, List.not_mem_nil, or_false]
    rintro x (rfl | rfl | rfl | rfl)
    · exact undefined _ _ _ _ first.low second.low (.inl rfl) (.inl rfl)
    · exact undefined _ _ _ _ first.low second.high (.inl rfl) (.inr rfl)
    · exact undefined _ _ _ _ first.high second.low (.inr rfl) (.inl rfl)
    · exact undefined _ _ _ _ first.high second.high (.inr rfl) (.inr rfl)
  rw [contains, span_corners_nan all]

theorem member_of_nan_operand {op : ArithmeticOp} {left right : FloatRange α} {z : α}
    (first : left.Member x) (second : right.Member y) (operand : value x = none ∨ value y = none)
    (result : value z = none) : (arithmetic op left right).Member z := by
  rw [member_of_nan result]
  apply nan_arithmetic (isEmpty_of_member first) (isEmpty_of_member second)
  rcases operand with operand | operand
  · rw [(member_of_nan operand).mp first, Bool.true_or]
  · rw [(member_of_nan operand).mp second, Bool.or_true]

/-! ## Products -/

theorem nan_mul (first : Bounds s a b) (second : Bounds t c d) (ap : a ≤ p) (pb : p ≤ b)
    (cq : c ≤ q) (qd : q ≤ d) (undefined : ¬ProductDefined p q) :
    (arithmetic .mul ⟨some s, m⟩ ⟨some t, n⟩).nan = true := by
  have flags : (contains zero ⟨some s, m⟩ = true ∧ holdsInfinity ⟨some t, n⟩ = true) ∨
      contains zero ⟨some t, n⟩ = true ∧ holdsInfinity ⟨some s, m⟩ = true := by
    rw [first.contains_iff value_zero, second.contains_iff value_zero, first.holdsInfinity_iff,
      second.holdsInfinity_iff]
    by_cases zero : p = 0
    · subst zero
      refine .inl ⟨⟨ap, pb⟩, ?_⟩
      by_contra finite
      obtain ⟨top, bot⟩ := not_or.mp finite
      exact undefined (.zero_left (fun exact => bot (le_bot_iff.mp (exact ▸ cq)))
        fun exact => top (top_le_iff.mp (exact ▸ qd)))
    · have other : q = 0 := by
        by_contra nonzero
        exact undefined (.of_ne_zero zero nonzero)
      subst other
      refine .inr ⟨⟨cq, qd⟩, ?_⟩
      by_contra finite
      obtain ⟨top, bot⟩ := not_or.mp finite
      exact undefined (.mul_zero_finite (fun exact => bot (le_bot_iff.mp (exact ▸ ap)))
        fun exact => top (top_le_iff.mp (exact ▸ pb)))
  rw [arithmetic_mul, corners, nan_of]
  rcases flags with ⟨zero, infinite⟩ | ⟨zero, infinite⟩ <;> simp [zero, infinite]

/-- A product of two ranges keeps every result, unless one operand is only zero and the other
everything. -/
theorem member_mul {left right : FloatRange α}
    (zero_left : ¬(left.Spans zero zero ∧ right.Spans negInfinity infinity))
    (zero_right : ¬(left.Spans negInfinity infinity ∧ right.Spans zero zero))
    (first : left.Member x) (second : right.Member y) :
    (arithmetic .mul left right).Member (mul x y) := by
  cases valueX : value x with
  | none =>
    have result : value (mul x y) = none := mul_nan (by simp [valueX])
    exact member_of_nan_operand first second (.inl valueX) result
  | some p =>
    cases valueY : value y with
    | none =>
      have result : value (mul x y) = none := mul_nan (by simp [valueY])
      exact member_of_nan_operand first second (.inr valueY) result
    | some q =>
      obtain ⟨s, m, a, b, rfl, boundsX, ap, pb⟩ := exists_bounds_of_member first valueX
      obtain ⟨t, n, c, d, rfl, boundsY, cq, qd⟩ := exists_bounds_of_member second valueY
      rw [boundsX.spans_iff value_zero value_zero,
        boundsY.spans_iff value_negInfinity value_infinity, and_assoc] at zero_left
      rw [boundsX.spans_iff value_negInfinity value_infinity,
        boundsY.spans_iff value_zero value_zero, and_assoc] at zero_right
      by_cases defined : ProductDefined p q
      · rw [member_of_le (mul_mono valueX valueY valueX valueY defined defined le_rfl)]
        obtain ⟨u, v, cornerU, cornerV, meets, below⟩ :=
          defined.exists_corner_below ap pb cq qd zero_left zero_right
        obtain ⟨u', v', cornerU', cornerV', meets', above⟩ :=
          defined.exists_corner_above ap pb cq qd zero_left zero_right
        exact contains_boxCorners boundsX boundsY
          ⟨u, v, cornerU, cornerV, fun e f valueE valueF =>
            mul_mono valueE valueF valueX valueY meets defined below⟩
          ⟨u', v', cornerU', cornerV', fun e f valueE valueF =>
            mul_mono valueX valueY valueE valueF defined meets' above⟩
      · rw [member_of_nan (mul_nan (by simp [valueX, valueY, defined]))]
        exact nan_mul boundsX boundsY ap pb cq qd defined

/-! ## Quotients -/

theorem contains_everything {nan : Bool} (number : value x = some p) :
    (of (some (negInfinity, infinity)) nan).contains x = true :=
  contains_of ((le_of_value value_negInfinity number).mpr bot_le)
    ((le_of_value number value_infinity).mpr le_top)

theorem nan_div (first : Bounds s a b) (second : Bounds t c d) (ap : a ≤ p) (pb : p ≤ b)
    (cq : c ≤ q) (qd : q ≤ d) (undefined : ¬QuotientDefined p q) :
    (arithmetic .div ⟨some s, m⟩ ⟨some t, n⟩).nan = true := by
  have infinite : ∀ {a p b : EReal}, a ≤ p → p ≤ b → p = ⊥ ∨ p = ⊤ → b = ⊤ ∨ a = ⊥ := by
    rintro a p b ap pb (rfl | rfl)
    · exact .inr (le_bot_iff.mp ap)
    · exact .inl (top_le_iff.mp pb)
  obtain ⟨infiniteP, infiniteQ⟩ : (p = ⊥ ∨ p = ⊤) ∧ (q = ⊥ ∨ q = ⊤) := by
    unfold QuotientDefined at undefined
    tauto
  have dividend := (first.holdsInfinity_iff (m := m)).mpr (infinite ap pb infiniteP)
  have divisor := (second.holdsInfinity_iff (m := n)).mpr (infinite cq qd infiniteQ)
  cases zero : contains FloatFormat.zero ⟨some t, n⟩ with
  | true => rw [arithmetic_div_zero zero, nan_of, dividend, divisor]; simp
  | false => rw [arithmetic_div_nonzero zero, corners, nan_of, dividend, divisor]; simp

/-- A quotient of two ranges keeps every result, unless everything is divided by one infinity. -/
theorem member_div {left right : FloatRange α}
    (bounded : ¬(left.Spans negInfinity infinity ∧
      (right.Spans infinity infinity ∨ right.Spans negInfinity negInfinity)))
    (first : left.Member x) (second : right.Member y) :
    (arithmetic .div left right).Member (div x y) := by
  cases valueX : value x with
  | none =>
    have result : value (div x y) = none := div_nan (by simp [valueX])
    exact member_of_nan_operand first second (.inl valueX) result
  | some p =>
    cases valueY : value y with
    | none =>
      have result : value (div x y) = none := div_nan (by simp [valueY])
      exact member_of_nan_operand first second (.inr valueY) result
    | some q =>
      obtain ⟨s, m, a, b, rfl, boundsX, ap, pb⟩ := exists_bounds_of_member first valueX
      obtain ⟨t, n, c, d, rfl, boundsY, cq, qd⟩ := exists_bounds_of_member second valueY
      rw [boundsX.spans_iff value_negInfinity value_infinity,
        boundsY.spans_iff value_infinity value_infinity,
        boundsY.spans_iff value_negInfinity value_negInfinity, and_assoc] at bounded
      have holdsZero := boundsY.contains_iff (m := n) (value_zero (α := α))
      by_cases zero : q = 0
      · subst zero
        rw [arithmetic_div_zero (holdsZero.mpr ⟨cq, qd⟩)]
        cases result : value (div x y) with
        | none =>
          have dividend := (div_zero valueX valueY).mp result
          subst dividend
          rw [member_of_nan result, nan_of, (boundsX.contains_iff value_zero).mpr ⟨ap, pb⟩]
          simp
        | some r => exact (member_of_number result).mpr (contains_everything result)
      by_cases defined : QuotientDefined p q
      · have number := div_mono valueX valueY valueX valueY zero zero defined defined le_rfl
        rw [member_of_le number]
        cases holds : contains FloatFormat.zero ⟨some t, n⟩ with
        | true =>
          rw [arithmetic_div_zero holds]
          obtain ⟨r, result⟩ := le_self_iff.mp number
          exact contains_everything result
        | false =>
          have apart : 0 < c ∨ d < 0 := by
            by_contra around
            rw [not_or, not_lt, not_lt] at around
            simp [holdsZero.mpr around] at holds
          have nonzero : ∀ v, v = c ∨ v = d → v ≠ 0 := by
            rintro v (rfl | rfl) rfl
            · exact apart.elim (lt_irrefl _) (fun negative => (cq.trans qd).not_gt negative)
            · exact apart.elim (fun positive => (cq.trans qd).not_gt positive) (lt_irrefl _)
          obtain ⟨⟨u, v, cornerU, cornerV, meets, below⟩, u', v', cornerU', cornerV', meets',
            above⟩ := QuotientDefined.exists_corners ap pb cq qd apart defined bounded
          rw [arithmetic_div_nonzero holds]
          exact contains_boxCorners boundsX boundsY
            ⟨u, v, cornerU, cornerV, fun e f valueE valueF =>
              div_mono valueE valueF valueX valueY (nonzero v cornerV) zero meets defined below⟩
            ⟨u', v', cornerU', cornerV', fun e f valueE valueF =>
              div_mono valueX valueY valueE valueF zero (nonzero v' cornerV') defined meets' above⟩
      · rw [member_of_nan (div_nan (by simp [valueX, valueY, defined, zero]))]
        exact nan_div boundsX boundsY ap pb cq qd defined

/-! ## What is lost -/

theorem exists_bounds_of_spans {range : FloatRange α} (spans : range.Spans x y)
    (low : value x = some p) (high : value y = some q) :
    ∃ s m, range = ⟨some s, m⟩ ∧ Bounds s p q := by
  obtain ⟨span, m⟩ := range
  obtain ⟨s, rfl, _⟩ := id spans
  obtain ⟨a, b, bounds⟩ := exists_bounds s
  obtain ⟨rfl, rfl⟩ := (bounds.spans_iff low high).mp spans
  exact ⟨s, m, rfl, bounds⟩

theorem Bounds.member (bounds : Bounds s a b) (number : value x = some p) (ap : a ≤ p)
    (pb : p ≤ b) : Member ⟨some s, m⟩ x :=
  (member_of_number number).mpr ((bounds.contains_iff number).mpr ⟨ap, pb⟩)

theorem not_member_mul (first : Bounds s a b) (second : Bounds t c d)
    (undefined : ∀ u v, (u = a ∨ u = b) → (v = c ∨ v = d) → ¬ProductDefined u v) :
    ¬(arithmetic .mul ⟨some s, m⟩ ⟨some t, n⟩).Member (mul zero zero) := by
  have zeros : ProductDefined 0 0 := .zero_left EReal.zero_ne_bot EReal.zero_ne_top
  rw [member_of_le (mul_mono value_zero value_zero value_zero value_zero zeros zeros le_rfl)]
  rw [arithmetic_mul, not_contains_corners first second]
  · exact Bool.false_ne_true
  · intro e f u v valueE valueF cornerU cornerV
    apply mul_nan
    simp only [valueE, valueF, Option.some.injEq]
    rintro _ _ rfl rfl
    exact undefined u v cornerU cornerV

theorem not_member_div (first : Bounds s ⊥ ⊤) (second : Bounds t q q) (infinite : q = ⊥ ∨ q = ⊤)
    (divisor : value y = some q) :
    ¬(arithmetic .div ⟨some s, m⟩ ⟨some t, n⟩).Member (div zero y) := by
  have nonzero : q ≠ 0 := by rcases infinite with rfl | rfl <;> simp
  have defined : QuotientDefined 0 q := fun zero => by simp at zero
  rw [member_of_le (div_mono value_zero divisor value_zero divisor nonzero nonzero defined defined
    le_rfl)]
  have holds : contains zero ⟨some t, n⟩ = false := by
    rw [← Bool.not_eq_true, second.contains_iff value_zero]
    exact fun around => nonzero (le_antisymm around.1 around.2)
  rw [arithmetic_div_nonzero holds, not_contains_corners first second]
  · exact Bool.false_ne_true
  · intro e f u v valueE valueF cornerU cornerV
    obtain rfl : v = q := cornerV.elim id id
    apply div_nan
    simp only [valueE, valueF, Option.some.injEq]
    rintro _ _ rfl rfl
    exact ⟨nonzero, fun defined => not_or.mpr (defined cornerU) infinite⟩

end Bounds

/-- Products keep every result exactly if not one operand is only zero and the other everything, and
quotients exactly if not everything is divided by one infinity. -/
theorem mul_div_kept_iff (left right : FloatRange α) :
    ((∀ x y, left.Member x → right.Member y → (arithmetic .mul left right).Member (mul x y)) ↔
      ¬(left.Spans zero zero ∧ right.Spans negInfinity infinity) ∧
        ¬(left.Spans negInfinity infinity ∧ right.Spans zero zero)) ∧
    ((∀ x y, left.Member x → right.Member y → (arithmetic .div left right).Member (div x y)) ↔
      ¬(left.Spans negInfinity infinity ∧
        (right.Spans infinity infinity ∨ right.Spans negInfinity negInfinity))) := by
  refine ⟨⟨fun kept => ⟨?_, ?_⟩, fun bounded x y => member_mul bounded.1 bounded.2⟩,
    fun kept => ?_, fun bounded x y => member_div bounded⟩
  · rintro ⟨zeros, all⟩
    obtain ⟨s, m, rfl, first⟩ := exists_bounds_of_spans zeros value_zero value_zero
    obtain ⟨t, n, rfl, second⟩ := exists_bounds_of_spans all value_negInfinity value_infinity
    refine not_member_mul first second ?_ (kept zero zero (first.member value_zero le_rfl le_rfl)
      (second.member value_zero bot_le le_top))
    rintro u v (rfl | rfl) (rfl | rfl) <;> simp [ProductDefined]
  · rintro ⟨all, zeros⟩
    obtain ⟨s, m, rfl, first⟩ := exists_bounds_of_spans all value_negInfinity value_infinity
    obtain ⟨t, n, rfl, second⟩ := exists_bounds_of_spans zeros value_zero value_zero
    refine not_member_mul first second ?_ (kept zero zero
      (first.member value_zero bot_le le_top) (second.member value_zero le_rfl le_rfl))
    rintro u v (rfl | rfl) (rfl | rfl) <;> simp [ProductDefined]
  · rintro ⟨all, infinite⟩
    obtain ⟨s, m, rfl, first⟩ := exists_bounds_of_spans all value_negInfinity value_infinity
    have dividend : Member ⟨some s, m⟩ (zero : α) := first.member value_zero bot_le le_top
    rcases infinite with spans | spans
    · obtain ⟨t, n, rfl, second⟩ := exists_bounds_of_spans spans value_infinity value_infinity
      exact not_member_div first second (.inr rfl) value_infinity
        (kept zero infinity dividend (second.member value_infinity le_rfl le_rfl))
    · obtain ⟨t, n, rfl, second⟩ := exists_bounds_of_spans spans value_negInfinity
        value_negInfinity
      exact not_member_div first second (.inl rfl) value_negInfinity
        (kept zero negInfinity dividend (second.member value_negInfinity le_rfl le_rfl))

end FloatRange

end MethodFlow

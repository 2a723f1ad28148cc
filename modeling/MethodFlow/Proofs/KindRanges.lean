import MethodFlow.Proofs.Denotation
import MethodFlow.Proofs.IntervalOrder
import MethodFlow.Proofs.Lockstep
import MethodFlow.Proofs.RangeArithmetic

/-! Integral values stay in their kind: an operation on values inside their kinds gives a value
inside its own. -/
namespace MethodFlow

/-! ## Ranges of words -/

namespace IntRange

variable {full : IntRange} {width : Width}

theorem covers_between {low high : Int} (least : full.contains low = true)
    (greatest : full.contains high = true) : full.covers (between low high) = true := by
  obtain ⟨a, b, ab, rfl, _⟩ := span_of_contains least
  rw [covers_iff]
  intro x member
  rw [contains_between] at member
  rw [contains_span] at *
  omega

theorem covers_clamped (narrow : ∀ x, full.contains x = true → Width.long.Fits x) {low high : Int}
    (ordered : low ≤ high) : full.covers (clamped low high full) = true := by
  cases full with
  | empty => rfl
  | span least greatest bounds =>
    simp only [clamped]
    split
    · exact covers_refl _
    · rename_i inside
      simp only [Bool.or_eq_true, decide_eq_true_eq, not_or, Int.not_lt] at inside
      have lowIn : (span least greatest bounds).contains low = true :=
        contains_span.mpr (by omega)
      have highIn : (span least greatest bounds).contains high = true :=
        contains_span.mpr (by omega)
      have lowKept : signedWord low = low := Width.wrap_of_fits (narrow low lowIn)
      have highKept : signedWord high = high := Width.wrap_of_fits (narrow high highIn)
      rw [lowKept, highKept]
      exact covers_between lowIn highIn

theorem covers_clamped_word {low high : Int} (ordered : low ≤ high) :
    (signed width.bits).covers (clamped low high (signed width.bits)) = true :=
  covers_clamped (fun _ member => fits_long_of_fits (contains_signed.mp member)) ordered

theorem covers_corners (p q r s : Int) :
    (signed width.bits).covers (corners p q r s (signed width.bits)) = true :=
  covers_clamped_word (by omega)

theorem covers_quotient (a b c d : Int) :
    (signed width.bits).covers (quotient a b c d (signed width.bits)) = true := by
  apply (covers_foldl_hull ..).mpr
  exact ⟨rfl, fun part _ => covers_corners ..⟩

theorem covers_remainder (a b c d : Int) :
    (signed width.bits).covers (remainder a b c d (signed width.bits)) = true := by
  unfold remainder
  split
  · rfl
  · rename_i nonzero
    split
    · exact covers_clamped_word (Int.le_refl _)
    · apply covers_clamped_word
      -- some divisor is not zero, so the largest remainder is not negative
      have divisor : ¬(c = 0 ∧ d = 0) := by
        rintro ⟨rfl, rfl⟩
        exact nonzero rfl
      split <;> split <;> omega

theorem fits_zero : width.Fits 0 := by
  cases width <;> decide

theorem covers_words {low high : Int} (least : width.Fits low) (greatest : width.Fits high) :
    (signed width.bits).covers (between low high) = true :=
  covers_between (contains_signed.mpr least) (contains_signed.mpr greatest)

theorem covers_word {value : Int} (fits : width.Fits value) :
    (signed width.bits).covers (singleton value) = true := by
  rw [covers_iff]
  intro x member
  rw [contains_singleton] at member
  exact contains_signed.mpr (member ▸ fits)

theorem fits_of_covers {range : IntRange} (inside : (signed width.bits).covers range = true)
    {x : Int} (member : range.contains x = true) : width.Fits x :=
  contains_signed.mp ((covers_iff _ _).mp inside x member)

theorem fits_bounds {low high : Int} {ordered : low ≤ high}
    (inside : (signed width.bits).covers (span low high ordered) = true) :
    width.Fits low ∧ width.Fits high :=
  ⟨fits_of_covers inside (contains_span.mpr ⟨Int.le_refl low, ordered⟩),
    fits_of_covers inside (contains_span.mpr ⟨ordered, Int.le_refl high⟩)⟩

theorem fits_min {x y : Int} (left : width.Fits x) (right : width.Fits y) :
    width.Fits (min x y) := by
  unfold Width.Fits at *
  omega

theorem fits_max {x y : Int} (left : width.Fits x) (right : width.Fits y) :
    width.Fits (max x y) := by
  unfold Width.Fits at *
  omega

theorem fits_shiftWord (op : ArithmeticOp) (value distance : Int) :
    width.Fits (shiftWord op width.bits value distance) := by
  unfold shiftWord
  dsimp only
  split <;> exact ⟨BitVec.le_toInt _, BitVec.toInt_lt⟩

theorem covers_shift {left : IntRange} (op : ArithmeticOp) (right : IntRange)
    (inside : (signed width.bits).covers left = true) :
    (signed width.bits).covers (shift op width.bits left right) = true := by
  unfold shift
  split
  · exact covers_word (fits_shiftWord ..)
  · split
    · obtain ⟨least, greatest⟩ := fits_bounds inside
      exact covers_words (fits_min least fits_zero) (fits_max greatest fits_zero)
    · split
      · exact covers_words fits_zero (fits_bounds inside).2
      · exact covers_refl _
    · exact covers_refl _

theorem fits_bitwiseWord {op : ArithmeticOp} (among : op = .and ∨ op = .or ∨ op = .xor) {x y : Int}
    (fitsLeft : width.Fits x) (fitsRight : width.Fits y) : width.Fits (bitwiseWord op x y) := by
  obtain ⟨value, computed⟩ : ∃ value, width.result op x y = some value := by
    rcases among with rfl | rfl | rfl <;> exact ⟨_, rfl⟩
  rw [bitwiseWord_computed among fitsLeft fitsRight computed]
  exact fits_bitwise among computed

theorem fits_allOnes {value : Int} (fits : width.Fits value) : width.Fits (allOnes value) := by
  have least := (fits_zero : width.Fits 0).1
  unfold allOnes
  split
  · exact fits_zero
  · rename_i positive
    have below := fits.2
    have small : value.toNat < 2 ^ (width.bits - 1) := by
      have cast : ((2 ^ (width.bits - 1) : Nat) : Int) = 2 ^ (width.bits - 1) := by push_cast; rfl
      omega
    have power : 2 ^ (value.toNat.log2 + 1) ≤ 2 ^ (width.bits - 1) :=
      Nat.pow_le_pow_right (by decide) ((Nat.log2_lt (by omega)).mpr small)
    have bound : (2 : Int) ^ (value.toNat.log2 + 1) ≤ 2 ^ (width.bits - 1) := by
      exact_mod_cast power
    have nonzero : (0 : Int) < 2 ^ (value.toNat.log2 + 1) := by positivity
    have cast : ((Nat.pow 2 (value.toNat.log2 + 1) : Nat) : Int) = 2 ^ (value.toNat.log2 + 1) := by
      simp
    rw [cast]
    constructor <;> omega

theorem covers_bitwise {op : ArithmeticOp} (among : op = .and ∨ op = .or ∨ op = .xor)
    {left right : IntRange} (insideLeft : (signed width.bits).covers left = true)
    (insideRight : (signed width.bits).covers right = true) :
    (signed width.bits).covers (bitwise op width.bits left right) = true := by
  unfold bitwise
  split
  · rename_i x y singleLeft singleRight
    rw [single?_eq_some.mp singleLeft] at insideLeft
    rw [single?_eq_some.mp singleRight] at insideRight
    exact covers_word
      (fits_bitwiseWord among (fits_bounds insideLeft).1 (fits_bounds insideRight).1)
  · split
    · obtain ⟨_, fitsLeft⟩ := fits_bounds insideLeft
      obtain ⟨_, fitsRight⟩ := fits_bounds insideRight
      split
      · split
        · exact covers_words fits_zero (fits_min fitsLeft fitsRight)
        · split
          · exact covers_words fits_zero fitsRight
          · split
            · exact covers_words fits_zero fitsLeft
            · exact covers_refl _
      · split
        · exact covers_words fits_zero (fits_allOnes (fits_max fitsLeft fitsRight))
        · exact covers_refl _
    · rfl

theorem covers_arithmetic {op : ArithmeticOp} {left right : IntRange}
    (insideLeft : (signed width.bits).covers left = true)
    (insideRight : op.isShift = false → (signed width.bits).covers right = true) :
    (signed width.bits).covers (left.arithmetic op width.bits right) = true := by
  cases left with
  | empty => cases right <;> rfl
  | span a b ab =>
    cases right with
    | empty => rfl
    | span c d cd =>
      cases op with
      | add => exact covers_clamped_word (by omega)
      | sub => exact covers_clamped_word (by omega)
      | mul => exact covers_corners ..
      | div => exact covers_quotient a b c d
      | rem => exact covers_remainder a b c d
      | shl | shr | ushr => exact covers_shift _ _ insideLeft
      | and | or | xor => exact covers_bitwise (by simp) insideLeft (insideRight rfl)

theorem covers_widened {range extra : IntRange} (flag : Bool) (inside : full.covers range = true)
    (also : full.covers extra = true) :
    full.covers (if flag then range.hull extra else range) = true := by
  cases flag with
  | false => exact inside
  | true => exact covers_hull.mpr ⟨inside, also⟩

theorem covers_signs (orderings : Orderings) {extra : Option Int}
    (small : ∀ value, extra = some value → width.Fits value) :
    (signed width.bits).covers (orderings.signs extra) = true := by
  have fitsLess : width.Fits (-1) := by cases width <;> decide
  have fitsMore : width.Fits 1 := by cases width <;> decide
  have below : (signed width.bits).covers
      (if orderings.below then singleton (-1) else .empty) = true := by
    cases orderings.below with
    | false => rfl
    | true => exact covers_word fitsLess
  have above := covers_widened orderings.above
    (covers_widened orderings.same below (covers_word fits_zero)) (covers_word fitsMore)
  cases extra with
  | none => exact above
  | some value => exact covers_hull.mpr ⟨above, covers_word (small value rfl)⟩

end IntRange

/-! ## Values in their kinds -/

theorem IntKind.covers_fullRange {kind : IntKind} {width : Width}
    (category : kind.category = width.kind.category) :
    (IntRange.signed width.bits).covers kind.fullRange = true := by
  cases width <;> cases kind <;> first | rfl | cases category

namespace Interval

/-- An integral value lies in the range of its kind. -/
def InKind : Interval → Prop
  | integral kind range => kind.fullRange.covers range = true
  | _ => True

theorem inKind_word {width : Width} {range : IntRange} :
    (integral width.kind range).InKind ↔ (IntRange.signed width.bits).covers range = true := by
  rw [InKind, Width.fullRange_kind]

theorem inKind_singleton (kind : IntKind) {value : Int}
    (inside : kind.fullRange.contains value = true) :
    (integral kind (.singleton value)).InKind := by
  apply (IntRange.covers_iff _ _).mpr
  intro x member
  rw [IntRange.contains_singleton] at member
  exact member ▸ inside

theorem inKind_top (kind : Kind) : (top kind).InKind := by
  cases kind with
  | integral kind => exact IntRange.covers_refl _
  | floating | reference | returnAddress => trivial

theorem inKind_bottom (kind : Kind) : (bottom kind).InKind := by
  cases kind with
  | integral kind => cases kind <;> rfl
  | floating | reference | returnAddress => trivial

theorem inKind_rounded (kind : FloatKind) (range : FloatRange Float) :
    (rounded kind range).InKind := by
  cases kind <;> trivial

theorem integralOperand_eq_ok {operation : String} {expected : IntKind} {a : Interval}
    {range : IntRange} : a.integralOperand operation expected = .ok range ↔
      ∃ kind, a = integral kind range ∧ kind.category = expected.category := by
  constructor
  · intro read
    cases a with
    | integral kind held =>
      by_cases category : kind.category = expected.category
      · rw [integralOperand_ok _ _ category] at read
        cases read
        exact ⟨kind, rfl, category⟩
      · rw [integralOperand, if_neg category] at read
        cases read
    | floating | reference | returnAddress => cases read
  · rintro ⟨kind, rfl, category⟩
    exact integralOperand_ok _ _ category

theorem InKind.operand {a : Interval} (inKind : a.InKind) {operation : String} {width : Width}
    {range : IntRange} (read : a.integralOperand operation width.kind = .ok range) :
    (IntRange.signed width.bits).covers range = true := by
  obtain ⟨kind, rfl, category⟩ := integralOperand_eq_ok.mp read
  exact IntRange.covers_trans (IntKind.covers_fullRange category) inKind

theorem InKind.arithmetic {op : ArithmeticOp} {kind : NumericKind} {a b c : Interval}
    (left : a.InKind) (right : b.InKind) (made : Interval.arithmetic op kind a b = .ok c) :
    c.InKind := by
  cases kind with
  | integral width =>
    obtain ⟨l, readLeft, made⟩ := bind_eq_ok.mp made
    obtain ⟨r, readRight, made⟩ := bind_eq_ok.mp made
    cases made
    refine inKind_word.mpr (IntRange.covers_arithmetic (left.operand readLeft) fun shift => ?_)
    rw [shift] at readRight
    exact right.operand readRight
  | floating precision =>
    cases op with
    | add | sub | mul | div | rem =>
      obtain ⟨l, _, made⟩ := bind_eq_ok.mp made
      obtain ⟨r, _, made⟩ := bind_eq_ok.mp made
      cases made
      exact inKind_rounded ..
    | shl | shr | ushr | and | or | xor => cases made

theorem InKind.negate {kind : NumericKind} {a b : Interval}
    (made : Interval.negate kind a = .ok b) : b.InKind := by
  cases kind with
  | integral width =>
    obtain ⟨range, _, made⟩ := bind_eq_ok.mp made
    cases made
    rw [inKind_word, Width.fullRange_kind]
    cases range with
    | empty => rfl
    | span low high ordered => exact IntRange.covers_clamped_word (by omega)
  | floating precision =>
    obtain ⟨range, _, made⟩ := bind_eq_ok.mp made
    cases made
    exact inKind_rounded ..

theorem inKind_narrowed {kind : IntKind} {low high : Int} (ordered : low ≤ high) :
    (integral kind (.clamped low high kind.fullRange)).InKind :=
  IntRange.covers_clamped (fun _ => IntRange.narrow_fullRange) ordered

theorem covers_withZero {width : Width} {numbers : IntRange}
    (inside : (IntRange.signed width.bits).covers numbers = true) (zero : Bool) :
    (IntRange.signed width.bits).covers
      (if zero = true then numbers.hull (.singleton 0) else numbers) = true := by
  split
  · exact IntRange.covers_hull.mpr ⟨inside, IntRange.covers_word IntRange.fits_zero⟩
  · exact inside

theorem inKind_truncated (width : Width) (range : FloatRange Float) :
    (integral width.kind (truncated width range)).InKind := by
  rw [inKind_word]
  apply covers_withZero
  cases range.bounds? with
  | none => rfl
  | some bounds =>
    obtain ⟨low, high⟩ := bounds
    cases width with
    | int =>
      exact IntRange.covers_words ⟨Int32.le_toInt _, Int32.toInt_lt _⟩
        ⟨Int32.le_toInt _, Int32.toInt_lt _⟩
    | long =>
      exact IntRange.covers_words ⟨Int64.le_toInt _, Int64.toInt_lt _⟩
        ⟨Int64.le_toInt _, Int64.toInt_lt _⟩

theorem inKind_convertIntegers {conversion : Conversion} {width : Width} {low high : Int}
    {ordered : low ≤ high} (source : conversion.source = .integral width)
    (inside : (IntRange.signed width.bits).covers (.span low high ordered) = true) :
    (convertIntegers conversion low high).InKind := by
  obtain ⟨least, greatest⟩ := IntRange.fits_bounds inside
  cases conversion with
  | l2i | i2b | i2c | i2s => exact inKind_narrowed ordered
  | i2f | l2f | i2d | l2d =>
    simp only [convertIntegers]
    exact inKind_rounded ..
  | i2l =>
    exact IntRange.covers_words (IntRange.fits_long_of_fits least)
      (IntRange.fits_long_of_fits greatest)
  | f2i | f2l | f2d | d2i | d2l | d2f => cases source

theorem InKind.convert {conversion : Conversion} {a b : Interval} (inKind : a.InKind)
    (made : Interval.convert conversion a = .ok b) : b.InKind := by
  unfold Interval.convert at made
  cases source : conversion.source with
  | integral width =>
    rw [source] at made
    obtain ⟨range, read, made⟩ := bind_eq_ok.mp made
    have inside := inKind.operand read
    cases range with
    | empty => cases made; exact inKind_bottom _
    | span low high ordered => cases made; exact inKind_convertIntegers source inside
  | floating precision =>
    rw [source] at made
    obtain ⟨range, _, made⟩ := bind_eq_ok.mp made
    cases target : conversion.target with
    | integral width =>
      rw [target] at made
      cases made
      exact inKind_truncated width range
    | floating precision =>
      rw [target] at made
      cases made
      exact inKind_rounded ..

theorem fits_nanResult {comparison : Comparison} {value : Int}
    (result : comparison.nanResult = some value) : Width.int.Fits value := by
  cases comparison <;> cases result <;> decide

theorem InKind.compare {comparison : Comparison} {a b c : Interval}
    (made : Interval.compare comparison a b = .ok c) : c.InKind := by
  unfold Interval.compare at made
  cases operands : comparison.operandKind with
  | integral width =>
    rw [operands] at made
    obtain ⟨l, _, made⟩ := bind_eq_ok.mp made
    obtain ⟨r, _, made⟩ := bind_eq_ok.mp made
    cases made
    change (integral Width.int.kind _).InKind
    rw [inKind_word]
    cases l with
    | empty => cases r <;> rfl
    | span =>
      cases r with
      | empty => rfl
      | span =>
        have noExtra : ∀ value, none = some value → Width.int.Fits value := nofun
        exact IntRange.covers_signs _ noExtra
  | floating precision =>
    rw [operands] at made
    obtain ⟨l, _, made⟩ := bind_eq_ok.mp made
    obtain ⟨r, _, made⟩ := bind_eq_ok.mp made
    cases made
    change (integral Width.int.kind _).InKind
    rw [inKind_word]
    unfold FloatRange.compare
    split
    · rfl
    · apply IntRange.covers_signs
      intro value given
      split at given
      · exact fits_nanResult given
      · cases given

theorem InKind.loadFromArray {array index value : Interval} {element : Kind}
    (made : Interval.loadFromArray array index element = .ok value) : value.InKind := by
  obtain ⟨nullness, _, made⟩ := bind_eq_ok.mp made
  obtain ⟨positions, _, made⟩ := bind_eq_ok.mp made
  cases made
  have either : ∀ loads : Bool, (if loads then top element else bottom element).InKind := by
    intro loads
    cases loads with
    | true => exact inKind_top element
    | false => exact inKind_bottom element
  exact either _

theorem InKind.union {a b c : Interval} (left : a.InKind) (right : b.InKind)
    (made : a.union b = .ok c) : c.InKind := by
  obtain ⟨pair, paired, rfl⟩ := union_eq_ok.mp made
  cases paired with
  | @integral k l r s alike =>
    by_cases same : k = l
    · subst same
      simp only [Pair.join, InKind, if_true]
      exact IntRange.covers_hull.mpr ⟨left, right⟩
    · -- different kinds of one width are narrow, and both are ints
      have narrow : k.category = Width.int.kind.category := by
        cases k <;> cases l <;> first | exact absurd rfl same | rfl | cases alike
      have leftInt := IntRange.covers_trans (IntKind.covers_fullRange narrow) left
      have rightInt := IntRange.covers_trans (IntKind.covers_fullRange (alike ▸ narrow)) right
      simp only [Pair.join, InKind, if_neg same]
      exact IntRange.covers_hull.mpr ⟨leftInt, rightInt⟩
  | floating | references | addresses => trivial

end Interval

/-! ## Seeds -/

structure Seeds.InKind (seeds : Seeds) : Prop where
  locals {index : Nat} {seed : Interval} : seeds.locals.get? index = some seed → seed.InKind
  statics {key : String} {seed : Interval} : seeds.statics.get? key = some seed → seed.InKind

theorem Seeds.inKind_value {seed : Option Interval}
    (inKind : ∀ {value}, seed = some value → value.InKind) (kind : Kind) :
    (Seeds.value seed kind).InKind := by
  unfold Seeds.value
  split
  · split
    · exact inKind rfl
    · exact Interval.inKind_top kind
  · exact Interval.inKind_top kind

/-- Seeds in their kinds start a machine whose integral values never leave their kinds. -/
theorem Seeds.InKind.closed {seeds : Seeds} (inKind : seeds.InKind) :
    seeds.factory.Closed Interval.InKind where
  null := trivial
  int value := by
    have fits : Width.int.Fits value.toInt := ⟨Int32.le_toInt value, Int32.toInt_lt value⟩
    exact Interval.inKind_singleton Width.int.kind (Width.contains_fullRange.mpr fits)
  long value := by
    have fits : Width.long.Fits value.toInt := ⟨Int64.le_toInt value, Int64.toInt_lt value⟩
    exact Interval.inKind_singleton Width.long.kind (Width.contains_fullRange.mpr fits)
  float _ := trivial
  double _ := trivial
  short value := by
    have least := Int16.le_toInt value
    have greatest := Int16.toInt_lt value
    apply Interval.inKind_singleton .short
    simp [IntKind.fullRange, IntRange.signed]
    omega
  string _ := trivial
  returnAddress _ := trivial
  unconstrained := Interval.inKind_top
  localValue _ kind := Seeds.inKind_value inKind.locals kind
  staticValue _ kind := Seeds.inKind_value inKind.statics kind
  union := .union
  arithmetic := .arithmetic
  negate _ := .negate
  convert := .convert
  compare _ _ := .compare
  loadFromArray _ _ := .loadFromArray

end MethodFlow

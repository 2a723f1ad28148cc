import Mathlib.Tactic.Positivity
import MethodFlow.Interval.Arithmetic
import MethodFlow.Proofs.RangeMembers

/-! Integer instructions on ranges hold every word that the machine computes from members of the
operands. Products and quotients lie between those of the corners; remainders, shifts and bitwise
operators have bounds of their own. -/
namespace MethodFlow.IntRange

/-! ## Products and quotients -/

theorem mul_between {a b x : Int} (y : Int) (above : a ≤ x) (below : x ≤ b) :
    min (a * y) (b * y) ≤ x * y ∧ x * y ≤ max (a * y) (b * y) := by
  rcases Int.le_total 0 y with nonneg | nonpos
  · have lower := Int.mul_le_mul_of_nonneg_right above nonneg
    have upper := Int.mul_le_mul_of_nonneg_right below nonneg
    omega
  · have lower := Int.mul_le_mul_of_nonpos_right below nonpos
    have upper := Int.mul_le_mul_of_nonpos_right above nonpos
    omega

theorem tdiv_between {a b x : Int} (y : Int) (above : a ≤ x) (below : x ≤ b) :
    min (a.tdiv y) (b.tdiv y) ≤ x.tdiv y ∧ x.tdiv y ≤ max (a.tdiv y) (b.tdiv y) := by
  rcases Int.lt_trichotomy y 0 with negative | rfl | positive
  · have lower := Int.tdiv_le_tdiv (Int.neg_pos_of_neg negative) above
    have upper := Int.tdiv_le_tdiv (Int.neg_pos_of_neg negative) below
    simp only [Int.tdiv_neg] at lower upper
    omega
  · simp
  · have lower := Int.tdiv_le_tdiv positive above
    have upper := Int.tdiv_le_tdiv positive below
    omega

theorem tdiv_le_tdiv_left {a c y : Int} (nonneg : 0 ≤ a) (positive : 0 < c) (above : c ≤ y) :
    a.tdiv y ≤ a.tdiv c := by
  have quotient : 0 ≤ a.tdiv y := Int.tdiv_nonneg nonneg (by omega)
  have product : a.tdiv y * y ≤ a := by
    have remainder := Int.tmod_nonneg y nonneg
    have split := Int.tdiv_mul_add_tmod a y
    omega
  apply Int.le_tdiv_of_mul_le positive
  exact Int.le_trans (Int.mul_le_mul_of_nonneg_left above quotient) product

theorem tdiv_between_positive {a c y d : Int} (positive : 0 < c) (above : c ≤ y) (below : y ≤ d) :
    min (a.tdiv c) (a.tdiv d) ≤ a.tdiv y ∧ a.tdiv y ≤ max (a.tdiv c) (a.tdiv d) := by
  rcases Int.le_total 0 a with nonneg | nonpos
  · have upper := tdiv_le_tdiv_left nonneg positive above
    have lower := tdiv_le_tdiv_left nonneg (Int.lt_of_lt_of_le positive above) below
    omega
  · have upper := tdiv_le_tdiv_left (Int.neg_nonneg_of_nonpos nonpos) positive above
    have lower := tdiv_le_tdiv_left (Int.neg_nonneg_of_nonpos nonpos)
      (Int.lt_of_lt_of_le positive above) below
    simp only [Int.neg_tdiv] at lower upper
    omega

theorem tdiv_between_divisors {a c y d : Int} (oneSided : 0 < c ∨ d < 0) (above : c ≤ y)
    (below : y ≤ d) :
    min (a.tdiv c) (a.tdiv d) ≤ a.tdiv y ∧ a.tdiv y ≤ max (a.tdiv c) (a.tdiv d) := by
  rcases oneSided with positive | negative
  · exact tdiv_between_positive positive above below
  · have mirrored := tdiv_between_positive (a := a) (Int.neg_pos_of_neg negative)
      (Int.neg_le_neg below) (Int.neg_le_neg above)
    simp only [Int.tdiv_neg] at mirrored
    omega

theorem contains_corners (width : Width) {p q r s value : Int}
    (above : min (min p q) (min r s) ≤ value) (below : value ≤ max (max p q) (max r s)) :
    (corners p q r s (signed width.bits)).contains (width.wrap value) = true :=
  contains_clamped_wrap width above below

theorem product_between {a b c d x y : Int} (left : a ≤ x ∧ x ≤ b) (right : c ≤ y ∧ y ≤ d) :
    min (min (a * c) (a * d)) (min (b * c) (b * d)) ≤ x * y ∧
      x * y ≤ max (max (a * c) (a * d)) (max (b * c) (b * d)) := by
  have inLeft := mul_between y left.1 left.2
  have atLow := mul_between a right.1 right.2
  have atHigh := mul_between b right.1 right.2
  simp only [Int.mul_comm _ a, Int.mul_comm _ b] at atLow atHigh
  omega

theorem contains_product (width : Width) {a b c d x y : Int} (left : a ≤ x ∧ x ≤ b)
    (right : c ≤ y ∧ y ≤ d) :
    (corners (a * c) (a * d) (b * c) (b * d) (signed width.bits)).contains
      (width.wrap (x * y)) = true :=
  contains_corners width (product_between left right).1 (product_between left right).2

theorem nonzeroParts_part {c d y : Int} (above : c ≤ y) (below : y ≤ d) (nonzero : y ≠ 0) :
    ∃ part ∈ nonzeroParts c d, part.1 ≤ y ∧ y ≤ part.2 ∧ (0 < part.1 ∨ part.2 < 0) := by
  rcases Int.lt_or_gt_of_ne nonzero with negative | positive
  · have low : c ≤ -1 := by omega
    exact ⟨(c, min d (-1)), by simp [nonzeroParts, low], above, by omega, by omega⟩
  · have high : 1 ≤ d := by omega
    exact ⟨(max c 1, d), by simp [nonzeroParts, high], by omega, below, by omega⟩

theorem nonzeroParts_isEmpty {c d : Int} (ordered : c ≤ d) :
    (nonzeroParts c d).isEmpty = true ↔ c = 0 ∧ d = 0 := by
  by_cases negative : c ≤ -1
  · simp only [nonzeroParts, negative, if_true, List.cons_append, List.isEmpty_cons,
      Bool.false_eq_true, false_iff]
    omega
  · by_cases positive : 1 ≤ d
    · simp only [nonzeroParts, negative, positive, if_false, if_true, List.nil_append,
        List.isEmpty_cons, Bool.false_eq_true, false_iff]
      omega
    · simp only [nonzeroParts, negative, positive, if_false, List.append_nil, List.isEmpty_nil,
        true_iff]
      omega

theorem contains_foldl_hull {α : Type} (range : α → IntRange) (parts : List α) (start : IntRange)
    {x : Int} (member : start.contains x = true ∨ ∃ part ∈ parts, (range part).contains x = true) :
    (parts.foldl (fun joined part => joined.hull (range part)) start).contains x = true := by
  induction parts generalizing start with
  | nil =>
    rcases member with inStart | ⟨part, none, _⟩
    · exact inStart
    · cases none
  | cons part rest ih =>
    apply ih
    rcases member with inStart | ⟨chosen, among, inPart⟩
    · exact Or.inl (contains_hull (Or.inl inStart))
    · rcases List.mem_cons.mp among with rfl | later
      · exact Or.inl (contains_hull (Or.inr inPart))
      · exact Or.inr ⟨chosen, later, inPart⟩

theorem quotient_between {a b c d x y : Int} (oneSided : 0 < c ∨ d < 0) (left : a ≤ x ∧ x ≤ b)
    (right : c ≤ y ∧ y ≤ d) :
    min (min (a.tdiv c) (a.tdiv d)) (min (b.tdiv c) (b.tdiv d)) ≤ x.tdiv y ∧
      x.tdiv y ≤ max (max (a.tdiv c) (a.tdiv d)) (max (b.tdiv c) (b.tdiv d)) := by
  have inLeft := tdiv_between y left.1 left.2
  have atLow := tdiv_between_divisors (a := a) oneSided right.1 right.2
  have atHigh := tdiv_between_divisors (a := b) oneSided right.1 right.2
  omega

theorem contains_quotient (width : Width) {a b c d x y : Int} (left : a ≤ x ∧ x ≤ b)
    (right : c ≤ y ∧ y ≤ d) (nonzero : y ≠ 0) :
    (quotient a b c d (signed width.bits)).contains (width.wrap (x.tdiv y)) = true := by
  obtain ⟨part, among, above, below, oneSided⟩ := nonzeroParts_part right.1 right.2 nonzero
  have bounds := quotient_between oneSided left ⟨above, below⟩
  apply contains_foldl_hull
  exact Or.inr ⟨part, among, contains_corners width bounds.1 bounds.2⟩

theorem tmod_bounds {x y : Int} (nonzero : y ≠ 0) :
    (x.tmod y).natAbs < y.natAbs ∧ (x.tmod y).natAbs ≤ x.natAbs ∧
      (0 ≤ x → 0 ≤ x.tmod y) ∧ (x ≤ 0 → x.tmod y ≤ 0) := by
  have magnitude := Int.natAbs_tmod x y
  have smaller : x.natAbs % y.natAbs < y.natAbs := Nat.mod_lt _ (by omega)
  have least : x.natAbs % y.natAbs ≤ x.natAbs := Nat.mod_le _ _
  refine ⟨by omega, by omega, fun nonneg => Int.tmod_nonneg y nonneg, ?_⟩
  intro nonpos
  have mirrored := Int.tmod_nonneg y (Int.neg_nonneg_of_nonpos nonpos)
  rw [Int.neg_tmod] at mirrored
  omega

theorem contains_remainder (width : Width) {a b c d x y : Int} (left : a ≤ x ∧ x ≤ b)
    (right : c ≤ y ∧ y ≤ d) (nonzero : y ≠ 0) :
    (remainder a b c d (signed width.bits)).contains (width.wrap (x.tmod y)) = true := by
  obtain ⟨part, among, _⟩ := nonzeroParts_part right.1 right.2 nonzero
  have bounds := tmod_bounds (x := x) nonzero
  unfold remainder
  split
  · rename_i none
    rw [List.isEmpty_iff.mp none] at among
    cases among
  · split
    · rename_i single
      simp only [Bool.and_eq_true, decide_eq_true_eq] at single
      have sameLeft : a = x := by omega
      have sameRight : c = y := by omega
      rw [sameLeft, sameRight]
      exact contains_clamped_wrap width (Int.le_refl _) (Int.le_refl _)
    · apply contains_clamped_wrap width
      · split <;> omega
      · split <;> omega

/-! ## Shifts -/

theorem ediv_between (x : Int) {p : Int} (positive : 0 < p) :
    min x 0 ≤ x / p ∧ x / p ≤ max x 0 := by
  rcases Int.le_total 0 x with nonneg | nonpos
  · have lower := Int.ediv_nonneg nonneg (Int.le_of_lt positive)
    have upper := Int.ediv_le_self p nonneg
    omega
  · have product : x * p ≤ x * 1 := Int.mul_le_mul_of_nonpos_left nonpos (by omega)
    have lower := (Int.le_ediv_iff_mul_le positive).mpr (by omega : x * p ≤ x)
    have upper := Int.ediv_le_ediv positive nonpos
    simp only [Int.zero_ediv] at upper
    omega

theorem toInt_ofInt_of_fits {width : Width} {x : Int} (fits : width.Fits x) :
    (BitVec.ofInt width.bits x).toInt = x := by
  rw [BitVec.toInt_ofInt]
  exact Width.wrap_of_fits fits

theorem shiftWord_shl (width : Width) (x y : Int) :
    shiftWord .shl width.bits x y = width.wrap (x * 2 ^ (y % width.bits).toNat) := by
  simp only [shiftWord, BitVec.toInt_shiftLeft, BitVec.toNat_ofInt, Width.wrap]
  rw [Nat.shiftLeft_eq, Int.natCast_mul,
    Int.toNat_of_nonneg (Int.emod_nonneg _ (by cases width <;> decide)), Int.natCast_pow]
  exact Int.emod_mul_bmod _ _

theorem fits_shifted {width : Width} {x : Int} (fits : width.Fits x) (places : Nat) :
    width.Fits (x / 2 ^ places) := by
  have bounds := ediv_between x (p := 2 ^ places) (by positivity)
  have atZero : width.Fits 0 := by cases width <;> decide
  unfold Width.Fits at *
  omega

theorem shiftWord_shr {width : Width} {x : Int} (y : Int) (fits : width.Fits x) :
    shiftWord .shr width.bits x y = width.wrap (x / 2 ^ (y % width.bits).toNat) := by
  rw [Width.wrap_of_fits (fits_shifted fits _)]
  simp only [shiftWord, BitVec.toInt_sshiftRight, toInt_ofInt_of_fits fits,
    Int.shiftRight_eq_div_pow]
  push_cast
  rfl

theorem shiftWord_ushr (width : Width) (x y : Int) :
    shiftWord .ushr width.bits x y =
      width.wrap (x % 2 ^ width.bits / 2 ^ (y % width.bits).toNat) := by
  simp only [shiftWord, BitVec.toInt_eq_toNat_bmod, BitVec.toNat_ushiftRight, BitVec.toNat_ofInt,
    Width.wrap, Nat.shiftRight_eq_div_pow]
  rw [Int.natCast_ediv, Int.toNat_of_nonneg (Int.emod_nonneg _ (by cases width <;> decide))]
  push_cast
  rfl

theorem shiftWord_computed {width : Width} {op : ArithmeticOp} {x y value : Int}
    (isShift : op.isShift = true) (fits : width.Fits x)
    (computed : width.result op x y = some value) :
    shiftWord op width.bits x y = width.wrap value := by
  cases op with
  | shl => cases computed; exact shiftWord_shl width x y
  | shr => cases computed; exact shiftWord_shr y fits
  | ushr => cases computed; exact shiftWord_ushr width x y
  | _ => cases isShift

theorem contains_shift {width : Width} {op : ArithmeticOp} {left right : IntRange} {x y value : Int}
    (inLeft : left.contains x = true) (inRight : right.contains y = true)
    (fits : width.Fits x) (isShift : op.isShift = true)
    (computed : width.result op x y = some value) :
    (shift op width.bits left right).contains (width.wrap value) = true := by
  have inWidth := contains_signed.mpr (width.wrap_fits value)
  unfold shift
  split
  · rename_i p q singleLeft singleRight
    rw [single?_eq_some] at singleLeft singleRight
    rw [singleLeft, contains_singleton] at inLeft
    rw [singleRight, contains_singleton] at inRight
    rw [← inLeft, ← inRight, shiftWord_computed isShift fits computed, contains_singleton]
  · split
    · cases computed
      rw [Width.wrap_of_fits (fits_shifted fits _), contains_between]
      have bounds := ediv_between x (p := 2 ^ (y % width.bits).toNat) (by positivity)
      rw [contains_span] at inLeft
      omega
    · cases computed
      split
      · rename_i nonneg
        rw [contains_span] at inLeft
        have unsigned : x % 2 ^ width.bits = x := by
          apply Int.emod_eq_of_lt
          · omega
          · cases width with
            | int => rw [Width.fits_int] at fits; simp only [Width.bits]; omega
            | long => rw [Width.fits_long] at fits; simp only [Width.bits]; omega
        have bounds := ediv_between x (p := 2 ^ (y % width.bits).toNat) (by positivity)
        rw [unsigned, Width.wrap_of_fits (fits_shifted fits _), contains_between]
        omega
      · exact inWidth
    · exact inWidth

/-! ## Bitwise operators -/

theorem ofInt_word {width : Width} {x : Int} (fits : width.Fits x) :
    BitVec.ofInt 64 x = (BitVec.ofInt width.bits x).signExtend 64 := by
  apply BitVec.eq_of_toInt_eq
  rw [BitVec.toInt_signExtend_of_le (by cases width <;> decide), toInt_ofInt_of_fits fits]
  have long : Width.long.Fits x := fits_long_of_fits fits
  exact toInt_ofInt_of_fits long

theorem bitwiseWord_computed {width : Width} {op : ArithmeticOp} {x y value : Int}
    (bitwise : op = .and ∨ op = .or ∨ op = .xor) (fitsLeft : width.Fits x)
    (fitsRight : width.Fits y) (computed : width.result op x y = some value) :
    bitwiseWord op x y = value := by
  have narrow : width.bits ≤ 64 := by cases width <;> decide
  rcases bitwise with rfl | rfl | rfl
  · cases computed
    simp only [bitwiseWord, ofInt_word fitsLeft, ofInt_word fitsRight, ← BitVec.signExtend_and,
      BitVec.toInt_signExtend_of_le narrow]
  · cases computed
    simp only [bitwiseWord, ofInt_word fitsLeft, ofInt_word fitsRight, ← BitVec.signExtend_or,
      BitVec.toInt_signExtend_of_le narrow]
  · cases computed
    simp only [bitwiseWord, ofInt_word fitsLeft, ofInt_word fitsRight, ← BitVec.signExtend_xor,
      BitVec.toInt_signExtend_of_le narrow]

theorem msb_of_nonneg {bits : Nat} {word : BitVec bits} (nonneg : 0 ≤ word.toInt) :
    word.msb = false := by
  rw [Bool.eq_false_iff]
  intro negative
  have below := BitVec.toInt_neg_of_msb_true negative
  omega

theorem and_bounds {bits : Nat} (x : BitVec bits) {y : BitVec bits} (nonneg : 0 ≤ y.toInt) :
    0 ≤ (x &&& y).toInt ∧ (x &&& y).toInt ≤ y.toInt := by
  have sign := msb_of_nonneg nonneg
  have signAnd : (x &&& y).msb = false := by rw [BitVec.msb_and, sign, Bool.and_false]
  have smaller : x.toNat &&& y.toNat ≤ y.toNat := Nat.and_le_right
  rw [BitVec.toInt_eq_toNat_of_msb signAnd, BitVec.toInt_eq_toNat_of_msb sign, BitVec.toNat_and]
  omega

theorem allOnes_eq (value : Int) :
    ∃ k, allOnes value = 2 ^ k - 1 ∧ ∀ x : Nat, (x : Int) ≤ value → x < 2 ^ k := by
  unfold allOnes
  split
  · exact ⟨0, rfl, fun x below => by omega⟩
  · refine ⟨value.toNat.log2 + 1, by simp, ?_⟩
    intro x below
    have covered := Nat.lt_log2_self (n := value.toNat)
    omega

theorem toInt_lt_of_toNat_lt {bits k : Nat} {word : BitVec bits} (sign : word.msb = false)
    (below : word.toNat < 2 ^ k) : 0 ≤ word.toInt ∧ word.toInt ≤ 2 ^ k - 1 := by
  rw [BitVec.toInt_eq_toNat_of_msb sign]
  have cast : (word.toNat : Int) < 2 ^ k := by exact_mod_cast below
  omega

theorem joined_bounds {bits : Nat} {x y z : BitVec bits} {m : Int}
    (sign : z.msb = (x.msb || y.msb) ∨ z.msb = (x.msb ^^ y.msb))
    (joined : ∀ k, x.toNat < 2 ^ k → y.toNat < 2 ^ k → z.toNat < 2 ^ k)
    (left : 0 ≤ x.toInt) (right : 0 ≤ y.toInt) (leftBelow : x.toInt ≤ m)
    (rightBelow : y.toInt ≤ m) : 0 ≤ z.toInt ∧ z.toInt ≤ allOnes m := by
  have signLeft := msb_of_nonneg left
  have signRight := msb_of_nonneg right
  obtain ⟨k, ones, covered⟩ := allOnes_eq m
  rw [BitVec.toInt_eq_toNat_of_msb signLeft] at leftBelow
  rw [BitVec.toInt_eq_toNat_of_msb signRight] at rightBelow
  rw [ones]
  apply toInt_lt_of_toNat_lt
  · simpa [signLeft, signRight] using sign
  · exact joined k (covered _ leftBelow) (covered _ rightBelow)

theorem contains_ones {width : Width} {a b c d value : Int} (fits : width.Fits value)
    (bounds : 0 ≤ a → 0 ≤ c → 0 ≤ value ∧ value ≤ allOnes (max b d)) :
    (if 0 ≤ a && 0 ≤ c then between 0 (allOnes (max b d)) else signed width.bits).contains
      value = true := by
  split
  · rename_i nonneg
    simp only [Bool.and_eq_true, decide_eq_true_eq] at nonneg
    exact contains_between.mpr (bounds nonneg.1 nonneg.2)
  · exact contains_signed.mpr fits

theorem fits_bitwise {width : Width} {op : ArithmeticOp} {x y value : Int}
    (among : op = .and ∨ op = .or ∨ op = .xor) (computed : width.result op x y = some value) :
    width.Fits value := by
  rcases among with rfl | rfl | rfl <;> cases computed <;>
    exact ⟨BitVec.le_toInt _, BitVec.toInt_lt⟩

theorem contains_bitwise {width : Width} {op : ArithmeticOp} {left right : IntRange}
    {x y value : Int} (inLeft : left.contains x = true) (inRight : right.contains y = true)
    (fitsLeft : width.Fits x) (fitsRight : width.Fits y) (among : op = .and ∨ op = .or ∨ op = .xor)
    (computed : width.result op x y = some value) :
    (bitwise op width.bits left right).contains (width.wrap value) = true := by
  have word := bitwiseWord_computed among fitsLeft fitsRight computed
  have readLeft := toInt_ofInt_of_fits fitsLeft
  have readRight := toInt_ofInt_of_fits fitsRight
  have fits := fits_bitwise among computed
  rw [Width.wrap_of_fits fits]
  unfold bitwise
  split
  · rename_i p q singleLeft singleRight
    rw [single?_eq_some] at singleLeft singleRight
    rw [singleLeft, contains_singleton] at inLeft
    rw [singleRight, contains_singleton] at inRight
    rw [← inLeft, ← inRight, word, contains_singleton]
  · obtain ⟨a, b, ab, rfl, boundsLeft⟩ := span_of_contains inLeft
    obtain ⟨c, d, cd, rfl, boundsRight⟩ := span_of_contains inRight
    rcases among with rfl | rfl | rfl
    · have belowRight := and_bounds (BitVec.ofInt width.bits x) (y := BitVec.ofInt width.bits y)
      have belowLeft := and_bounds (BitVec.ofInt width.bits y) (y := BitVec.ofInt width.bits x)
      rw [BitVec.and_comm, readLeft] at belowLeft
      rw [readRight] at belowRight
      rw [Option.some.inj computed] at belowLeft belowRight
      simp only [Bool.and_eq_true, decide_eq_true_eq]
      split
      · rw [contains_between]
        omega
      · split
        · rw [contains_between]
          omega
        · split
          · rw [contains_between]
            omega
          · exact contains_signed.mpr fits
    · apply contains_ones fits
      intro nonnegLeft nonnegRight
      have joined := joined_bounds (x := BitVec.ofInt width.bits x)
        (y := BitVec.ofInt width.bits y) (m := max b d) (Or.inl (BitVec.msb_or ..))
        (fun k left right => by rw [BitVec.toNat_or]; exact Nat.or_lt_two_pow left right)
      rw [Option.some.inj computed, readLeft, readRight] at joined
      exact joined (by omega) (by omega) (by omega) (by omega)
    · apply contains_ones fits
      intro nonnegLeft nonnegRight
      have joined := joined_bounds (x := BitVec.ofInt width.bits x)
        (y := BitVec.ofInt width.bits y) (m := max b d) (Or.inr (BitVec.msb_xor ..))
        (fun k left right => by rw [BitVec.toNat_xor]; exact Nat.xor_lt_two_pow left right)
      rw [Option.some.inj computed, readLeft, readRight] at joined
      exact joined (by omega) (by omega) (by omega) (by omega)

/-! ## Instructions -/

/-- Every word computed from members of the operands is a member of the result. -/
theorem contains_arithmetic {width : Width} {op : ArithmeticOp} {left right : IntRange}
    {x y word : Int} (inLeft : left.contains x = true) (inRight : right.contains y = true)
    (fitsLeft : width.Fits x) (fitsRight : op.isShift = false → width.Fits y)
    (computed : width.compute op x y = some word) :
    (left.arithmetic op width.bits right).contains word = true := by
  obtain ⟨value, before, rfl⟩ := Option.map_eq_some_iff.mp computed
  obtain ⟨a, b, ab, rfl, boundsLeft⟩ := span_of_contains inLeft
  obtain ⟨c, d, cd, rfl, boundsRight⟩ := span_of_contains inRight
  cases op with
  | add =>
    cases before
    exact contains_clamped_wrap width (by omega) (by omega)
  | sub =>
    cases before
    exact contains_clamped_wrap width (by omega) (by omega)
  | mul =>
    cases before
    exact contains_product width boundsLeft boundsRight
  | div =>
    simp only [Width.result, Option.ite_none_left_eq_some, Option.some.injEq] at before
    obtain ⟨nonzero, rfl⟩ := before
    exact contains_quotient width boundsLeft boundsRight nonzero
  | rem =>
    simp only [Width.result, Option.ite_none_left_eq_some, Option.some.injEq] at before
    obtain ⟨nonzero, rfl⟩ := before
    exact contains_remainder width boundsLeft boundsRight nonzero
  | shl => exact contains_shift inLeft inRight fitsLeft rfl before
  | shr => exact contains_shift inLeft inRight fitsLeft rfl before
  | ushr => exact contains_shift inLeft inRight fitsLeft rfl before
  | and => exact contains_bitwise inLeft inRight fitsLeft (fitsRight rfl) (by simp) before
  | or => exact contains_bitwise inLeft inRight fitsLeft (fitsRight rfl) (by simp) before
  | xor => exact contains_bitwise inLeft inRight fitsLeft (fitsRight rfl) (by simp) before

end MethodFlow.IntRange

namespace MethodFlow

theorem Width.fullRange_kind (width : Width) : width.kind.fullRange = .signed width.bits := by
  cases width <;> rfl

theorem Width.contains_fullRange {width : Width} {x : Int} :
    width.kind.fullRange.contains x = true ↔ width.Fits x := by
  rw [fullRange_kind, IntRange.contains_signed]

theorem Width.compute_isSome {op : ArithmeticOp} {y : Int}
    (defined : op = .div ∨ op = .rem → y ≠ 0) (width : Width) (x : Int) :
    ∃ word, width.compute op x y = some word := by
  cases op with
  | div => exact ⟨_, by rw [compute, result, if_neg (defined (Or.inl rfl))]; rfl⟩
  | rem => exact ⟨_, by rw [compute, result, if_neg (defined (Or.inr rfl))]; rfl⟩
  | _ => exact ⟨_, rfl⟩

namespace Interval

theorem integralOperand_ok {kind expected : IntKind} (operation : String) (range : IntRange)
    (read : kind.category = expected.category) :
    (integral kind range).integralOperand operation expected = .ok range := by
  rw [integralOperand, if_pos read]

theorem arithmetic_integral {op : ArithmeticOp} {width : Width} {k l : IntKind}
    (left right : IntRange) (readLeft : k.category = width.kind.category)
    (readRight : l.category = (width.rightKind op).category) :
    arithmetic op (.integral width) (integral k left) (integral l right) =
      .ok (integral width.kind (left.arithmetic op width.bits right)) := by
  rw [Width.rightKind] at readRight
  simp only [arithmetic, integralOperand_ok _ _ readLeft, integralOperand_ok _ _ readRight]
  rfl

/-- An integer instruction accepts operands of its kinds, and whatever members its operands have,
the word that the machine computes from them is a member of its result. -/
theorem arithmetic_sound (op : ArithmeticOp) (width : Width) (k l : IntKind) (left right : IntRange)
    (readLeft : k.category = width.kind.category)
    (readRight : l.category = (width.rightKind op).category)
    (leftInside : width.kind.fullRange.covers left = true)
    (rightInside : (width.rightKind op).fullRange.covers right = true) :
    ∃ range, arithmetic op (.integral width) (integral k left) (integral l right) =
        .ok (integral width.kind range) ∧
      ∀ x y, left.contains x = true → right.contains y = true → (op = .div ∨ op = .rem → y ≠ 0) →
        ∃ word, width.compute op x y = some word ∧ range.contains word = true := by
  refine ⟨_, arithmetic_integral left right readLeft readRight, ?_⟩
  intro x y inLeft inRight defined
  obtain ⟨word, computed⟩ := Width.compute_isSome defined width x
  have fitsLeft : width.Fits x :=
    Width.contains_fullRange.mp ((IntRange.covers_iff _ _).mp leftInside x inLeft)
  have fitsRight : op.isShift = false → width.Fits y := by
    intro plain
    have within := (IntRange.covers_iff _ _).mp rightInside y inRight
    rw [Width.rightKind, plain] at within
    exact Width.contains_fullRange.mp within
  exact ⟨word, computed, IntRange.contains_arithmetic inLeft inRight fitsLeft fitsRight computed⟩

/-- The one quotient that wraps around is not lost when the divisors reach from -1 over zero. -/
theorem arithmetic_sound_least_long : ∃ range,
    arithmetic .div .long (integral .long (.between (-9223372036854775808) 5))
        (integral .long (.between (-1) 3)) = .ok (integral .long range) ∧
      range.contains (-9223372036854775808) = true := by
  obtain ⟨range, accepted, holds⟩ := arithmetic_sound .div .long .long .long
    (.between (-9223372036854775808) 5) (.between (-1) 3) rfl rfl (by decide) (by decide)
  obtain ⟨word, computed, member⟩ :=
    holds (-9223372036854775808) (-1) (by decide) (by decide) (by decide)
  have wrapped : Width.long.compute .div (-9223372036854775808) (-1) =
      some (-9223372036854775808) := by decide
  rw [wrapped] at computed
  cases computed
  exact ⟨range, accepted, member⟩

end Interval

end MethodFlow

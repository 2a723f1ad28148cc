import MethodFlow.Proofs.FloatEncoding

/-! Double precision is a rounded format: a product or quotient of two floats is the exact one,
rounded, and the special cases are those of zeros, infinities and NaN. So what holds of the ranges
of a rounded format holds of ranges of floats. -/
namespace MethodFlow

section Rounding

open Float.Model (Format UnpackedFloat totalExponent)
open Float.Model.UnpackedFloat

theorem Canonical.lt_iff {m : ℕ} {e : ℤ} (canonical : Canonical m e) :
    (m * 2 ^ e : ℝ) < 2 ^ 1024 ↔ e ≤ 971 := by
  have least := canonical.le
  constructor
  · intro bound
    by_contra large
    have full : (2 : ℝ) ^ 52 ≤ m := by
      exact_mod_cast canonical.normal.resolve_right (by omega)
    have split : (2 : ℝ) ^ 1024 = 2 ^ 52 * 2 ^ (972 : ℤ) := by
      rw [show (972 : ℤ) = (972 : ℕ) from rfl, zpow_natCast, ← pow_add]
    refine bound.not_ge ?_
    calc (2 : ℝ) ^ 1024 = 2 ^ 52 * 2 ^ (972 : ℤ) := split
      _ ≤ 2 ^ 52 * 2 ^ e := by
        gcongr
        · norm_num
        · omega
      _ ≤ m * 2 ^ e := by gcongr
  · intro small
    have low : (m : ℝ) < 2 ^ 53 := by exact_mod_cast canonical.lt
    have split : (2 : ℝ) ^ 1024 = 2 ^ 53 * 2 ^ (971 : ℤ) := by
      rw [show (971 : ℤ) = (971 : ℕ) from rfl, zpow_natCast, ← pow_add]
    calc (m : ℝ) * 2 ^ e < 2 ^ 53 * 2 ^ e := by gcongr
      _ ≤ 2 ^ 53 * 2 ^ (971 : ℤ) := by
        gcongr
        norm_num
      _ = 2 ^ 1024 := split.symm

/-- A mantissa that stands for an exact magnitude is packed as the rounded one. -/
theorem unpackedValue_round {sign : Sign} {mantissa : ℕ} {exponent : ℤ} {accuracy : Accuracy}
    {r : ℝ} (positive : 0 < r)
    (stands : StandsFor (.ofMantissaAndAccuracy mantissa accuracy) (r / 2 ^ exponent))
    (fits : exponent ≤ ulpExponent r) (tiny : mantissa = 0 → exponent ≤ -1074) :
    unpackedValue (unpack Format.binary64 (pack Format.binary64
      (roundWithAccuracy Format.binary64 sign mantissa exponent accuracy))) =
      some (signed sign (roundPositive r)) := by
  rcases @roundWithAccuracy_cases sign _ _ _ _ positive stands fits tiny with
    ⟨result, zero⟩ | ⟨m, e, nonzero, result, canonical, same⟩
  · have none : roundPositive (r : EReal) = 0 := by
      rw [roundPositive, EReal.toReal_coe, zero, if_neg]
      · rfl
      · exact not_or.mpr ⟨EReal.coe_ne_top r, not_le.mpr (by positivity)⟩
    rw [result, pack, unpack_packedZero, none]
    cases sign <;> simp [unpackedValue, signed]
  · rw [result, unpack_pack_finite nonzero canonical]
    by_cases small : e ≤ 971
    · have kept : roundPositive (r : EReal) = ((m * 2 ^ e : ℝ) : EReal) := by
        rw [roundPositive, EReal.toReal_coe, ← same, if_neg]
        exact not_or.mpr ⟨EReal.coe_ne_top r, not_le.mpr (canonical.lt_iff.mpr small)⟩
      rw [if_pos small, kept]
      rfl
    · have lost : roundPositive (r : EReal) = ⊤ := by
        rw [roundPositive, EReal.toReal_coe, ← same, if_pos]
        exact .inr (not_lt.mp fun bound => small (canonical.lt_iff.mp bound))
      rw [if_neg small, lost]
      rfl

noncomputable def packedValue (number : UnpackedFloat) : Option EReal :=
  unpackedValue (unpack Format.binary64 (pack Format.binary64 number))

section Signs

variable {sign sign' : Sign} {p q : EReal} {r : ℝ}

theorem signed_mul : signed sign p * signed sign' q = signed (sign * sign') (p * q) := by
  cases sign <;> cases sign'
  · exact neg_mul_neg p q
  · exact neg_mul p q
  · exact mul_neg p q
  · rfl

theorem signed_inv : (signed sign p)⁻¹ = signed sign p⁻¹ := by
  cases sign
  · exact EReal.inv_neg p
  · rfl

theorem signed_div : signed sign p / signed sign' q = signed (sign / sign') (p / q) := by
  have signs : sign / sign' = sign * sign' := by cases sign <;> cases sign' <;> rfl
  rw [div_eq_mul_inv, signed_inv, signed_mul, signs]
  rfl

theorem signed_ne_zero (nonzero : p ≠ 0) : signed sign p ≠ 0 := by
  cases sign
  · simpa [signed] using nonzero
  · exact nonzero

theorem signed_coe_finite : signed sign (r : EReal) ≠ ⊥ ∧ signed sign (r : EReal) ≠ ⊤ := by
  cases sign <;> simp [signed]

theorem signed_top : signed sign ⊤ = ⊥ ∨ signed sign ⊤ = ⊤ := by
  cases sign <;> simp [signed]

theorem packedValue_infinity :
    packedValue (.infinity sign) = some (doubleRound (signed sign ⊤)) := by
  rw [packedValue, unpack_pack_infinity, doubleRound_signed le_top, roundPositive_top]
  rfl

theorem packedValue_zero : packedValue (.zero sign) = some (doubleRound 0) := by
  rw [packedValue, pack, unpack_packedZero, doubleRound, if_pos le_rfl, roundPositive_zero]
  rfl

theorem packedValue_nan : packedValue .notANumber = none := by
  rw [packedValue, pack, unpack_packedNaN]
  rfl

end Signs

/-- The mantissa and exponent of a finite float are those of its format. -/
def Proper : UnpackedFloat → Prop
  | .finite _ mantissa exponent _ => Canonical mantissa exponent
  | _ => True

theorem proper_unpack (x : Float) : Proper x.toModel.unpack := by
  obtain ⟨sign, field, fraction, unpacks, bound, _⟩ := unpacks_float x
  cases number : x.toModel.unpack with
  | finite => exact (number ▸ unpacks).canonical bound
  | infinity => trivial
  | notANumber => trivial
  | zero => trivial

theorem le_ulpExponent {r : ℝ} {exponent : ℤ} (positive : 0 < r)
    (bits : (2 : ℝ) ^ (52 + exponent) ≤ r) : exponent ≤ ulpExponent r := by
  have log := (Int.zpow_le_iff_le_log (b := 2) (by decide) positive).mp (by exact_mod_cast bits)
  unfold ulpExponent
  omega

section Operations

variable {sign sign' : Sign} {m n : ℕ} {e f : ℤ}

theorem packedValue_mul_finite (positive : 0 < m) (positive' : 0 < n) (first : Canonical m e)
    (second : Canonical n f) :
    packedValue (roundWithAccuracy Format.binary64 sign (m * n) (e + f) .exact) =
      some (signed sign (roundPositive ((m * 2 ^ e : ℝ) * (n * 2 ^ f : ℝ) : ℝ))) := by
  have product : ((m * n : ℕ) : ℝ) * 2 ^ (e + f) = (m * 2 ^ e : ℝ) * (n * 2 ^ f : ℝ) := by
    rw [zpow_add₀ (by norm_num)]
    push_cast
    ring
  have size : (0 : ℝ) < ((m * n : ℕ) : ℝ) * 2 ^ (e + f) := by positivity
  rw [← product]
  refine unpackedValue_round size ?_ ?_ fun zero => ?_
  · rw [mul_div_assoc, div_self (by positivity), mul_one]
    exact .exact _
  · by_cases least : e = -1074 ∧ f = -1074
    · exact le_trans (by omega) (le_max_right _ _)
    -- One of the mantissas has all its bits, so the product has at least as many.
    · have full : 2 ^ 52 ≤ m * n := by
        rcases first.normal with full | low
        · exact full.trans (Nat.le_mul_of_pos_right _ positive')
        · have full := second.normal.resolve_right fun low' => least ⟨low, low'⟩
          exact full.trans (Nat.le_mul_of_pos_left _ positive)
      apply le_ulpExponent size
      rw [zpow_add₀ (by norm_num)]
      gcongr
      exact_mod_cast full
  · exact absurd zero (Nat.mul_pos positive positive').ne'

theorem packedValue_div_finite (positive : 0 < m) (positive' : 0 < n) :
    packedValue (UnpackedFloat.div Format.binary64 (.finite sign m e positive)
      (.finite sign' n f positive')) =
      some (signed (sign / sign') (roundPositive ((m * 2 ^ e : ℝ) / (n * 2 ^ f : ℝ) : ℝ))) := by
  have size : (0 : ℝ) < (m * 2 ^ e : ℝ) / (n * 2 ^ f : ℝ) := by positivity
  generalize exact : (m * 2 ^ e : ℝ) / (n * 2 ^ f : ℝ) = r at size
  simp only [UnpackedFloat.div, divCore]
  generalize wanted : Format.binary64.targetExponent (totalExponent m e - totalExponent n f) = t
  -- The quotient has at least as many bits as the difference of the total exponents says.
  have log : totalExponent m e - totalExponent n f - 1 ≤ Int.log 2 r := by
    rw [← Int.zpow_le_iff_le_log (by decide) size, ← exact, le_div_iff₀ (by positivity)]
    have low : (2 : ℝ) ^ m.log2 ≤ m := by exact_mod_cast Nat.log2_self_le positive.ne'
    have high : (n : ℝ) ≤ 2 ^ (n.log2 + 1) := by exact_mod_cast Nat.lt_log2_self.le
    calc ((2 : ℕ) : ℝ) ^ (totalExponent m e - totalExponent n f - 1) * (n * 2 ^ f)
        ≤ (2 : ℝ) ^ (totalExponent m e - totalExponent n f - 1) * (2 ^ (n.log2 + 1) * 2 ^ f) := by
          rw [Nat.cast_ofNat]
          gcongr
      _ = 2 ^ m.log2 * 2 ^ e := by
          rw [← zpow_natCast, ← zpow_natCast, ← zpow_add₀ (by norm_num), ← zpow_add₀ (by norm_num),
            ← zpow_add₀ (by norm_num)]
          congr 1
          simp only [totalExponent]
          push_cast
          ring
      _ ≤ m * 2 ^ e := by gcongr
  have goal : t = max (totalExponent m e - totalExponent n f - 53) (-1074) := wanted.symm
  generalize shift : (e - f - min (e - f) t).toNat = count
  have scaled : r / 2 ^ min (e - f) t = ((m <<< count : ℕ) : ℝ) / n := by
    rw [← exact, Nat.shiftLeft_eq]
    have place : e - f = min (e - f) t + count := by omega
    have powers : (2 : ℝ) ^ e = 2 ^ f * 2 ^ min (e - f) t * 2 ^ count := by
      rw [← zpow_natCast, ← zpow_add₀ (by norm_num), ← zpow_add₀ (by norm_num)]
      congr 1
      omega
    rw [powers]
    push_cast
    field_simp
  have stands : StandsFor (.ofMantissaAndAccuracy ((m <<< count) / n)
      (accuracyOfFraction ((m <<< count) % n) n)) (r / 2 ^ min (e - f) t) :=
    scaled ▸ .fraction positive'
  have fits : min (e - f) t ≤ ulpExponent r := by
    unfold ulpExponent
    omega
  refine unpackedValue_round size stands fits fun zero => ?_
  have less : r / 2 ^ min (e - f) t < 1 := by
    have bounds := (StandsFor.ofMantissaAndAccuracy_iff.mp stands).bounds
    rw [zero, Nat.cast_zero, sub_zero] at bounds
    exact bounds.2
  rw [div_lt_one (by positivity)] at less
  have small := (Int.lt_zpow_iff_log_lt (b := 2) (by decide) size).mp (by exact_mod_cast less)
  omega

end Operations

section Special

variable {u v : UnpackedFloat} {p q : EReal}

theorem magnitude_pos {m : ℕ} {e : ℤ} (positive : 0 < m) :
    (0 : EReal) < ((m * 2 ^ e : ℝ) : EReal) := EReal.coe_pos.mpr (by positivity)

theorem packedValue_mul (first : Proper u) (second : Proper v) (valueU : unpackedValue u = some p)
    (valueV : unpackedValue v = some q) (defined : ProductDefined p q) :
    packedValue (UnpackedFloat.mul Format.binary64 u v) = some (doubleRound (p * q)) := by
  cases u with
  | notANumber => cases valueU
  | infinity sign =>
    cases valueU
    cases v with
    | notANumber => cases valueV
    | infinity sign' =>
      cases valueV
      rw [signed_mul, EReal.top_mul_top]
      exact packedValue_infinity
    | zero =>
      cases valueV
      exact absurd signed_top (not_or.mpr (defined.2 rfl))
    | finite sign' n f positive =>
      cases valueV
      rw [signed_mul, EReal.top_mul_of_pos (magnitude_pos positive)]
      exact packedValue_infinity
  | zero =>
    cases valueU
    rw [zero_mul]
    cases v with
    | notANumber => cases valueV
    | infinity =>
      cases valueV
      exact absurd signed_top (not_or.mpr (defined.1 rfl))
    | zero => exact packedValue_zero
    | finite => exact packedValue_zero
  | finite sign m e positive =>
    cases valueU
    cases v with
    | notANumber => cases valueV
    | infinity sign' =>
      cases valueV
      rw [signed_mul, EReal.mul_top_of_pos (magnitude_pos positive)]
      exact packedValue_infinity
    | zero =>
      cases valueV
      rw [mul_zero]
      exact packedValue_zero
    | finite sign' n f positive' =>
      cases valueV
      rw [signed_mul, ← EReal.coe_mul, doubleRound_signed (EReal.coe_nonneg.mpr (by positivity))]
      exact packedValue_mul_finite positive positive' first second

theorem packedValue_mul_nan (undefined : ∀ p q, unpackedValue u = some p →
    unpackedValue v = some q → ¬ProductDefined p q) :
    packedValue (UnpackedFloat.mul Format.binary64 u v) = none := by
  cases u with
  | notANumber => exact packedValue_nan
  | infinity sign =>
    have nonzero : signed sign ⊤ ≠ 0 := signed_ne_zero EReal.top_ne_zero
    cases v with
    | notANumber => exact packedValue_nan
    | infinity =>
      exact absurd (.of_ne_zero nonzero (signed_ne_zero EReal.top_ne_zero))
        (undefined _ _ rfl rfl)
    | zero => exact packedValue_nan
    | finite _ _ _ positive =>
      exact absurd (.of_ne_zero nonzero (signed_ne_zero (magnitude_pos positive).ne'))
        (undefined _ _ rfl rfl)
  | zero =>
    cases v with
    | notANumber => exact packedValue_nan
    | infinity => exact packedValue_nan
    | zero =>
      exact absurd (.zero_left EReal.zero_ne_bot EReal.zero_ne_top) (undefined _ _ rfl rfl)
    | finite =>
      exact absurd (.zero_left signed_coe_finite.1 signed_coe_finite.2) (undefined _ _ rfl rfl)
  | finite sign m e positive =>
    have nonzero : signed sign ((m * 2 ^ e : ℝ) : EReal) ≠ 0 :=
      signed_ne_zero (magnitude_pos positive).ne'
    cases v with
    | notANumber => exact packedValue_nan
    | infinity =>
      exact absurd (.of_ne_zero nonzero (signed_ne_zero EReal.top_ne_zero))
        (undefined _ _ rfl rfl)
    | zero =>
      exact absurd (.mul_zero_finite signed_coe_finite.1 signed_coe_finite.2)
        (undefined _ _ rfl rfl)
    | finite _ _ _ positive' =>
      exact absurd (.of_ne_zero nonzero (signed_ne_zero (magnitude_pos positive').ne'))
        (undefined _ _ rfl rfl)

theorem packedValue_div (valueU : unpackedValue u = some p) (valueV : unpackedValue v = some q)
    (nonzero : q ≠ 0) (defined : QuotientDefined p q) :
    packedValue (UnpackedFloat.div Format.binary64 u v) = some (doubleRound (p / q)) := by
  cases u with
  | notANumber => cases valueU
  | infinity sign =>
    cases valueU
    cases v with
    | notANumber => cases valueV
    | infinity =>
      cases valueV
      exact absurd signed_top (not_or.mpr (defined signed_top))
    | zero =>
      cases valueV
      exact absurd rfl nonzero
    | finite sign' n f positive =>
      cases valueV
      rw [signed_div, EReal.top_div_of_pos_ne_top (magnitude_pos positive) (EReal.coe_ne_top _)]
      exact packedValue_infinity
  | zero =>
    cases valueU
    rw [EReal.zero_div]
    cases v with
    | notANumber => cases valueV
    | infinity => exact packedValue_zero
    | zero =>
      cases valueV
      exact absurd rfl nonzero
    | finite => exact packedValue_zero
  | finite sign m e positive =>
    cases valueU
    cases v with
    | notANumber => cases valueV
    | infinity sign' =>
      cases valueV
      have none : signed sign ((m * 2 ^ e : ℝ) : EReal) / signed sign' ⊤ = 0 := by
        rw [signed_div, EReal.div_top]
        cases sign / sign' <;> simp [signed]
      rw [none]
      exact packedValue_zero
    | zero =>
      cases valueV
      exact absurd rfl nonzero
    | finite sign' n f positive' =>
      cases valueV
      rw [signed_div, ← EReal.coe_div, doubleRound_signed (EReal.coe_nonneg.mpr (by positivity))]
      exact packedValue_div_finite positive positive'

theorem packedValue_div_nan (undefined : ∀ p q, unpackedValue u = some p →
    unpackedValue v = some q → q ≠ 0 ∧ ¬QuotientDefined p q) :
    packedValue (UnpackedFloat.div Format.binary64 u v) = none := by
  cases u with
  | notANumber => exact packedValue_nan
  | infinity =>
    cases v with
    | notANumber => exact packedValue_nan
    | infinity => exact packedValue_nan
    | zero => exact absurd rfl (undefined _ _ rfl rfl).1
    | finite => exact absurd (fun _ => signed_coe_finite) (undefined _ _ rfl rfl).2
  | zero =>
    cases v with
    | notANumber => exact packedValue_nan
    | infinity => exact absurd (fun zero => by simp at zero) (undefined _ _ rfl rfl).2
    | zero => exact packedValue_nan
    | finite => exact absurd (fun zero => by simp at zero) (undefined _ _ rfl rfl).2
  | finite =>
    have finite : ∀ {sign : Sign} {r : ℝ} {q : EReal},
        QuotientDefined (signed sign (r : EReal)) q :=
      fun infinite => absurd infinite (not_or.mpr signed_coe_finite)
    cases v with
    | notANumber => exact packedValue_nan
    | infinity => exact absurd finite (undefined _ _ rfl rfl).2
    | zero => exact absurd rfl (undefined _ _ rfl rfl).1
    | finite => exact absurd finite (undefined _ _ rfl rfl).2

theorem packedValue_div_zero (valueU : unpackedValue u = some p)
    (valueV : unpackedValue v = some 0) :
    packedValue (UnpackedFloat.div Format.binary64 u v) = none ↔ p = 0 := by
  have zero : ∃ sign, v = .zero sign := by
    cases v with
    | notANumber => cases valueV
    | infinity => exact absurd (Option.some.inj valueV) (signed_ne_zero EReal.top_ne_zero)
    | zero sign => exact ⟨sign, rfl⟩
    | finite _ _ _ positive =>
      exact absurd (Option.some.inj valueV) (signed_ne_zero (magnitude_pos positive).ne')
  obtain ⟨sign', rfl⟩ := zero
  cases u with
  | notANumber => cases valueU
  | infinity sign =>
    cases valueU
    have infinite : packedValue (UnpackedFloat.div Format.binary64 (.infinity sign)
        (.zero sign')) ≠ none := by simp [UnpackedFloat.div, packedValue_infinity]
    exact iff_of_false infinite (signed_ne_zero EReal.top_ne_zero)
  | zero =>
    cases valueU
    exact iff_of_true packedValue_nan rfl
  | finite sign m e positive =>
    cases valueU
    have infinite : packedValue (UnpackedFloat.div Format.binary64 (.finite sign m e positive)
        (.zero sign')) ≠ none := by simp [UnpackedFloat.div, packedValue_infinity]
    exact iff_of_false infinite (signed_ne_zero (magnitude_pos positive).ne')

end Special

/-- Double precision follows the rules of a rounded format. -/
noncomputable instance : RoundedFormat Float where
  value := doubleValue
  round := doubleRound
  round_mono := doubleRound_mono
  le_iff := le_float_iff_value
  value_zero := congrArg unpackedValue (show _ = .zero .positive by rfl)
  value_infinity := congrArg unpackedValue (show _ = .infinity .positive by rfl)
  value_negInfinity := congrArg unpackedValue (show _ = .infinity .negative by rfl)
  value_mul {x y} _ _ := packedValue_mul (proper_unpack x) (proper_unpack y)
  mul_nan := packedValue_mul_nan
  value_div := packedValue_div
  div_nan := packedValue_div_nan
  div_zero := packedValue_div_zero

end Rounding

namespace FloatRange

open FloatFormat

def allFloats : FloatRange Float := of (some (negInfinity, infinity)) false

def nonnegativeFloats : FloatRange Float := of (some (zero, infinity)) false

theorem same_of_spans_nonnegativeFloats {low high : Float}
    (spans : nonnegativeFloats.Spans low high) :
    same zero low = true ∧ same infinity high = true := by
  obtain ⟨span, found, bounds⟩ := spans
  cases found
  exact bounds

/-- Two of the four products at the bounds are NaN, and no number is lost. -/
theorem mul_div_kept_iff_nonnegative :
    (∀ x y, nonnegativeFloats.Member x → allFloats.Member y →
      (arithmetic .mul nonnegativeFloats allFloats).Member (mul x y)) ∧
    ∀ x y, nonnegativeFloats.Member x → allFloats.Member y →
      (arithmetic .div nonnegativeFloats allFloats).Member (div x y) := by
  have notZero : ¬nonnegativeFloats.Spans zero zero := fun spans =>
    absurd (same_of_spans_nonnegativeFloats spans).2 (by decide)
  have notAll : ¬nonnegativeFloats.Spans negInfinity infinity := fun spans =>
    absurd (same_of_spans_nonnegativeFloats spans).1 (by decide)
  obtain ⟨products, quotients⟩ := mul_div_kept_iff nonnegativeFloats allFloats
  exact ⟨products.mpr ⟨fun both => notZero both.1, fun both => notAll both.1⟩,
    quotients.mpr fun both => notAll both.1⟩

/-- Zero times zero is not among the products of zero and everything, nor zero by infinity among the
quotients of everything by infinity. -/
theorem mul_div_lost :
    ((singleton zero).Member (zero : Float) ∧ allFloats.Member zero ∧
      ¬(arithmetic .mul (singleton zero) allFloats).Member (mul zero zero) ∧
      ¬(arithmetic .mul allFloats (singleton zero)).Member (mul zero zero)) ∧
    (singleton infinity).Member (infinity : Float) ∧
      ¬(arithmetic .div allFloats (singleton infinity)).Member (div zero infinity) := by
  decide

end FloatRange

end MethodFlow

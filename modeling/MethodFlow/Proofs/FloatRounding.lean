import Mathlib
import MethodFlow.Proofs.FloatCorners

/-! Rounding to double precision. A magnitude is rounded to the nearest multiple of the unit
in its last place, to an even one if two are as near, and a result of 2^1024 or more is infinite.
The mantissa with a round bit and a sticky bit, which is what a product or quotient leaves behind,
holds enough of the exact result to find that multiple. (The equations of the model of floats, which
the proofs unfold, come with the whole library only.) -/
namespace MethodFlow

/-- The nearest natural number, and of two as near the even one. -/
noncomputable def nearestEven (q : ℝ) : ℕ :=
  if q - ⌊q⌋₊ < 1 / 2 then ⌊q⌋₊ else if 1 / 2 < q - ⌊q⌋₊ then ⌊q⌋₊ + 1 else ⌊q⌋₊ + ⌊q⌋₊ % 2

theorem floor_le_nearestEven (q : ℝ) : ⌊q⌋₊ ≤ nearestEven q := by
  unfold nearestEven
  split_ifs <;> omega

theorem nearestEven_le_floor_succ (q : ℝ) : nearestEven q ≤ ⌊q⌋₊ + 1 := by
  unfold nearestEven
  split_ifs <;> omega

theorem nearestEven_mono {p q : ℝ} (below : p ≤ q) : nearestEven p ≤ nearestEven q := by
  rcases (Nat.floor_mono below).lt_or_eq with less | same
  · exact (nearestEven_le_floor_succ p).trans (less.trans_le (floor_le_nearestEven q))
  · unfold nearestEven
    rw [same]
    split_ifs with first second third fourth
    · exact le_rfl
    · omega
    · omega
    · linarith
    · omega
    · linarith
    · linarith
    · omega
    · omega

/-- The place of the last bit kept of a magnitude. -/
noncomputable def ulpExponent (r : ℝ) : ℤ := max (Int.log 2 r - 52) (-1074)

noncomputable def roundMagnitude (r : ℝ) : ℝ :=
  nearestEven (r / 2 ^ ulpExponent r) * 2 ^ ulpExponent r

theorem roundMagnitude_nonneg (r : ℝ) : 0 ≤ roundMagnitude r := by
  unfold roundMagnitude
  positivity

theorem nearestEven_zero : nearestEven 0 = 0 := by
  norm_num [nearestEven]

theorem roundMagnitude_zero : roundMagnitude 0 = 0 := by
  simp [roundMagnitude, nearestEven_zero]

theorem lt_two_zpow_ulpExponent {r : ℝ} : r < 2 ^ (ulpExponent r + 53) := by
  have bound := Int.lt_zpow_succ_log_self (b := 2) (by decide) r
  refine bound.trans_le (zpow_le_zpow_right₀ (by norm_num) ?_)
  unfold ulpExponent
  omega

theorem nearestEven_ulp_le {r : ℝ} : nearestEven (r / 2 ^ ulpExponent r) ≤ 2 ^ 53 := by
  have scaled : r / 2 ^ ulpExponent r < (2 ^ 53 : ℕ) := by
    rw [div_lt_iff₀ (by positivity)]
    have bound := lt_two_zpow_ulpExponent (r := r)
    rw [zpow_add₀ (by norm_num), mul_comm] at bound
    exact_mod_cast bound
  exact (nearestEven_le_floor_succ _).trans ((Nat.floor_lt' (by positivity)).mpr scaled)

theorem le_nearestEven_ulp {r : ℝ} (positive : 0 < r) (normal : -1074 < ulpExponent r) :
    2 ^ 52 ≤ nearestEven (r / 2 ^ ulpExponent r) := by
  refine le_trans (Nat.le_floor ?_) (floor_le_nearestEven _)
  rw [le_div_iff₀ (by positivity)]
  have bound := Int.zpow_log_le_self (b := 2) (by decide) positive
  have place : ulpExponent r = Int.log 2 r - 52 := by
    unfold ulpExponent at normal ⊢
    omega
  rw [show Int.log 2 r = 52 + ulpExponent r by omega, zpow_add₀ (by norm_num)] at bound
  exact_mod_cast bound

theorem roundMagnitude_mono {r s : ℝ} (nonneg : 0 ≤ r) (below : r ≤ s) :
    roundMagnitude r ≤ roundMagnitude s := by
  rcases nonneg.eq_or_lt with rfl | positive
  · rw [roundMagnitude_zero]
    exact roundMagnitude_nonneg s
  have places : ulpExponent r ≤ ulpExponent s :=
    max_le_max (sub_le_sub_right (Int.log_mono_right positive below) _) le_rfl
  unfold roundMagnitude
  rcases places.eq_or_lt with same | less
  · rw [same]
    have scaled : r / (2 : ℝ) ^ ulpExponent s ≤ s / 2 ^ ulpExponent s := by gcongr
    gcongr
    exact nearestEven_mono scaled
  · have normal : -1074 < ulpExponent s := (le_max_right _ _).trans_lt less
    have low : (nearestEven (r / 2 ^ ulpExponent r) : ℝ) ≤ 2 ^ 53 := by
      exact_mod_cast nearestEven_ulp_le
    have high : (2 : ℝ) ^ 52 ≤ nearestEven (s / 2 ^ ulpExponent s) := by
      exact_mod_cast le_nearestEven_ulp (positive.trans_le below) normal
    calc (nearestEven (r / 2 ^ ulpExponent r) : ℝ) * 2 ^ ulpExponent r
        ≤ 2 ^ 53 * 2 ^ ulpExponent r := by gcongr
      _ = 2 ^ 52 * 2 ^ (ulpExponent r + 1) := by
        rw [zpow_add_one₀ (by norm_num)]
        ring
      _ ≤ 2 ^ 52 * 2 ^ ulpExponent s := by
        gcongr
        · norm_num
        · exact less
      _ ≤ nearestEven (s / 2 ^ ulpExponent s) * 2 ^ ulpExponent s := by gcongr

/-- A rounded magnitude of 2^1024 or more is infinite. -/
noncomputable def roundPositive (p : EReal) : EReal :=
  if p = ⊤ ∨ 2 ^ 1024 ≤ roundMagnitude p.toReal then ⊤ else (roundMagnitude p.toReal : ℝ)

noncomputable def doubleRound (p : EReal) : EReal :=
  if 0 ≤ p then roundPositive p else -roundPositive (-p)

theorem roundPositive_nonneg (p : EReal) : 0 ≤ roundPositive p := by
  unfold roundPositive
  split
  · exact le_top
  · exact EReal.coe_nonneg.mpr (roundMagnitude_nonneg _)

theorem roundPositive_mono {p q : EReal} (nonneg : 0 ≤ p) (below : p ≤ q) :
    roundPositive p ≤ roundPositive q := by
  unfold roundPositive
  by_cases large : q = ⊤ ∨ 2 ^ 1024 ≤ roundMagnitude q.toReal
  · rw [if_pos large]
    exact le_top
  obtain ⟨finite, small⟩ := not_or.mp large
  have finite' : p ≠ ⊤ := fun top => finite (top_le_iff.mp (top ▸ below))
  have lower : p ≠ ⊥ := fun bot => absurd (bot ▸ nonneg) (by simp)
  have rounded : roundMagnitude p.toReal ≤ roundMagnitude q.toReal :=
    roundMagnitude_mono (EReal.toReal_nonneg nonneg) (EReal.toReal_le_toReal below lower finite)
  rw [if_neg large, if_neg (not_or.mpr ⟨finite', fun more => small (more.trans rounded)⟩)]
  exact EReal.coe_le_coe_iff.mpr rounded

theorem doubleRound_mono : Monotone doubleRound := by
  intro p q below
  unfold doubleRound
  split_ifs with first second second
  · exact roundPositive_mono first below
  · exact absurd (first.trans below) second
  · exact (EReal.neg_le_zero.mpr (roundPositive_nonneg _)).trans (roundPositive_nonneg q)
  · rw [EReal.neg_le_neg_iff]
    exact roundPositive_mono (EReal.neg_nonneg.mpr (not_le.mp second).le)
      (EReal.neg_le_neg_iff.mpr below)

theorem roundPositive_zero : roundPositive 0 = 0 := by
  simp [roundPositive, roundMagnitude_zero]

theorem roundPositive_top : roundPositive ⊤ = ⊤ := if_pos (.inl rfl)

open Float.Model (Format UnpackedFloat totalExponent)
open Float.Model.UnpackedFloat

noncomputable def signed : Sign → EReal → EReal
  | .positive, p => p
  | .negative, p => -p

theorem doubleRound_signed {sign : Sign} {p : EReal} (nonneg : 0 ≤ p) :
    doubleRound (signed sign p) = signed sign (roundPositive p) := by
  cases sign with
  | positive => exact if_pos nonneg
  | negative =>
    rcases nonneg.eq_or_lt with rfl | positive
    · simp [doubleRound, signed, roundPositive_zero]
    · have negative : ¬0 ≤ -p := by simpa using positive
      rw [signed, doubleRound, if_neg negative, neg_neg]
      rfl

noncomputable def unpackedValue : UnpackedFloat → Option EReal
  | .notANumber => none
  | .infinity sign => some (signed sign ⊤)
  | .zero _ => some 0
  | .finite sign mantissa exponent _ => some (signed sign ((mantissa * 2 ^ exponent : ℝ) : EReal))

/-- What lies behind the integer part of a number, by the accuracy of that part. -/
def RestIs : Accuracy → ℝ → Prop
  | .exact, rest => rest = 0
  | .inexact .lt, rest => 0 < rest ∧ rest < 1 / 2
  | .inexact .eq, rest => rest = 1 / 2
  | .inexact .gt, rest => 1 / 2 < rest ∧ rest < 1

theorem RestIs.bounds {accuracy : Accuracy} {rest : ℝ} (known : RestIs accuracy rest) :
    0 ≤ rest ∧ rest < 1 := by
  rcases accuracy with _ | _ | _ | _ <;> simp only [RestIs] at known <;>
    constructor <;> linarith

theorem restIs_accuracyOfFraction {num den : ℕ} (less : num < den) :
    RestIs (accuracyOfFraction num den) (num / den : ℝ) := by
  have positive : (0 : ℝ) < den := by exact_mod_cast (Nat.zero_le _).trans_lt less
  unfold accuracyOfFraction
  split
  · rename_i zero
    simp [RestIs, zero]
  · rename_i nonzero
    have above : (0 : ℝ) < num := by exact_mod_cast Nat.pos_of_ne_zero nonzero
    have below : (num : ℝ) < den := by exact_mod_cast less
    rcases order : compare (2 * num) den with _ | _ | _
    · have half : (2 * num : ℝ) < den := by exact_mod_cast Nat.compare_eq_lt.mp order
      refine ⟨by positivity, ?_⟩
      rw [div_lt_div_iff₀ positive (by norm_num)]
      linarith
    · have half : (2 * num : ℝ) = den := by exact_mod_cast Nat.compare_eq_eq.mp order
      change (num / den : ℝ) = 1 / 2
      rw [div_eq_div_iff positive.ne' (by norm_num)]
      linarith
    · have half : (den : ℝ) < 2 * num := by exact_mod_cast Nat.compare_eq_gt.mp order
      refine ⟨?_, (div_lt_one positive).mpr below⟩
      rw [div_lt_div_iff₀ (by norm_num) positive]
      linarith

/-- A mantissa with its round bit and sticky bit stands for a number of which it is the integer
part. -/
def StandsFor (mantissa : ExtendedMantissa) (q : ℝ) : Prop :=
  RestIs mantissa.accuracy (q - mantissa.mantissa)

namespace StandsFor

variable {mantissa : ExtendedMantissa} {whole : ℕ} {accuracy : Accuracy} {q : ℝ}

theorem ofMantissaAndAccuracy_iff :
    StandsFor (.ofMantissaAndAccuracy whole accuracy) q ↔ RestIs accuracy (q - whole) := by
  rcases accuracy with _ | _ | _ | _ <;> rfl

theorem exact (whole : ℕ) : StandsFor (.ofMantissaAndAccuracy whole .exact) whole :=
  ofMantissaAndAccuracy_iff.mpr (sub_self _)

theorem fraction {num den : ℕ} (positive : 0 < den) :
    StandsFor (.ofMantissaAndAccuracy (num / den) (accuracyOfFraction (num % den) den))
      (num / den : ℝ) := by
  have split : (num : ℝ) / den - (num / den : ℕ) = (num % den : ℕ) / den := by
    have parts : (num : ℝ) = den * (num / den : ℕ) + (num % den : ℕ) := by
      exact_mod_cast (Nat.div_add_mod num den).symm
    have nonzero : (den : ℝ) ≠ 0 := by positivity
    field_simp
    linarith
  rw [ofMantissaAndAccuracy_iff, split]
  exact restIs_accuracyOfFraction (Nat.mod_lt _ positive)

theorem floor (stands : StandsFor mantissa q) : ⌊q⌋₊ = mantissa.mantissa := by
  obtain ⟨low, high⟩ := RestIs.bounds stands
  have whole := Nat.cast_nonneg (α := ℝ) mantissa.mantissa
  exact (Nat.floor_eq_iff (by linarith)).mpr ⟨by linarith, by linarith⟩

theorem roundedMantissa (stands : StandsFor mantissa q) :
    mantissa.roundedMantissa = nearestEven q := by
  unfold nearestEven
  rw [stands.floor]
  obtain ⟨whole, half, sticky⟩ := mantissa
  unfold StandsFor at stands
  cases half <;> cases sticky <;> simp only [ExtendedMantissa.accuracy, RestIs] at stands
  · rw [if_pos (by linarith)]
    rfl
  · rw [if_pos stands.2]
    rfl
  · rw [if_neg (by linarith), if_neg (by linarith)]
    rfl
  · rw [if_neg (by linarith), if_pos stands.1]
    rfl

theorem shiftRightOne (stands : StandsFor mantissa q) :
    StandsFor mantissa.shiftRightOne (q / 2) := by
  obtain ⟨whole, half, sticky⟩ := mantissa
  have split : (whole : ℝ) = 2 * (whole / 2 : ℕ) + (whole % 2 : ℕ) := by
    exact_mod_cast (Nat.div_add_mod whole 2).symm
  unfold StandsFor ExtendedMantissa.shiftRightOne
  unfold StandsFor at stands
  rcases Nat.mod_two_eq_zero_or_one whole with even | odd
  · rw [even, Nat.cast_zero] at split
    cases half <;> cases sticky <;>
      simp only [ExtendedMantissa.accuracy, RestIs, even, bne_self_eq_false, Bool.or_false,
        Bool.or_true] at stands ⊢
    · linarith
    · constructor <;> linarith
    · constructor <;> linarith
    · constructor <;> linarith
  · rw [odd, Nat.cast_one] at split
    have set : (1 != 0) = true := rfl
    cases half <;> cases sticky <;>
      simp only [ExtendedMantissa.accuracy, RestIs, odd, set, Bool.or_false,
        Bool.or_true] at stands ⊢
    · linarith
    · constructor <;> linarith
    · constructor <;> linarith
    · constructor <;> linarith

theorem shiftRight (stands : StandsFor mantissa q) (count : ℕ) :
    StandsFor (mantissa >>> count) (q / 2 ^ count) := by
  induction count with
  | zero =>
    rw [pow_zero, div_one]
    exact stands
  | succ count ih =>
    have next := ih.shiftRightOne
    rwa [div_div, ← pow_succ] at next

end StandsFor

/-- The mantissas and exponents of double precision: 53 bits, of which the first is set unless the
exponent is the least. -/
structure Canonical (mantissa : ℕ) (exponent : ℤ) : Prop where
  lt : mantissa < 2 ^ 53
  le : -1074 ≤ exponent
  normal : 2 ^ 52 ≤ mantissa ∨ exponent = -1074

theorem targetExponent_binary64 (total : ℤ) :
    Format.binary64.targetExponent total = max (total - 53) (-1074) := rfl

theorem targetExponent_eq {mantissa : ℕ} {exponent : ℤ} {r : ℝ} (positive : 0 < r)
    (low : (mantissa : ℝ) ≤ r / 2 ^ exponent) (high : r / 2 ^ exponent < mantissa + 1)
    (tiny : mantissa = 0 → exponent ≤ -1074) :
    Format.binary64.targetExponent (totalExponent mantissa exponent) = ulpExponent r := by
  rw [targetExponent_binary64, totalExponent, ulpExponent]
  rw [div_lt_iff₀ (by positivity)] at high
  rw [le_div_iff₀ (by positivity)] at low
  rcases mantissa.eq_zero_or_pos with rfl | whole
  · have below : r < (2 : ℕ) ^ exponent := by simpa using high
    have log := (Int.lt_zpow_iff_log_lt (by decide) positive).mp below
    have least := tiny rfl
    simp only [Nat.log2_zero]
    omega
  · have first : (2 : ℝ) ^ mantissa.log2 ≤ mantissa := by
      exact_mod_cast Nat.log2_self_le whole.ne'
    have last : (mantissa : ℝ) + 1 ≤ 2 ^ (mantissa.log2 + 1) := by
      exact_mod_cast Nat.lt_log2_self
    have above : ((2 : ℕ) : ℝ) ^ (mantissa.log2 + exponent : ℤ) ≤ r := by
      rw [Nat.cast_ofNat, zpow_add₀ (by norm_num), zpow_natCast]
      exact (mul_le_mul_of_nonneg_right first (by positivity)).trans low
    have below : r < ((2 : ℕ) : ℝ) ^ ((mantissa.log2 + 1 : ℕ) + exponent : ℤ) := by
      rw [Nat.cast_ofNat, zpow_add₀ (by norm_num), zpow_natCast]
      exact high.trans_le (mul_le_mul_of_nonneg_right last (by positivity))
    have logLow := (Int.zpow_le_iff_le_log (by decide) positive).mp above
    have logHigh := (Int.lt_zpow_iff_log_lt (by decide) positive).mp below
    omega

theorem exists_canonical {mantissa : ℕ} {exponent : ℤ} (bound : mantissa ≤ 2 ^ 53)
    (least : -1074 ≤ exponent) (normal : 2 ^ 52 ≤ mantissa ∨ exponent = -1074) :
    ∃ m e, ((shiftToTargetExponent Format.binary64 mantissa exponent .exact).1.mantissa,
        (shiftToTargetExponent Format.binary64 mantissa exponent .exact).2) = (m, e) ∧
      Canonical m e ∧ (m : ℝ) * 2 ^ e = mantissa * 2 ^ exponent := by
  unfold shiftToTargetExponent shiftToExponent
  simp only [targetExponent_binary64, totalExponent]
  rcases bound.lt_or_eq with less | rfl
  · have bits : mantissa.log2 < 53 := by
      rcases mantissa.eq_zero_or_pos with rfl | whole
      · decide
      · exact (Nat.log2_lt whole.ne').mpr less
    have still : (max (mantissa.log2 + 1 + exponent - 53) (-1074) - exponent : ℤ).toNat = 0 := by
      omega
    rw [still]
    refine ⟨mantissa, exponent, ?_, ⟨less, least, normal⟩, rfl⟩
    simp only [Nat.cast_zero, add_zero]
    rfl
  · have once :
        (max (((2 ^ 53 : ℕ).log2 : ℤ) + 1 + exponent - 53) (-1074) - exponent).toNat = 1 := by
      rw [Nat.log2_two_pow]
      omega
    rw [once]
    refine ⟨2 ^ 52, exponent + 1, rfl, ⟨by decide, by omega, .inl le_rfl⟩, ?_⟩
    rw [zpow_add_one₀ (by norm_num)]
    push_cast
    ring

/-- What rounding makes of a mantissa that stands for an exact magnitude. -/
theorem roundWithAccuracy_cases {sign : Sign} {mantissa : ℕ} {exponent : ℤ} {accuracy : Accuracy}
    {r : ℝ} (positive : 0 < r)
    (stands : StandsFor (.ofMantissaAndAccuracy mantissa accuracy) (r / 2 ^ exponent))
    (fits : exponent ≤ ulpExponent r) (tiny : mantissa = 0 → exponent ≤ -1074) :
    (roundWithAccuracy Format.binary64 sign mantissa exponent accuracy = .zero sign ∧
      roundMagnitude r = 0) ∨
    ∃ m e nonzero, roundWithAccuracy Format.binary64 sign mantissa exponent accuracy =
        .finite sign m e nonzero ∧ Canonical m e ∧ (m : ℝ) * 2 ^ e = roundMagnitude r := by
  obtain ⟨low, high⟩ := (StandsFor.ofMantissaAndAccuracy_iff.mp stands).bounds
  have target : Format.binary64.targetExponent (totalExponent mantissa exponent) =
      ulpExponent r :=
    targetExponent_eq positive (by linarith) (by linarith) tiny
  have shifted := stands.shiftRight (ulpExponent r - exponent).toNat
  have scale : r / 2 ^ exponent / (2 : ℝ) ^ (ulpExponent r - exponent).toNat =
      r / 2 ^ ulpExponent r := by
    rw [div_div, ← zpow_natCast, Int.toNat_of_nonneg (by omega), ← zpow_add₀ (by norm_num)]
    congr 2
    omega
  rw [scale] at shifted
  have place : exponent + ((ulpExponent r - exponent).toNat : ℤ) = ulpExponent r := by omega
  have least : -1074 ≤ ulpExponent r := le_max_right _ _
  have normal : 2 ^ 52 ≤ nearestEven (r / 2 ^ ulpExponent r) ∨ ulpExponent r = -1074 := by
    rcases least.eq_or_lt with same | above
    · exact .inr same.symm
    · exact .inl (le_nearestEven_ulp positive above)
  obtain ⟨m, e, renormalized, canonical, same⟩ :=
    exists_canonical nearestEven_ulp_le least normal
  obtain ⟨finalMantissa, finalExponent⟩ := Prod.mk.inj renormalized
  have result : roundWithAccuracy Format.binary64 sign mantissa exponent accuracy =
      if nonzero : m = 0 then .zero sign else .finite sign m e (Nat.pos_of_ne_zero nonzero) := by
    unfold roundWithAccuracy
    simp only [shiftToTargetExponent.eq_1 Format.binary64 mantissa, target, shiftToExponent.eq_1
      mantissa, place, shifted.roundedMantissa]
    simp only [finalMantissa, finalExponent]
  by_cases zero : m = 0
  · left
    rw [result, dif_pos zero]
    refine ⟨rfl, ?_⟩
    rw [roundMagnitude, ← same, zero]
    simp
  · right
    exact ⟨m, e, Nat.pos_of_ne_zero zero, by rw [result, dif_neg zero], canonical, same⟩

end MethodFlow

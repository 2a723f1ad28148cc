import MethodFlow.Proofs.FloatRounding

/-! The encoding of double precision. Its sign, exponent field and fraction give the value of a
float and its place in the order, and a rounded number is packed without loss unless its exponent is
too large. -/
namespace MethodFlow

open Float.Model (Format UnpackedFloat)
open Float.Model.UnpackedFloat

theorem toNat_append_add {m n : ℕ} (high : BitVec m) (low : BitVec n) :
    (high ++ low).toNat = high.toNat * 2 ^ n + low.toNat := by
  rw [BitVec.toNat_append, ← Nat.shiftLeft_add_eq_or_of_lt low.isLt, Nat.shiftLeft_eq]

theorem toNat_unpackMantissa (bits : BitVec 64) :
    (@unpackMantissa Format.binary64 bits).toNat = bits.toNat % 2 ^ 52 := by
  simp [unpackMantissa]

theorem toNat_unpackExponent (bits : BitVec 64) :
    (@unpackExponent Format.binary64 bits).toNat = bits.toNat / 2 ^ 52 % 2 ^ 11 := by
  simp [unpackExponent, Nat.shiftRight_eq_div_pow]

theorem toNat_unpackSign (bits : BitVec 64) :
    (@unpackSign Format.binary64 bits).toNat = bits.toNat / 2 ^ 63 % 2 := by
  simp [unpackSign, Nat.shiftRight_eq_div_pow]

inductive Unpacks (sign : Sign) : ℕ → ℕ → UnpackedFloat → Prop
  | infinity : Unpacks sign 2047 0 (.infinity sign)
  | nan {fraction : ℕ} (nonzero : fraction ≠ 0) : Unpacks sign 2047 fraction .notANumber
  | zero : Unpacks sign 0 0 (.zero sign)
  | subnormal {fraction : ℕ} (positive : 0 < fraction) :
    Unpacks sign 0 fraction (.finite sign fraction (-1074) positive)
  | normal {field fraction : ℕ} (low : 0 < field) (high : field < 2047)
    (positive : 0 < 2 ^ 52 + fraction) :
    Unpacks sign field fraction (.finite sign (2 ^ 52 + fraction) (field - 1075) positive)

theorem unpacks (bits : BitVec 64) : Unpacks (Sign.ofBitVec (@unpackSign Format.binary64 bits))
    (@unpackExponent Format.binary64 bits).toNat (@unpackMantissa Format.binary64 bits).toNat
    (unpack Format.binary64 bits) := by
  by_cases greatest : @unpackExponent Format.binary64 bits = -1#11
  · have field : (@unpackExponent Format.binary64 bits).toNat = 2047 := by
      rw [greatest]
      rfl
    rw [field, unpack, if_pos greatest]
    by_cases whole : @unpackMantissa Format.binary64 bits = 0#52
    · rw [if_pos whole, whole]
      exact .infinity
    · rw [if_neg whole]
      exact .nan fun zero => whole (BitVec.eq_of_toNat_eq zero)
  by_cases least : @unpackExponent Format.binary64 bits = 0#11
  · have field : (@unpackExponent Format.binary64 bits).toNat = 0 := by
      rw [least]
      rfl
    by_cases whole : @unpackMantissa Format.binary64 bits = 0#52
    · rw [unpack, if_neg greatest, if_pos least, dif_pos whole, whole, field]
      exact .zero
    · rw [unpack, if_neg greatest, if_pos least, dif_neg whole, field]
      exact .subnormal (Nat.pos_of_ne_zero fun zero => whole (BitVec.eq_of_toNat_eq zero))
  · have low : 0 < (@unpackExponent Format.binary64 bits).toNat :=
      Nat.pos_of_ne_zero fun zero => least (BitVec.eq_of_toNat_eq zero)
    have high : (@unpackExponent Format.binary64 bits).toNat < 2047 := by
      have bound : (@unpackExponent Format.binary64 bits).toNat < 2048 := BitVec.isLt _
      have other : (@unpackExponent Format.binary64 bits).toNat ≠ 2047 := fun same =>
        greatest (BitVec.eq_of_toNat_eq same)
      omega
    have mantissa : (1#1 ++ @unpackMantissa Format.binary64 bits).toNat =
        2 ^ 52 + (@unpackMantissa Format.binary64 bits).toNat := toNat_append_add _ _
    rw [unpack, if_neg greatest, if_neg least]
    simp only [mantissa]
    exact .normal low high _

namespace Unpacks

variable {sign : Sign} {field fraction : ℕ} {number : UnpackedFloat}

theorem eq_normal (unpacks : Unpacks sign field fraction number) (low : 0 < field)
    (high : field < 2047) :
    ∃ positive, number = .finite sign (2 ^ 52 + fraction) (field - 1075) positive := by
  cases unpacks with
  | infinity => omega
  | nan => omega
  | zero => omega
  | subnormal => omega
  | normal low high positive => exact ⟨positive, rfl⟩

theorem eq_subnormal (unpacks : Unpacks sign 0 fraction number) (nonzero : 0 < fraction) :
    number = .finite sign fraction (-1074) nonzero := by
  cases unpacks with
  | zero => omega
  | subnormal => rfl
  | normal => omega

end Unpacks

theorem unpacks_packComponents (sign : Sign) (field : BitVec 11) (fraction : BitVec 52) :
    Unpacks sign field.toNat fraction.toNat
      (unpack Format.binary64 (packComponents Format.binary64 sign field fraction)) := by
  have read := unpacks (packComponents Format.binary64 sign field fraction)
  rwa [unpackSign_packComponents, Sign.ofBitVec_toBitVec, unpackExponent_packComponents,
    unpackMantissa_packComponents] at read

theorem unpack_pack_infinity (sign : Sign) :
    unpack Format.binary64 (pack Format.binary64 (.infinity sign)) = .infinity sign := by
  simp [unpack, pack, packedInfinity]

/-- A rounded number is packed without loss, unless its exponent is too large. -/
theorem unpack_pack_finite {sign : Sign} {mantissa : ℕ} {exponent : ℤ} (nonzero : 0 < mantissa)
    (canonical : Canonical mantissa exponent) :
    unpack Format.binary64 (pack Format.binary64 (.finite sign mantissa exponent nonzero)) =
      if exponent ≤ 971 then .finite sign mantissa exponent nonzero else .infinity sign := by
  obtain ⟨lt, le, normal⟩ := canonical
  have biased : (exponent + Format.binary64.exponentBias +
      Format.binary64.mantissaBitsWithoutImplicit).toNat = (exponent + 1075).toNat := by
    change (exponent + 1023 + 52).toNat = _
    omega
  have bits : Format.binary64.mantissaBits = 53 := rfl
  simp only [pack, biased, bits]
  by_cases large : exponent ≤ 971
  · rw [if_pos large, if_neg (by change ¬2048 ≤ _; omega)]
    by_cases full : 2 ^ 52 ≤ mantissa
    · have log : mantissa.log2 + 1 = 53 := by
        rw [(Nat.log2_eq_iff nonzero.ne').mpr ⟨full, lt⟩]
      have field : (BitVec.ofNat 11 (exponent + 1075).toNat).toNat = (exponent + 1075).toNat := by
        rw [BitVec.toNat_ofNat]
        omega
      have fraction : (BitVec.ofNat 52 mantissa).toNat = mantissa - 2 ^ 52 := by
        rw [BitVec.toNat_ofNat]
        omega
      have read := unpacks_packComponents sign (BitVec.ofNat 11 (exponent + 1075).toNat)
        (BitVec.ofNat 52 mantissa)
      rw [field, fraction] at read
      obtain ⟨_, found⟩ := read.eq_normal (by omega) (by omega)
      have whole : 2 ^ 52 + (mantissa - 2 ^ 52) = mantissa := by omega
      have place : ((exponent + 1075).toNat : ℤ) - 1075 = exponent := by omega
      rw [if_pos log]
      refine found.trans ?_
      simp only [whole, place]
    · have log : mantissa.log2 + 1 ≠ 53 := by
        have less := (Nat.log2_lt nonzero.ne').mpr (not_le.mp full)
        omega
      have fraction : (BitVec.ofNat 52 mantissa).toNat = mantissa :=
        (BitVec.toNat_ofNat ..).trans (Nat.mod_eq_of_lt (not_le.mp full))
      have read := unpacks_packComponents sign 0#11 (BitVec.ofNat 52 mantissa)
      rw [fraction, BitVec.toNat_ofNat, Nat.zero_mod] at read
      rw [if_neg log]
      refine (read.eq_subnormal nonzero).trans ?_
      rw [normal.resolve_left full]
  · rw [if_neg large, if_pos (by change 2048 ≤ _; omega)]
    exact unpack_pack_infinity sign

/-- The place of a magnitude in the order of its format. -/
inductive Ranked : ℕ → EReal → Prop
  | finite {mantissa : ℕ} {exponent : ℤ} (canonical : Canonical mantissa exponent)
    (small : exponent ≤ 971) :
    Ranked ((exponent + 1074).toNat * 2 ^ 52 + mantissa) ((mantissa * 2 ^ exponent : ℝ) : EReal)
  | infinite : Ranked (2047 * 2 ^ 52) ⊤

namespace Ranked

variable {k l : ℕ} {p q : EReal}

theorem zero : Ranked 0 0 := by
  have canonical : Canonical 0 (-1074) := ⟨by decide, le_rfl, .inr rfl⟩
  simpa using Ranked.finite canonical (by decide)

theorem nonneg (ranked : Ranked k p) : 0 ≤ p := by
  cases ranked with
  | finite => exact EReal.coe_nonneg.mpr (by positivity)
  | infinite => exact le_top

end Ranked

theorem Canonical.lt_of_exponent_lt {m n : ℕ} {e f : ℤ} (first : Canonical m e)
    (second : Canonical n f) (less : e < f) :
    (e + 1074).toNat * 2 ^ 52 + m < (f + 1074).toNat * 2 ^ 52 + n ∧
      (m * 2 ^ e : ℝ) < n * 2 ^ f := by
  have least := first.le
  have full : 2 ^ 52 ≤ n := second.normal.resolve_right (by omega)
  have bound := first.lt
  refine ⟨by omega, ?_⟩
  have low : (m : ℝ) < 2 ^ 53 := by exact_mod_cast bound
  have high : (2 : ℝ) ^ 52 ≤ n := by exact_mod_cast full
  calc (m : ℝ) * 2 ^ e < 2 ^ 53 * 2 ^ e := by gcongr
    _ = 2 ^ 52 * 2 ^ (e + 1) := by
      rw [zpow_add_one₀ (by norm_num)]
      ring
    _ ≤ 2 ^ 52 * 2 ^ f := by
      gcongr
      · norm_num
      · exact less
    _ ≤ n * 2 ^ f := by gcongr

theorem Canonical.le_iff {m n : ℕ} {e f : ℤ} (first : Canonical m e) (second : Canonical n f) :
    (e + 1074).toNat * 2 ^ 52 + m ≤ (f + 1074).toNat * 2 ^ 52 + n ↔
      (m * 2 ^ e : ℝ) ≤ n * 2 ^ f := by
  rcases lt_trichotomy e f with less | rfl | more
  · obtain ⟨place, value⟩ := first.lt_of_exponent_lt second less
    exact ⟨fun _ => value.le, fun _ => place.le⟩
  · rw [Nat.add_le_add_iff_left, mul_le_mul_iff_left₀ (by positivity), Nat.cast_le]
  · obtain ⟨place, value⟩ := second.lt_of_exponent_lt first more
    exact ⟨fun below => absurd below place.not_ge, fun below => absurd below value.not_ge⟩

theorem Ranked.le_iff {k l : ℕ} {p q : EReal} (first : Ranked k p) (second : Ranked l q) :
    k ≤ l ↔ p ≤ q := by
  cases first with
  | finite canonical small =>
    have bound := canonical.lt
    have least := canonical.le
    cases second with
    | finite canonical' _ => rw [canonical.le_iff canonical', EReal.coe_le_coe_iff]
    | infinite => exact ⟨fun _ => le_top, fun _ => by omega⟩
  | infinite =>
    cases second with
    | finite canonical small =>
      have bound := canonical.lt
      have least := canonical.le
      refine ⟨fun below => by omega, fun below => ?_⟩
      exact absurd (top_le_iff.mp below) (EReal.coe_ne_top _)
    | infinite => simp

/-- Numbers are ordered as their places, with the sign taken into account. -/
theorem Ranked.signed_le_iff {k l : ℕ} {p q : EReal} (first : Ranked k p) (second : Ranked l q)
    (sign sign' : Sign) :
    sign.apply k ≤ sign'.apply l ↔ signed sign p ≤ signed sign' q := by
  have zeroFirst := first.le_iff Ranked.zero
  have zeroSecond := second.le_iff Ranked.zero
  have nonneg := first.nonneg
  have nonneg' := second.nonneg
  cases sign <;> cases sign' <;> simp only [Sign.apply, signed]
  · rw [EReal.neg_le_neg_iff, ← second.le_iff first]
    omega
  · refine ⟨fun _ => (EReal.neg_le_zero.mpr nonneg).trans nonneg', fun _ => by omega⟩
  · constructor
    · intro below
      have low : p ≤ 0 := zeroFirst.mp (by omega)
      have high : q ≤ 0 := zeroSecond.mp (by omega)
      exact low.trans (EReal.neg_nonneg.mpr high)
    · intro below
      have low : k ≤ 0 := zeroFirst.mpr (below.trans (EReal.neg_le_zero.mpr nonneg'))
      have high : l ≤ 0 := zeroSecond.mpr (EReal.neg_nonneg.mp (nonneg.trans below))
      omega
  · rw [← first.le_iff second]
    omega

theorem Unpacks.ranked {sign : Sign} {field fraction : ℕ} {number : UnpackedFloat}
    (unpacks : Unpacks sign field fraction number) (bound : fraction < 2 ^ 52)
    (proper : number.isNaN = false) :
    ∃ p, Ranked (field * 2 ^ 52 + fraction) p ∧ unpackedValue number = some (signed sign p) := by
  cases unpacks with
  | infinity => exact ⟨⊤, .infinite, rfl⟩
  | nan => cases proper
  | zero =>
    refine ⟨0, .zero, ?_⟩
    cases sign <;> simp [unpackedValue, signed]
  | subnormal positive =>
    have canonical : Canonical fraction (-1074) := ⟨by omega, le_rfl, .inr rfl⟩
    have ranked := Ranked.finite canonical (by decide)
    exact ⟨_, by simpa using ranked, rfl⟩
  | normal low high positive =>
    have canonical : Canonical (2 ^ 52 + fraction) (field - 1075) :=
      ⟨by omega, by omega, .inl (by omega)⟩
    have place : ((field - 1075 + 1074 : ℤ)).toNat * 2 ^ 52 + (2 ^ 52 + fraction) =
        field * 2 ^ 52 + fraction := by omega
    exact ⟨_, place ▸ Ranked.finite canonical (by omega), rfl⟩

theorem Unpacks.canonical {sign sign' : Sign} {field fraction mantissa : ℕ} {exponent : ℤ}
    {positive : 0 < mantissa} (bound : fraction < 2 ^ 52)
    (unpacks : Unpacks sign field fraction (.finite sign' mantissa exponent positive)) :
    Canonical mantissa exponent := by
  cases unpacks with
  | subnormal => exact ⟨by omega, le_rfl, .inr rfl⟩
  | normal => exact ⟨by omega, by omega, .inl (by omega)⟩

noncomputable def doubleValue (x : Float) : Option EReal := unpackedValue x.toModel.unpack

theorem unpackedValue_eq_none {number : UnpackedFloat} :
    unpackedValue number = none ↔ number.isNaN = true := by
  cases number <;> simp [unpackedValue, UnpackedFloat.isNaN]

theorem sign_of_bits (bits : BitVec 64) : Sign.ofBitVec (@unpackSign Format.binary64 bits) =
    if bits.toNat < 2 ^ 63 then .positive else .negative := by
  have first := toNat_unpackSign bits
  have size := bits.isLt
  by_cases positive : bits.toNat < 2 ^ 63
  · have clear : @unpackSign Format.binary64 bits = 0#1 :=
      BitVec.eq_of_toNat_eq (by rw [first, BitVec.toNat_ofNat]; omega)
    rw [if_pos positive, clear]
    rfl
  · have set : @unpackSign Format.binary64 bits ≠ 0#1 := by
      intro clear
      rw [clear, BitVec.toNat_ofNat] at first
      omega
    rw [if_neg positive, Sign.ofBitVec, if_neg set]

theorem unpacks_float (x : Float) : ∃ sign field fraction,
    Unpacks sign field fraction x.toModel.unpack ∧ fraction < 2 ^ 52 ∧
      floatRank x = sign.apply (field * 2 ^ 52 + fraction : ℕ) := by
  have read := unpacks x.toModel.toBits.toBitVec
  rw [toNat_unpackExponent, toNat_unpackMantissa, sign_of_bits] at read
  refine ⟨_, _, _, read, Nat.mod_lt _ (Nat.two_pow_pos 52), ?_⟩
  have size : x.toBits.toNat < 2 ^ 64 := x.toBits.toNat_lt
  change floatRank x = (if x.toBits.toNat < 2 ^ 63 then Sign.positive else .negative).apply
    (x.toBits.toNat / 2 ^ 52 % 2 ^ 11 * 2 ^ 52 + x.toBits.toNat % 2 ^ 52 : ℕ)
  unfold floatRank
  generalize x.toBits.toNat = bits at size
  split_ifs <;> simp only [Sign.apply] <;> omega

theorem le_float_iff_value {x y : Float} : FloatFormat.le x y = true ↔
    ∃ p q, doubleValue x = some p ∧ doubleValue y = some q ∧ p ≤ q := by
  obtain ⟨sign, field, fraction, unpacksX, boundX, rankX⟩ := unpacks_float x
  obtain ⟨sign', field', fraction', unpacksY, boundY, rankY⟩ := unpacks_float y
  rw [le_float_iff, rankX, rankY]
  constructor
  · rintro ⟨properX, properY, below⟩
    obtain ⟨p, rankedX, valueX⟩ := unpacksX.ranked boundX properX
    obtain ⟨q, rankedY, valueY⟩ := unpacksY.ranked boundY properY
    exact ⟨_, _, valueX, valueY, (rankedX.signed_le_iff rankedY sign sign').mp below⟩
  · rintro ⟨p, q, valueX, valueY, below⟩
    have proper : ∀ {z : Float} {r}, doubleValue z = some r → z.isNaN = false := by
      intro z r value
      rw [← Bool.not_eq_true]
      intro nan
      cases (unpackedValue_eq_none.mpr nan).symm.trans value
    obtain ⟨p', rankedX, valueX'⟩ := unpacksX.ranked boundX (proper valueX)
    obtain ⟨q', rankedY, valueY'⟩ := unpacksY.ranked boundY (proper valueY)
    cases valueX.symm.trans valueX'
    cases valueY.symm.trans valueY'
    exact ⟨proper valueX, proper valueY, (rankedX.signed_le_iff rankedY sign sign').mpr below⟩

end MethodFlow

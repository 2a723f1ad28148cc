import MethodFlow.Proofs.Denotation
import MethodFlow.Proofs.KindRanges
import MethodFlow.Proofs.TightRanges

/-! Negation, conversions between integers and the comparison of longs, against what they do to the
bits of words. Each range holds the results for all members of its operands. A conversion leaves a
range that fits its kind as it is and makes any other one full, and a comparison gives the smallest
range that there is. -/
namespace MethodFlow

def integerConversions : List (Conversion × IntKind) :=
  (.i2l, .long) :: (.l2i, .int) :: Interval.narrowings

/-- What a conversion between integers makes of the bits of a word: it keeps the low ones and
extends them by their sign, or those of a char by zeros. -/
def Conversion.onBits (conversion : Conversion) (value : Int) : Int :=
  match conversion with
  | .i2l => ((BitVec.ofInt 32 value).signExtend 64).toInt
  | .l2i => ((BitVec.ofInt 64 value).setWidth 32).toInt
  | .i2b => (((BitVec.ofInt 32 value).setWidth 8).signExtend 32).toInt
  | .i2c => (((BitVec.ofInt 32 value).setWidth 16).zeroExtend 32).toInt
  | .i2s => (((BitVec.ofInt 32 value).setWidth 16).signExtend 32).toInt
  | _ => value

theorem Conversion.onBits_narrow {conversion : Conversion} {kind : IntKind}
    (narrow : (conversion, kind) ∈ Interval.narrowings) (x : Int) :
    conversion.onBits x = Word.converted conversion x := by
  simp only [Interval.narrowings, List.mem_cons, Prod.mk.injEq, List.not_mem_nil,
    or_false] at narrow
  rcases narrow with ⟨rfl, -⟩ | ⟨rfl, -⟩ | ⟨rfl, -⟩
  · rw [onBits, BitVec.toInt_signExtend_of_le (by decide), BitVec.toInt_setWidth,
      BitVec.toNat_ofInt]
    simp only [Word.converted, Int.bmod, Nat.reducePow]
    omega
  · rw [onBits, BitVec.zeroExtend, BitVec.toInt_setWidth, BitVec.toNat_setWidth,
      BitVec.toNat_ofInt]
    simp only [Word.converted, Int.bmod, Nat.reducePow]
    omega
  · rw [onBits, BitVec.toInt_signExtend_of_le (by decide), BitVec.toInt_setWidth,
      BitVec.toNat_ofInt]
    simp only [Word.converted, Int.bmod, Nat.reducePow]
    omega

theorem Conversion.onBits_kept {conversion : Conversion} {kind : IntKind} {width : Width} {x : Int}
    (among : (conversion, kind) ∈ integerConversions)
    (source : conversion.source = .integral width) (fits : width.Fits x) :
    kind.fullRange.contains (conversion.onBits x) = true ∧
      (kind.fullRange.contains x = true → conversion.onBits x = x) := by
  simp only [integerConversions, List.mem_cons, Prod.mk.injEq] at among
  rcases among with ⟨rfl, rfl⟩ | ⟨rfl, rfl⟩ | narrow
  · cases source
    have bits : Conversion.i2l.onBits x = x := by
      have word := IntRange.toInt_ofInt_of_fits fits
      rw [onBits, BitVec.toInt_signExtend_of_le (by decide)]
      exact word
    rw [bits]
    exact ⟨Width.contains_fullRange.mpr (IntRange.fits_long_of_fits fits), fun _ => rfl⟩
  · have bits : Conversion.l2i.onBits x = Width.int.wrap x := by
      rw [onBits, BitVec.toInt_setWidth, BitVec.toNat_ofInt]
      simp only [Width.wrap, Width.bits, Int.bmod, Nat.reducePow]
      omega
    rw [bits]
    exact ⟨Width.contains_fullRange.mpr (Width.wrap_fits .int x),
      fun member => Width.wrap_of_fits (Width.contains_fullRange.mp member)⟩
  · rw [onBits_narrow narrow]
    exact Interval.converted_narrow narrow x

namespace IntRange

theorem covers_singleton {range : IntRange} {value : Int} :
    range.covers (singleton value) = true ↔ range.contains value = true := by
  cases range <;> simp [covers, singleton, contains]

theorem clamped_fullRange {kind : IntKind} {low high : Int} (ordered : low ≤ high) :
    clamped low high kind.fullRange =
      if kind.fullRange.covers (span low high ordered) then span low high ordered
      else kind.fullRange := by
  have zero : kind.fullRange.contains 0 = true := by cases kind <;> rfl
  obtain ⟨least, greatest, bounds, full, _⟩ := span_of_contains zero
  have narrow {x : Int} (above : least ≤ x) (below : x ≤ greatest) : signedWord x = x := by
    have member : kind.fullRange.contains x = true := by
      rw [full]
      exact contains_span.mpr ⟨above, below⟩
    exact Width.wrap_of_fits (narrow_fullRange member)
  by_cases inside : least ≤ low ∧ high ≤ greatest
  · have kept : ¬(low < least ∨ greatest < high) := by omega
    have lowest := narrow inside.1 (Int.le_trans ordered inside.2)
    have highest := narrow (Int.le_trans inside.1 ordered) inside.2
    simp [full, clamped, inside, kept, lowest, highest, between, ordered]
  · have leaves : low < least ∨ greatest < high := by omega
    simp [full, clamped, inside, leaves]

/-- The results of a three-way comparison of the members of two ranges. -/
def Compares (left right : IntRange) (sign : Int) : Prop :=
  ∃ x y, left.contains x = true ∧ right.contains y = true ∧ sign = (x - y).sign

theorem covers_possible {orderings : Orderings} {other : IntRange}
    (below : orderings.below = true → other.contains (-1) = true)
    (same : orderings.same = true → other.contains 0 = true)
    (above : orderings.above = true → other.contains 1 = true) :
    other.covers (orderings.signs none) = true := by
  obtain ⟨less, equal, more⟩ := orderings
  cases less <;> cases equal <;> cases more <;>
    simp_all [Orderings.signs, covers_hull, covers_singleton]

theorem compare_tightest (left right : IntRange) :
    (left.compare right).Tightest (left.Compares right) where
  holds := by
    rintro sign ⟨x, y, inLeft, inRight, rfl⟩
    exact contains_compare inLeft inRight
  least := by
    intro other holding
    cases left with
    | empty => exact covers_empty other
    | span a b ab =>
      cases right with
      | empty => exact covers_empty other
      | span c d cd =>
        have sign {x y : Int} (inLeft : a ≤ x ∧ x ≤ b) (inRight : c ≤ y ∧ y ≤ d) :
            other.contains (x - y).sign = true :=
          holding _ ⟨x, y, contains_span.mpr inLeft, contains_span.mpr inRight, rfl⟩
        rw [compare]
        refine covers_possible ?_ ?_ ?_
        · intro possible
          have less : a - d < 0 := by simpa using possible
          rw [← Int.sign_eq_neg_one_of_neg less]
          exact sign ⟨Int.le_refl a, ab⟩ ⟨cd, Int.le_refl d⟩
        · intro possible
          have common : a ≤ d ∧ c ≤ b := by simpa using possible
          have equal : (max a c - max a c).sign = 0 := by simp
          rw [← equal]
          exact sign (by omega) (by omega)
        · intro possible
          have more : 0 < b - c := by simpa using possible
          rw [← Int.sign_eq_one_of_pos more]
          exact sign ⟨ab, Int.le_refl b⟩ ⟨Int.le_refl c, cd⟩

theorem exists_compares {left right : IntRange} :
    (∃ sign, left.Compares right sign) ↔ left.isEmpty = false ∧ right.isEmpty = false := by
  constructor
  · rintro ⟨sign, x, y, inLeft, inRight, -⟩
    obtain ⟨a, b, ab, rfl, -⟩ := span_of_contains inLeft
    obtain ⟨c, d, cd, rfl, -⟩ := span_of_contains inRight
    exact ⟨rfl, rfl⟩
  · rintro ⟨someLeft, someRight⟩
    cases left with
    | empty => cases someLeft
    | span a b ab =>
      cases right with
      | empty => cases someRight
      | span c d cd =>
        exact ⟨_, a, c, contains_span.mpr ⟨Int.le_refl a, ab⟩,
          contains_span.mpr ⟨Int.le_refl c, cd⟩, rfl⟩

theorem compare_isEmpty (left right : IntRange) :
    (left.compare right).isEmpty = true ↔ left.isEmpty = true ∨ right.isEmpty = true := by
  rw [(compare_tightest left right).isEmpty_iff, exists_compares]
  simp only [not_and_or, Bool.not_eq_false]

theorem contains_negate {width : Width} {range : IntRange} {x : Int}
    (member : range.contains x = true) :
    (range.negate width.kind.fullRange).contains (-BitVec.ofInt width.bits x).toInt = true := by
  have wrapped : (-BitVec.ofInt width.bits x).toInt = width.wrap (-x) := by
    rw [← BitVec.ofInt_neg, BitVec.toInt_ofInt]
    rfl
  obtain ⟨low, high, ordered, rfl, above, below⟩ := span_of_contains member
  rw [wrapped, negate, Width.fullRange_kind]
  exact contains_clamped_wrap width (by omega) (by omega)

end IntRange

namespace Interval

theorem convert_empty {conversion : Conversion} {kind k : IntKind} {width : Width}
    (among : (conversion, kind) ∈ integerConversions)
    (source : conversion.source = .integral width) (read : k.category = width.kind.category) :
    ∃ made, convert conversion (integral k .empty) = .ok (integral made .empty) := by
  simp only [convert, source, integralOperand_ok _ _ read]
  simp only [integerConversions, narrowings, List.mem_cons, Prod.mk.injEq, List.not_mem_nil,
    or_false] at among
  rcases among with ⟨rfl, -⟩ | ⟨rfl, -⟩ | ⟨rfl, -⟩ | ⟨rfl, -⟩ | ⟨rfl, -⟩ <;> exact ⟨_, rfl⟩

theorem convertIntegers_eq {conversion : Conversion} {kind : IntKind} {width : Width}
    {low high : Int} (ordered : low ≤ high) (among : (conversion, kind) ∈ integerConversions)
    (source : conversion.source = .integral width) (least : width.Fits low)
    (greatest : width.Fits high) :
    convertIntegers conversion low high =
      integral kind (if kind.fullRange.covers (.span low high ordered) then .span low high ordered
        else kind.fullRange) := by
  simp only [integerConversions, narrowings, List.mem_cons, Prod.mk.injEq, List.not_mem_nil,
    or_false] at among
  rcases among with ⟨rfl, rfl⟩ | ⟨rfl, rfl⟩ | ⟨rfl, rfl⟩ | ⟨rfl, rfl⟩ | ⟨rfl, rfl⟩
  · -- every int is a long, so nothing has to be cut
    cases source
    have span : IntRange.between low high = .span low high ordered := dif_pos ordered
    have words := IntRange.covers_words (IntRange.fits_long_of_fits least)
      (IntRange.fits_long_of_fits greatest)
    rw [← Width.fullRange_kind, span] at words
    have inside : IntKind.long.fullRange.covers (.span low high ordered) = true := words
    change integral .long (.between low high) = _
    rw [span, if_pos inside]
  all_goals
    rw [← IntRange.clamped_fullRange ordered]
    rfl

theorem contains_onBits {conversion : Conversion} {kind : IntKind} {width : Width}
    {range : IntRange} {x : Int} (among : (conversion, kind) ∈ integerConversions)
    (source : conversion.source = .integral width)
    (words : (IntRange.signed width.bits).covers range = true)
    (member : range.contains x = true) :
    (if kind.fullRange.covers range then range else kind.fullRange).contains
      (conversion.onBits x) = true := by
  obtain ⟨inside, kept⟩ :=
    Conversion.onBits_kept among source (IntRange.fits_of_covers words member)
  split
  · rename_i fits
    rw [kept ((IntRange.covers_iff _ _).mp fits x member)]
    exact member
  · exact inside

/-- Negation and the conversions between integers hold what they make of the bits of each member.
A conversion leaves a range that fits its kind as it is, and makes any other one full. The
comparison of two longs gives the smallest range with the signs of all differences of members, which
is empty exactly if an operand is. -/
theorem conversions_sound_comparison_tight :
    (∀ (width : Width) (k : IntKind) (range : IntRange), k.category = width.kind.category →
      ∃ negated, negate (.integral width) (integral k range) = .ok (integral width.kind negated) ∧
        ∀ x, range.contains x = true →
          negated.contains (-BitVec.ofInt width.bits x).toInt = true) ∧
    (∀ (conversion : Conversion) (kind : IntKind) (width : Width) (k : IntKind) (range : IntRange),
      (conversion, kind) ∈ integerConversions → conversion.source = .integral width →
      k.category = width.kind.category → (integral k range).InKind →
      ∃ made converted, convert conversion (integral k range) = .ok (integral made converted) ∧
        (∀ x, range.contains x = true → converted.contains (conversion.onBits x) = true) ∧
        (range.isEmpty = false → made = kind) ∧
        converted = if kind.fullRange.covers range then range else kind.fullRange) ∧
    ∀ left right : IntRange, ∃ signs,
      compare .lcmp (integral .long left) (integral .long right) = .ok (integral .int signs) ∧
        signs.Tightest (left.Compares right) ∧
        (signs.isEmpty = true ↔ left.isEmpty = true ∨ right.isEmpty = true) := by
  refine ⟨?_, ?_, ?_⟩
  · intro width k range read
    exact ⟨_, negate_integral range read, fun x member => IntRange.contains_negate member⟩
  · intro conversion kind width k range among source read inKind
    have words : (IntRange.signed width.bits).covers range = true :=
      inKind.operand (integralOperand_ok "convert" range read)
    cases range with
    | empty =>
      obtain ⟨made, done⟩ := convert_empty among source read
      refine ⟨made, .empty, done, fun x member => ?_, fun inhabited => ?_, ?_⟩
      · cases member
      · cases inhabited
      · rw [if_pos (IntRange.covers_empty _)]
    | span low high ordered =>
      obtain ⟨least, greatest⟩ := IntRange.fits_bounds words
      have done := convertIntegers_eq ordered among source least greatest
      exact ⟨kind, _, (convert_integral source read).trans (congrArg Except.ok done),
        fun x member => contains_onBits among source words member, fun _ => rfl, rfl⟩
  · intro left right
    exact ⟨left.compare right, rfl, IntRange.compare_tightest left right,
      IntRange.compare_isEmpty left right⟩

/-- The bits of minus one make the greatest char, and longs that touch may be less or the same. -/
theorem conversions_sound_comparison_tight_touching :
    convert .i2c (integral .byte (.between (-1) 5)) = .ok (integral .char IntKind.char.fullRange) ∧
      IntKind.char.fullRange.contains (Conversion.i2c.onBits (-1)) = true ∧
      compare .lcmp (integral .long (.between 0 5)) (integral .long (.between 5 9)) =
        .ok (integral .int (.between (-1) 0)) ∧
      (IntRange.between (-1) 0).Tightest ((IntRange.between 0 5).Compares (.between 5 9)) := by
  obtain ⟨_, conversions, comparisons⟩ := conversions_sound_comparison_tight
  have inKind : IntKind.byte.fullRange.covers (.between (-1) 5) = true := rfl
  obtain ⟨made, converted, done, sound, isChar, full⟩ :=
    conversions .i2c .char .int .byte (.between (-1) 5) (by decide) rfl rfl inKind
  obtain ⟨signs, compared, tightest, _⟩ := comparisons (.between 0 5) (.between 5 9)
  cases compared
  obtain rfl := isChar rfl
  have whole : converted = IntKind.char.fullRange := full
  rw [whole] at done sound
  exact ⟨done, sound (-1) (by decide), rfl, tightest⟩

end Interval

end MethodFlow

import MethodFlow.Frame.Transition
import MethodFlow.Interval.Domain
import MethodFlow.Proofs.Machine
import MethodFlow.Proofs.RangeArithmetic

/-! Interval values that denote a word of the concrete machine, possibly among others or as the only
one. Every operation of the domain keeps the denoted word in its result. It keeps it as the only one
where the machine's own result is not cut, so that nothing has to be widened. -/
namespace MethodFlow

namespace IntRange

theorem singleton_of_fits {full : IntRange} {value : Int}
    (narrow : ∀ x, full.contains x = true → Width.long.Fits x)
    (inside : full.contains value = true) : clamped value value full = singleton value := by
  have kept : signedWord value = value := Width.wrap_of_fits (narrow value inside)
  obtain ⟨least, greatest, ordered, rfl, above, below⟩ := span_of_contains inside
  simp only [clamped, kept]
  rw [if_neg (by simp; omega), between, dif_pos (Int.le_refl value)]
  rfl

theorem clamped_singleton {width : Width} {value : Int} (fits : width.Fits value) :
    clamped value value (signed width.bits) = singleton value :=
  singleton_of_fits (fun _ member => fits_long_of_fits (contains_signed.mp member))
    (contains_signed.mpr fits)

theorem nonzeroParts_single {c : Int} (nonzero : c ≠ 0) : nonzeroParts c c = [(c, c)] := by
  rcases Int.lt_or_gt_of_ne nonzero with negative | positive
  · have low : c ≤ -1 := by omega
    have high : ¬1 ≤ c := by omega
    simp [nonzeroParts, low, high]
  · have low : ¬c ≤ -1 := by omega
    have high : 1 ≤ c := by omega
    simp [nonzeroParts, low, high]

theorem fits_tmod {width : Width} {x y : Int} (nonzero : y ≠ 0) (fits : width.Fits x) :
    width.Fits (x.tmod y) := by
  have bounds := tmod_bounds (x := x) nonzero
  unfold Width.Fits at *
  omega

theorem arithmetic_singleton {width : Width} {op : ArithmeticOp} {x y value : Int}
    (fitsLeft : width.Fits x) (fitsRight : op.isShift = false → width.Fits y)
    (computed : width.result op x y = some value)
    (uncut : op.mayOverflow = true → width.Fits value) :
    (singleton x).arithmetic op width.bits (singleton y) = singleton (width.wrap value) := by
  cases op with
  | add =>
    cases computed
    have fits := uncut rfl
    rw [Width.wrap_of_fits fits]
    exact clamped_singleton fits
  | sub =>
    cases computed
    have fits := uncut rfl
    rw [Width.wrap_of_fits fits]
    exact clamped_singleton fits
  | mul =>
    cases computed
    have fits := uncut rfl
    rw [Width.wrap_of_fits fits]
    simpa [arithmetic, singleton, corners] using clamped_singleton fits
  | div =>
    simp only [Width.result, Option.ite_none_left_eq_some, Option.some.injEq] at computed
    obtain ⟨nonzero, rfl⟩ := computed
    have fits := uncut rfl
    rw [Width.wrap_of_fits fits]
    simpa [arithmetic, singleton, quotient, nonzeroParts_single nonzero, corners, hull]
      using clamped_singleton fits
  | rem =>
    simp only [Width.result, Option.ite_none_left_eq_some, Option.some.injEq] at computed
    obtain ⟨nonzero, rfl⟩ := computed
    have fits := fits_tmod nonzero fitsLeft
    rw [Width.wrap_of_fits fits]
    simpa [arithmetic, singleton, remainder, nonzeroParts_single nonzero]
      using clamped_singleton fits
  | shl | shr | ushr =>
    have word := shiftWord_computed rfl fitsLeft computed
    simp [arithmetic, singleton, shift, single?, word]
  | and | or | xor =>
    have word := bitwiseWord_computed (by simp) fitsLeft (fitsRight rfl) computed
    have fits := fits_bitwise (by simp) computed
    rw [Width.wrap_of_fits fits]
    simp [arithmetic, singleton, bitwise, single?, word]

theorem narrow_fullRange {kind : IntKind} {x : Int} (member : kind.fullRange.contains x = true) :
    Width.long.Fits x := by
  rw [Width.fits_long]
  cases kind <;> simp [IntKind.fullRange, signed] at member <;> omega

theorem fits_int_of_narrow {kind : IntKind} {x : Int} (single : kind.category = .one)
    (member : kind.fullRange.contains x = true) : Width.int.Fits x := by
  rw [Width.fits_int]
  cases kind with
  | long => cases single
  | int | short | byte | char | boolean =>
    simp [IntKind.fullRange, signed] at member
    omega

theorem compare_singleton (x y : Int) :
    (singleton x).compare (singleton y) = singleton (x - y).sign := by
  simp only [compare, singleton, Orderings.signs]
  rcases Int.lt_trichotomy x y with less | rfl | greater
  · have sign : (x - y).sign = -1 := Int.sign_eq_neg_one_of_neg (by omega)
    have notLess : ¬y < x := by omega
    have different : ¬(x ≤ y ∧ y ≤ x) := by omega
    simp [less, notLess, different, sign]
  · simp [hull]
  · have sign : (x - y).sign = 1 := Int.sign_eq_one_of_pos (by omega)
    have notLess : ¬x < y := by omega
    have different : ¬(x ≤ y ∧ y ≤ x) := by omega
    simp [greater, notLess, different, sign, hull]

theorem contains_compare {left right : IntRange} {x y : Int} (inLeft : left.contains x = true)
    (inRight : right.contains y = true) :
    (left.compare right).contains (x - y).sign = true := by
  obtain ⟨a, b, ab, rfl, boundsLeft⟩ := span_of_contains inLeft
  obtain ⟨c, d, cd, rfl, boundsRight⟩ := span_of_contains inRight
  simp only [compare, Orderings.signs]
  rcases Int.lt_trichotomy x y with less | rfl | greater
  · have possible : a < d := by omega
    rw [Int.sign_eq_neg_one_of_neg (by omega)]
    simp only [possible, decide_true]
    split <;> split <;> simp [contains_hull]
  · have possible : a ≤ d ∧ c ≤ b := by omega
    simp [possible]
    split <;> split <;> simp [contains_hull]
  · have possible : c < b := by omega
    rw [Int.sign_eq_one_of_pos (by omega)]
    simp [possible, contains_hull]

end IntRange

namespace Interval

theorem pair_integral {k l : IntKind} (category : k.category = l.category) (operation : String)
    (left right : IntRange) : pair operation (integral k left) (integral l right) =
      .ok (.integral (if k = l then k else .int) left right) := by
  rw [pair, if_pos category]

/-- The value denotes a word, among others or, where `exact` holds, alone. -/
inductive Denotes (exact : Prop) (word : Word) : Interval → Prop
  | intro {kind : IntKind} {range : IntRange} (category : kind.category = word.width.kind.category)
      (member : range.contains word.value = true) (only : exact → range = .singleton word.value) :
      Denotes exact word (integral kind range)

variable {exact : Prop}

theorem denotes_singleton {word : Word} {kind : IntKind}
    (category : kind.category = word.width.kind.category) :
    Denotes exact word (integral kind (.singleton word.value)) :=
  .intro category (IntRange.contains_singleton.mpr rfl) fun _ => rfl

/-- The word is a member of the value: it has a kind the value may stand for, and its number is
among the numbers the value denotes. -/
def Has (word : Word) (value : Interval) : Prop :=
  value.kind.compatible word.kind = true ∧ value.concretize.contains (.int word.value) = true

theorem has_iff {word : Word} {value : Interval} : Has word value ↔ Denotes False word value := by
  constructor
  · rintro ⟨compatible, member⟩
    cases value with
    | integral kind range =>
      have category : kind.category = word.width.kind.category := by
        simp only [Interval.kind, Word.kind, Kind.compatible, Bool.or_eq_true, Bool.and_eq_true,
          beq_iff_eq, Kind.integral.injEq] at compatible
        rcases compatible with same | ⟨_, category⟩
        · rw [same]
        · exact category
      refine .intro category ?_ False.elim
      cases range with
      | empty => cases member
      | span low high ordered => exact member
    | floating | reference | returnAddress => cases compatible
  · rintro ⟨category, member, _⟩
    refine ⟨?_, ?_⟩
    · simp [Interval.kind, Word.kind, Kind.compatible, Kind.isIntegral, Kind.category, category]
    · obtain ⟨low, high, ordered, rfl, bounds⟩ := IntRange.span_of_contains member
      exact member

theorem localValue_compatible (seeds : Seeds) (index : Nat) (word : Word) :
    (seeds.factory.localValue index word.kind).kind.compatible word.kind = true := by
  have own : (top word.kind).kind.compatible word.kind = true := by
    simp [top, Word.kind, Interval.kind, Kind.compatible]
  simp only [Seeds.factory, Seeds.value]
  split
  · split
    · rename_i accepted
      exact accepted
    · exact own
  · exact own

theorem denotes_literal {literal : Literal} {word : Word} (seeds : Seeds)
    (stands : Word.ofLiteral literal = some word) :
    ∃ value, Frame.literalValue seeds.factory literal = .ok value ∧ Denotes exact word value := by
  unfold Word.ofLiteral at stands
  split at stands <;> cases stands
  · exact ⟨_, rfl, denotes_singleton rfl⟩
  · rename_i value
    refine ⟨integral .short (.singleton value.toInt), rfl, ?_⟩
    rw [← Int16.toInt_toInt32 value]
    exact denotes_singleton rfl
  · exact ⟨_, rfl, denotes_singleton rfl⟩
  · exact ⟨_, rfl, denotes_singleton rfl⟩
  · exact ⟨_, rfl, denotes_singleton rfl⟩

theorem denotes_arithmetic {op : ArithmeticOp} {width : Width} {left right word : Word}
    {a b : Interval} (inLeft : Denotes exact left a) (inRight : Denotes exact right b)
    (computed : left.arithmetic op width right = some word)
    (uncut : exact → op.mayOverflow = true →
      ∀ value, width.result op left.value right.value = some value → width.Fits value) :
    ∃ value, arithmetic op (.integral width) a b = .ok value ∧ Denotes exact word value := by
  obtain ⟨readLeft, memberLeft, onlyLeft⟩ := inLeft
  obtain ⟨readRight, memberRight, onlyRight⟩ := inRight
  obtain ⟨⟨rfl, rightWidth⟩, mapped⟩ := Option.ite_none_right_eq_some.mp computed
  obtain ⟨value, result, rfl⟩ := Option.map_eq_some_iff.mp mapped
  have rightKind : right.width.kind = left.width.rightKind op := by
    rw [rightWidth, Width.rightKind]
    split <;> rfl
  have fitsRight : op.isShift = false → left.width.Fits right.value := by
    intro plain
    rw [plain, if_neg Bool.false_ne_true] at rightWidth
    exact rightWidth ▸ right.fits
  refine ⟨_, arithmetic_integral _ _ readLeft (rightKind ▸ readRight), .intro rfl ?_ ?_⟩
  · exact IntRange.contains_arithmetic memberLeft memberRight left.fits fitsRight
      (by rw [Width.compute, result]; rfl)
  · intro holds
    rw [onlyLeft holds, onlyRight holds]
    exact IntRange.arithmetic_singleton left.fits fitsRight result
      fun overflows => uncut holds overflows value result

theorem denotes_negate {width : Width} {word negated : Word} {a : Interval}
    (inside : Denotes exact word a) (computed : word.negate width = some negated)
    (uncut : exact → width.Fits (-word.value)) :
    ∃ value, negate (.integral width) a = .ok value ∧ Denotes exact negated value := by
  obtain ⟨category, member, only⟩ := inside
  rename_i kind range
  obtain ⟨rfl, made⟩ := Option.ite_none_right_eq_some.mp computed
  cases made
  refine ⟨integral word.width.kind (range.negate word.width.kind.fullRange), ?_, .intro rfl ?_ ?_⟩
  · simp only [negate, integralOperand_ok _ _ category]
    rfl
  · obtain ⟨low, high, ordered, rfl, above, below⟩ := IntRange.span_of_contains member
    rw [IntRange.negate, Width.fullRange_kind]
    exact IntRange.contains_clamped_wrap word.width (by omega) (by omega)
  · intro holds
    rw [only holds, Width.fullRange_kind, IntRange.singleton, IntRange.negate,
      IntRange.clamped_singleton (uncut holds), Word.wrap_value, Width.wrap_of_fits (uncut holds)]

theorem denotes_compare {left right word : Word} {a b : Interval} (inLeft : Denotes exact left a)
    (inRight : Denotes exact right b) (computed : left.compare right = some word) :
    ∃ value, compare .lcmp a b = .ok value ∧ Denotes exact word value := by
  obtain ⟨readLeft, memberLeft, onlyLeft⟩ := inLeft
  obtain ⟨readRight, memberRight, onlyRight⟩ := inRight
  rename_i k range l other
  obtain ⟨⟨longLeft, longRight⟩, made⟩ := Option.ite_none_right_eq_some.mp computed
  cases made
  rw [longLeft] at readLeft
  rw [longRight] at readRight
  have sign : (Word.wrap .int (left.value - right.value).sign).value =
      (left.value - right.value).sign := by
    apply Width.wrap_of_fits
    rw [Width.fits_int]
    rcases Int.sign_trichotomy (left.value - right.value) with h | h | h <;> omega
  refine ⟨integral .int (range.compare other), ?_, .intro rfl ?_ ?_⟩
  · simp only [compare, Comparison.operandKind, integralOperand_ok _ _ readLeft,
      integralOperand_ok _ _ readRight]
    rfl
  · rw [sign]
    exact IntRange.contains_compare memberLeft memberRight
  · intro holds
    rw [sign, onlyLeft holds, onlyRight holds]
    exact IntRange.compare_singleton _ _

theorem convert_integral {conversion : Conversion} {width : Width} {kind : IntKind} {low high : Int}
    {ordered : low ≤ high} (source : conversion.source = .integral width)
    (category : kind.category = width.kind.category) :
    convert conversion (integral kind (.span low high ordered)) =
      .ok (convertIntegers conversion low high) := by
  simp only [convert, source, integralOperand_ok _ _ category]
  rfl

theorem denotes_narrowed {kind : IntKind} {low high value : Int} {after : Word}
    (category : kind.category = after.width.kind.category) (above : low ≤ value)
    (below : value ≤ high) (inside : kind.fullRange.contains after.value = true)
    (kept : kind.fullRange.contains value = true → after.value = value)
    (only : exact → low = after.value ∧ high = after.value) :
    Denotes exact after (integral kind (.clamped low high kind.fullRange)) := by
  have narrow : ∀ x, kind.fullRange.contains x = true → Width.long.Fits x :=
    fun _ member => IntRange.narrow_fullRange member
  refine .intro category (IntRange.contains_clamped narrow above below inside kept) ?_
  intro holds
  obtain ⟨rfl, rfl⟩ := only holds
  exact IntRange.singleton_of_fits narrow inside

def narrowings : List (Conversion × IntKind) := [(.i2b, .byte), (.i2c, .char), (.i2s, .short)]

theorem converted_narrow {conversion : Conversion} {kind : IntKind}
    (narrow : (conversion, kind) ∈ narrowings) (value : Int) :
    kind.fullRange.contains (Word.converted conversion value) = true ∧
      (kind.fullRange.contains value = true → Word.converted conversion value = value) := by
  simp only [narrowings, List.mem_cons, Prod.mk.injEq, List.not_mem_nil, or_false] at narrow
  rcases narrow with ⟨rfl, rfl⟩ | ⟨rfl, rfl⟩ | ⟨rfl, rfl⟩
  · have bytes : IntKind.byte.fullRange = .between (-128) 127 := rfl
    simp only [Word.converted, bytes, IntRange.contains_between, Int.bmod]
    omega
  · simp only [Word.converted, IntKind.fullRange, IntRange.contains_between]
    omega
  · have shorts : IntKind.short.fullRange = .between (-32768) 32767 := rfl
    simp only [Word.converted, shorts, IntRange.contains_between, Int.bmod]
    omega

theorem denotes_narrowing {conversion : Conversion} {kind : IntKind} {low high value : Int}
    (narrow : (conversion, kind) ∈ narrowings) (above : low ≤ value) (below : value ≤ high)
    (only : exact → low = (Word.wrap .int (Word.converted conversion value)).value ∧
      high = (Word.wrap .int (Word.converted conversion value)).value) :
    Denotes exact (Word.wrap .int (Word.converted conversion value))
      (integral kind (.clamped low high kind.fullRange)) := by
  obtain ⟨inside, kept⟩ := converted_narrow narrow value
  have category : kind.category = .one := by
    simp only [narrowings, List.mem_cons, Prod.mk.injEq, List.not_mem_nil, or_false] at narrow
    rcases narrow with ⟨-, rfl⟩ | ⟨-, rfl⟩ | ⟨-, rfl⟩ <;> rfl
  have fits : Width.int.wrap (Word.converted conversion value) = Word.converted conversion value :=
    Width.wrap_of_fits (IntRange.fits_int_of_narrow category inside)
  refine denotes_narrowed category above below ?_ ?_ only
  · rw [Word.wrap_value, fits]
    exact inside
  · rw [Word.wrap_value, fits]
    exact kept

theorem denotes_convert {conversion : Conversion} {word after : Word} {a : Interval}
    (inside : Denotes exact word a) (computed : word.convert conversion = some after)
    (uncut : exact → after.value = word.value) :
    ∃ value, convert conversion a = .ok value ∧ Denotes exact after value := by
  obtain ⟨category, member, only⟩ := inside
  obtain ⟨low, high, ordered, rfl, above, below⟩ := IntRange.span_of_contains member
  unfold Word.convert at computed
  split at computed
  · rename_i source target isSource isTarget
    obtain ⟨rfl, made⟩ := Option.ite_none_right_eq_some.mp computed
    cases made
    refine ⟨_, convert_integral isSource category, ?_⟩
    have same : exact → low = (Word.wrap target (Word.converted conversion word.value)).value ∧
        high = (Word.wrap target (Word.converted conversion word.value)).value := by
      intro holds
      have single := only holds
      rw [IntRange.singleton, IntRange.span.injEq] at single
      have kept := uncut holds
      omega
    cases conversion with
    | i2l =>
      cases isTarget
      have kept : Width.long.wrap word.value = word.value :=
        Width.wrap_of_fits (IntRange.fits_long_of_fits word.fits)
      refine .intro rfl ?_ ?_
      · have value : (Word.wrap .long (Word.converted .i2l word.value)).value = word.value := kept
        rw [value, IntRange.contains_between]
        exact ⟨above, below⟩
      · intro holds
        obtain ⟨rfl, rfl⟩ := same holds
        exact dif_pos ordered
    | l2i =>
      cases isTarget
      have inside : Width.int.kind.fullRange.contains (Width.int.wrap word.value) = true :=
        Width.contains_fullRange.mpr (Width.wrap_fits .int word.value)
      exact denotes_narrowed rfl above below inside
        (fun member => Width.wrap_of_fits (Width.contains_fullRange.mp member)) same
    | i2b => cases isTarget; exact denotes_narrowing (by simp [narrowings]) above below same
    | i2c => cases isTarget; exact denotes_narrowing (by simp [narrowings]) above below same
    | i2s => cases isTarget; exact denotes_narrowing (by simp [narrowings]) above below same
    | i2f | i2d | l2f | l2d | f2d | d2f => cases isTarget
    | f2i | f2l | d2i | d2l => cases isSource
  · cases computed

theorem denotes_union {word : Word} {a b joined : Interval} (made : union a b = .ok joined)
    (inside : Denotes False word a ∨ Denotes False word b) : Denotes False word joined := by
  cases a with
  | integral k left =>
    cases b with
    | integral l right =>
      by_cases category : k.category = l.category
      · simp only [union, pair_integral category] at made
        cases made
        have joinedCategory : (if k = l then k else IntKind.int).category = k.category := by
          split
          · rfl
          · cases k <;> cases l <;> simp_all [IntKind.category]
        rcases inside with ⟨inLeft, member, _⟩ | ⟨inRight, member, _⟩
        · exact .intro (joinedCategory.trans inLeft) (IntRange.contains_hull (Or.inl member))
            False.elim
        · exact .intro (joinedCategory.trans (category.trans inRight))
            (IntRange.contains_hull (Or.inr member)) False.elim
      · simp only [union, pair, if_neg category] at made
        cases made
    | floating | reference | returnAddress => cases made
  | floating | reference | returnAddress =>
    rcases inside with inLeft | inRight
    · cases inLeft
    · cases inRight
      cases made

end Interval

end MethodFlow

import MethodFlow.Proofs.KindRanges

/-! Integer instructions are monotone: wider operands give a wider result. A result on single words
is the one word that the machine computes, and it is not lost among wider operands. All other
results are cut from bounds that move outward with the operands. -/
namespace MethodFlow.IntRange

variable {width : Width} {a b c d p q r s : Int} {ab : a ≤ b} {cd : c ≤ d} {pq : p ≤ q} {rs : r ≤ s}

@[simp] theorem covers_empty (range : IntRange) : range.covers empty = true := by
  cases range <;> rfl

@[simp] theorem covers_span : (span a b ab).covers (span c d cd) = true ↔ a ≤ c ∧ d ≤ b := by
  simp [covers]

theorem between_mono (low : a ≤ c) (high : d ≤ b) : (between a b).covers (between c d) = true := by
  simp only [covers_iff, contains_between]
  omega

theorem clamped_eq (ordered : a ≤ b) : clamped a b (signed width.bits) =
    if width.Fits a ∧ width.Fits b then between a b else signed width.bits := by
  have lowest : (signed width.bits).contains a = true ↔ width.Fits a := contains_signed
  have highest : (signed width.bits).contains b = true ↔ width.Fits b := contains_signed
  obtain ⟨least, greatest, bounds, full, _⟩ :=
    span_of_contains (contains_signed.mpr (fits_zero : width.Fits 0))
  rw [full, contains_span] at lowest highest
  have fits : width.Fits a ∧ width.Fits b ↔ ¬(a < least ∨ greatest < b) := by
    rw [← lowest, ← highest]
    omega
  by_cases leaves : a < least ∨ greatest < b
  · have cut : ¬(width.Fits a ∧ width.Fits b) := fun both => fits.mp both leaves
    simp only [full, clamped, Bool.or_eq_true, decide_eq_true_eq, leaves, cut, if_true, if_false]
  · obtain ⟨low, high⟩ := fits.mpr leaves
    have keptLow : signedWord a = a := Width.wrap_of_fits (fits_long_of_fits low)
    have keptHigh : signedWord b = b := Width.wrap_of_fits (fits_long_of_fits high)
    simp only [full, clamped, Bool.or_eq_true, decide_eq_true_eq, leaves, low, high, and_self,
      keptLow, keptHigh, if_true, if_false]

theorem clamped_mono (low : a ≤ c) (high : d ≤ b) (ordered : c ≤ d) :
    (clamped a b (signed width.bits)).covers (clamped c d (signed width.bits)) = true := by
  by_cases fits : width.Fits a ∧ width.Fits b
  · have narrower : width.Fits c ∧ width.Fits d := by
      unfold Width.Fits at *
      omega
    rw [clamped_eq (by omega), clamped_eq ordered, if_pos fits, if_pos narrower]
    exact between_mono low high
  · rw [clamped_eq (by omega), if_neg fits]
    exact covers_clamped_word ordered

theorem corners_mono {w x y z : Int} (box : ∀ corner ∈ [w, x, y, z],
      min (min p q) (min r s) ≤ corner ∧ corner ≤ max (max p q) (max r s)) :
    (corners p q r s (signed width.bits)).covers (corners w x y z (signed width.bits)) = true := by
  simp only [List.forall_mem_cons] at box
  apply clamped_mono <;> omega

theorem nonzeroParts_mono (right : r ≤ c ∧ d ≤ s) (cd : c ≤ d) {part : Int × Int}
    (among : part ∈ nonzeroParts c d) :
    ∃ wider ∈ nonzeroParts r s, wider.1 ≤ part.1 ∧ part.1 ≤ part.2 ∧ part.2 ≤ wider.2 ∧
      (0 < wider.1 ∨ wider.2 < 0) := by
  simp only [nonzeroParts, List.mem_append, List.mem_ite_nil_right, List.mem_singleton] at among
  rcases among with ⟨negative, rfl⟩ | ⟨positive, rfl⟩
  · have reaches : r ≤ -1 := by omega
    exact ⟨(r, min s (-1)), by simp [nonzeroParts, reaches], by omega, by omega, by omega, by omega⟩
  · have reaches : 1 ≤ s := by omega
    exact ⟨(max r 1, s), by simp [nonzeroParts, reaches], by omega, by omega, by omega, by omega⟩

/-- Unless both operands are single words, a shift depends on the bounds of the shifted one. -/
theorem shift_span (op : ArithmeticOp) (bits : Nat) (several : ¬(a = b ∧ c = d)) :
    shift op bits (span a b ab) (span c d cd) =
      match op with
      | .shr => between (min a 0) (max b 0)
      | .ushr => if 0 ≤ a then between 0 b else signed bits
      | _ => signed bits := by
  unfold shift
  split
  · rename_i singleLeft singleRight
    rw [single?_eq_some, singleton, span.injEq] at singleLeft singleRight
    omega
  · cases op <;> rfl

theorem bitwise_span (op : ArithmeticOp) (bits : Nat) (several : ¬(a = b ∧ c = d)) :
    bitwise op bits (span a b ab) (span c d cd) =
      match op with
      | .and =>
        if 0 ≤ a && 0 ≤ c then between 0 (min b d)
        else if 0 ≤ c then between 0 d
        else if 0 ≤ a then between 0 b
        else signed bits
      | _ => if 0 ≤ a && 0 ≤ c then between 0 (allOnes (max b d)) else signed bits := by
  unfold bitwise
  split
  · rename_i singleLeft singleRight
    rw [single?_eq_some, singleton, span.injEq] at singleLeft singleRight
    omega
  · cases op <;> rfl

theorem allOnes_mono {m n : Int} (below : m ≤ n) : allOnes m ≤ allOnes n := by
  unfold allOnes
  split
  · split
    · exact Int.le_refl 0
    · have positive : 0 < Nat.pow 2 (n.toNat.log2 + 1) := Nat.pow_pos (by decide)
      omega
  · rw [if_neg (by omega)]
    have shorter : m.toNat.log2 ≤ n.toNat.log2 :=
      (Nat.le_log2 (by omega)).mpr (Nat.le_trans (Nat.log2_self_le (by omega)) (by omega))
    have power : Nat.pow 2 (m.toNat.log2 + 1) ≤ Nat.pow 2 (n.toNat.log2 + 1) :=
      Nat.pow_le_pow_right (by decide) (by omega)
    omega

theorem single_mono {op : ArithmeticOp} (exact : op.mayOverflow = false) {left right : IntRange}
    {x y : Int} (inLeft : left.contains x = true) (inRight : right.contains y = true)
    (fitsLeft : width.Fits x) (fitsRight : op.isShift = false → width.Fits y) :
    (left.arithmetic op width.bits right).covers
      ((singleton x).arithmetic op width.bits (singleton y)) = true := by
  cases computed : width.result op x y with
  | none =>
    -- only a remainder has no result, for the divisor zero
    cases op with
    | rem =>
      obtain rfl : y = 0 := by simpa [Width.result] using computed
      exact covers_empty _
    | add | sub | mul | div => cases exact
    | shl | shr | ushr | and | or | xor => cases computed
  | some value =>
    rw [arithmetic_singleton fitsLeft fitsRight computed (by simp [exact]), covers_iff]
    intro word member
    rw [contains_singleton.mp member]
    refine contains_arithmetic inLeft inRight fitsLeft fitsRight ?_
    rw [Width.compute, computed]
    rfl

section Bounds

variable (left : p ≤ a ∧ b ≤ q) (right : r ≤ c ∧ d ≤ s)

include left right

theorem product_mono (ab : a ≤ b) (cd : c ≤ d) :
    (corners (p * r) (p * s) (q * r) (q * s) (signed width.bits)).covers
      (corners (a * c) (a * d) (b * c) (b * d) (signed width.bits)) = true := by
  apply corners_mono
  simp only [List.forall_mem_cons]
  refine ⟨?_, ?_, ?_, ?_, nofun⟩ <;> apply product_between <;> omega

theorem quotient_mono (ab : a ≤ b) (cd : c ≤ d) :
    (quotient p q r s (signed width.bits)).covers (quotient a b c d (signed width.bits)) =
      true := by
  apply (covers_foldl_hull ..).mpr
  refine ⟨covers_empty _, fun part among => ?_⟩
  obtain ⟨wider, amongWider, below, ordered, above, oneSided⟩ := nonzeroParts_mono right cd among
  have whole := ((covers_foldl_hull _ _).mp (covers_refl (quotient p q r s (signed width.bits)))).2
  refine covers_trans (whole wider amongWider) (corners_mono ?_)
  simp only [List.forall_mem_cons]
  refine ⟨?_, ?_, ?_, ?_, nofun⟩ <;> apply quotient_between oneSided <;> omega

theorem remainder_mono (ab : a ≤ b) (cd : c ≤ d) (several : ¬(a = b ∧ c = d)) :
    (remainder p q r s (signed width.bits)).covers (remainder a b c d (signed width.bits)) =
      true := by
  by_cases zero : c = 0 ∧ d = 0
  · simp [remainder, nonzeroParts, zero.1, zero.2]
  · have more : ¬(r = 0 ∧ s = 0) := by omega
    have wider : ¬(p = q ∧ r = s) := by omega
    simp only [remainder, nonzeroParts_isEmpty cd, nonzeroParts_isEmpty (by omega : r ≤ s),
      Bool.and_eq_true, decide_eq_true_eq, zero, more, several, wider, if_false]
    apply clamped_mono
    · split <;> split <;> omega
    · split <;> split <;> omega
    · split <;> split <;> omega

theorem shift_mono (op : ArithmeticOp) (several : ¬(a = b ∧ c = d))
    (inside : (signed width.bits).covers (span p q pq) = true) :
    (shift op width.bits (span p q pq) (span r s rs)).covers
      (shift op width.bits (span a b ab) (span c d cd)) = true := by
  have whole := covers_shift op (span c d cd)
    (covers_trans inside (covers_span.mpr left : (span p q pq).covers (span a b ab) = true))
  rw [shift_span op _ several] at whole ⊢
  rw [shift_span op _ (by omega)]
  cases op with
  | shr => exact between_mono (by omega) (by omega)
  | ushr =>
    dsimp only at whole ⊢
    split
    · rw [if_pos (by omega)]
      exact between_mono (Int.le_refl 0) left.2
    · exact whole
  | _ => exact whole

theorem ones_mono (whole : (signed width.bits).covers
      (if 0 ≤ a && 0 ≤ c then between 0 (allOnes (max b d)) else signed width.bits) = true) :
    (if 0 ≤ p && 0 ≤ r then between 0 (allOnes (max q s)) else signed width.bits).covers
      (if 0 ≤ a && 0 ≤ c then between 0 (allOnes (max b d)) else signed width.bits) = true := by
  simp only [Bool.and_eq_true, decide_eq_true_eq] at whole ⊢
  split
  · rw [if_pos (by omega)]
    exact between_mono (Int.le_refl 0) (allOnes_mono (by omega))
  · exact whole

theorem bitwise_mono {op : ArithmeticOp} (among : op = .and ∨ op = .or ∨ op = .xor)
    (several : ¬(a = b ∧ c = d)) (insideLeft : (signed width.bits).covers (span p q pq) = true)
    (insideRight : (signed width.bits).covers (span r s rs) = true) :
    (bitwise op width.bits (span p q pq) (span r s rs)).covers
      (bitwise op width.bits (span a b ab) (span c d cd)) = true := by
  have whole : (signed width.bits).covers (bitwise op width.bits (span a b ab) (span c d cd)) =
      true :=
    covers_bitwise among (covers_trans insideLeft (covers_span.mpr left))
      (covers_trans insideRight (covers_span.mpr right))
  rw [bitwise_span op _ several] at whole ⊢
  rw [bitwise_span op _ (by omega)]
  rcases among with rfl | rfl | rfl
  · simp only [Bool.and_eq_true, decide_eq_true_eq] at whole ⊢
    split
    · rw [if_pos (by omega)]
      exact between_mono (Int.le_refl 0) (by omega)
    · split
      · split
        · exact between_mono (Int.le_refl 0) (by omega)
        · rw [if_pos (by omega)]
          exact between_mono (Int.le_refl 0) (by omega)
      · split
        · split
          · exact between_mono (Int.le_refl 0) (by omega)
          · rw [if_neg (by omega), if_pos (by omega)]
            exact between_mono (Int.le_refl 0) (by omega)
        · exact whole
  · exact ones_mono left right whole
  · exact ones_mono left right whole

end Bounds

theorem arithmetic_mono {op : ArithmeticOp} {left right wideLeft wideRight : IntRange}
    (insideLeft : (signed width.bits).covers wideLeft = true)
    (insideRight : op.isShift = false → (signed width.bits).covers wideRight = true)
    (coversLeft : wideLeft.covers left = true) (coversRight : wideRight.covers right = true) :
    (wideLeft.arithmetic op width.bits wideRight).covers
      (left.arithmetic op width.bits right) = true := by
  cases left with
  | empty => simp [arithmetic]
  | span a b ab =>
    cases right with
    | empty => simp [arithmetic]
    | span c d cd =>
      cases wideLeft with
      | empty => cases coversLeft
      | span p q pq =>
        cases wideRight with
        | empty => cases coversRight
        | span r s rs =>
          rw [covers_span] at coversLeft coversRight
          by_cases single : op.mayOverflow = false ∧ a = b ∧ c = d
          · obtain ⟨exact, rfl, rfl⟩ := single
            have inLeft : (span p q pq).contains a = true := contains_span.mpr coversLeft
            have inRight : (span r s rs).contains c = true := contains_span.mpr coversRight
            exact single_mono exact inLeft inRight (fits_of_covers insideLeft inLeft)
              fun plain => fits_of_covers (insideRight plain) inRight
          · cases op with
            | add => exact clamped_mono (by omega) (by omega) (by omega)
            | sub => exact clamped_mono (by omega) (by omega) (by omega)
            | mul => exact product_mono coversLeft coversRight ab cd
            | div => exact quotient_mono coversLeft coversRight ab cd
            | rem =>
              exact remainder_mono coversLeft coversRight ab cd fun both => single ⟨rfl, both⟩
            | shl | shr | ushr =>
              exact shift_mono coversLeft coversRight _ (fun both => single ⟨rfl, both⟩) insideLeft
            | and | or | xor =>
              exact bitwise_mono coversLeft coversRight (by simp) (fun both => single ⟨rfl, both⟩)
                insideLeft (insideRight rfl)

end MethodFlow.IntRange

namespace MethodFlow.Interval

/-- An integer instruction accepts operands of its kinds, and it gives a wider result for wider
operands. -/
theorem arithmetic_monotone (op : ArithmeticOp) (width : Width) (k l wideK wideL : IntKind)
    (left right wideLeft wideRight : IntRange)
    (readLeft : k.category = width.kind.category)
    (readRight : l.category = (width.rightKind op).category)
    (readWideLeft : wideK.category = width.kind.category)
    (readWideRight : wideL.category = (width.rightKind op).category)
    (leftInside : width.kind.fullRange.covers wideLeft = true)
    (rightInside : (width.rightKind op).fullRange.covers wideRight = true)
    (coversLeft : wideLeft.covers left = true) (coversRight : wideRight.covers right = true) :
    ∃ range wideRange,
      arithmetic op (.integral width) (integral k left) (integral l right) =
        .ok (integral width.kind range) ∧
      arithmetic op (.integral width) (integral wideK wideLeft) (integral wideL wideRight) =
        .ok (integral width.kind wideRange) ∧
      wideRange.covers range = true := by
  refine ⟨_, _, arithmetic_integral left right readLeft readRight,
    arithmetic_integral wideLeft wideRight readWideLeft readWideRight, ?_⟩
  rw [Width.fullRange_kind] at leftInside
  refine IntRange.arithmetic_mono leftInside ?_ coversLeft coversRight
  intro plain
  rwa [Width.rightKind, plain, if_neg Bool.false_ne_true, Width.fullRange_kind] at rightInside

/-- A mask of two single words is computed exactly; one that is known only in part is bounded by the
operand that has no negative members. -/
theorem arithmetic_monotone_masks :
    arithmetic .and .int (integral .byte (.singleton 12)) (integral .short (.singleton 10)) =
        .ok (integral .int (.singleton 8)) ∧
      arithmetic .and .int (integral .int (.between (-4) 12)) (integral .char (.between 3 10)) =
        .ok (integral .int (.between 0 10)) ∧
      (IntRange.between 0 10).covers (.singleton 8) = true := by
  obtain ⟨range, wideRange, made, wideMade, covers⟩ := arithmetic_monotone .and .int .byte .short
    .int .char (.singleton 12) (.singleton 10) (.between (-4) 12) (.between 3 10) rfl rfl rfl rfl
    (by decide) (by decide) (by decide) (by decide)
  have single : arithmetic .and .int (integral .byte (.singleton 12))
      (integral .short (.singleton 10)) = .ok (integral .int (.singleton 8)) := rfl
  have several : arithmetic .and .int (integral .int (.between (-4) 12))
      (integral .char (.between 3 10)) = .ok (integral .int (.between 0 10)) := rfl
  rw [made] at single
  rw [wideMade] at several
  cases single
  cases several
  exact ⟨made, wideMade, covers⟩

end MethodFlow.Interval

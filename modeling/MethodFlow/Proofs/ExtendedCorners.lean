import Mathlib.Data.EReal.Inv

/-! Products and quotients over boxes of extended reals. Zero times an infinity and an infinity by
an infinity have no result, so a corner of a box may have none. The results inside the box still lie
between those of its corners, unless no corner has one: that is where one factor is only zero and
the other everything, or where everything is divided by one infinity. -/
namespace MethodFlow

/-- Zero has no product with an infinity. -/
def ProductDefined (p q : EReal) : Prop := (p = 0 → q ≠ ⊥ ∧ q ≠ ⊤) ∧ (q = 0 → p ≠ ⊥ ∧ p ≠ ⊤)

namespace ProductDefined

variable {a b c d p q : EReal}

theorem symm (defined : ProductDefined p q) : ProductDefined q p := ⟨defined.2, defined.1⟩

theorem of_ne_zero (first : p ≠ 0) (second : q ≠ 0) : ProductDefined p q :=
  ⟨fun zero => absurd zero first, fun zero => absurd zero second⟩

theorem zero_left (bot : q ≠ ⊥) (top : q ≠ ⊤) : ProductDefined 0 q :=
  ⟨fun _ => ⟨bot, top⟩, fun _ => ⟨EReal.zero_ne_bot, EReal.zero_ne_top⟩⟩

theorem neg_right (defined : ProductDefined p q) : ProductDefined p (-q) := by
  simpa [ProductDefined, and_comm] using defined

theorem mul_zero_finite (bot : p ≠ ⊥) (top : p ≠ ⊤) : ProductDefined p 0 := (zero_left bot top).symm

theorem exists_finite_bound (ap : a ≤ p) (pb : p ≤ b) (bot : p ≠ ⊥) (top : p ≠ ⊤)
    (bounded : ¬(a = ⊥ ∧ b = ⊤)) : ∃ u, (u = a ∨ u = b) ∧ u ≠ ⊥ ∧ u ≠ ⊤ := by
  by_cases least : a = ⊥
  · exact ⟨b, .inr rfl, (lt_of_lt_of_le (bot_lt_iff_ne_bot.mpr bot) pb).ne',
      fun greatest => bounded ⟨least, greatest⟩⟩
  · exact ⟨a, .inl rfl, least, (lt_of_le_of_lt ap (lt_top_iff_ne_top.mpr top)).ne⟩

/-- Between factors of opposite signs the corner nearest to zero is not below, and if it has no
product, the exact one is the least of all. -/
theorem exists_corner_nearest (ap : a ≤ p) (pb : p ≤ b) (cq : c ≤ q) (qd : q ≤ d) (nonneg : 0 ≤ a)
    (nonpos : d ≤ 0) (defined : ProductDefined p q) :
    ∃ u v, (u = a ∨ u = b) ∧ (v = c ∨ v = d) ∧ ProductDefined u v ∧ p * q ≤ u * v := by
  by_cases meets : ProductDefined a d
  · have grows : p * q ≤ p * d := by
      rw [mul_comm p q, mul_comm p d]
      exact mul_le_mul_of_nonneg_right qd (nonneg.trans ap)
    exact ⟨a, d, .inl rfl, .inr rfl, meets,
      grows.trans (EReal.mul_le_mul_of_nonpos_right ap nonpos)⟩
  by_cases zero : a = 0
  · have least : d = ⊥ := by
      by_contra bounded
      exact meets (zero ▸ zero_left bounded (lt_of_le_of_lt nonpos EReal.zero_lt_top).ne)
    have exact : q = ⊥ := le_bot_iff.mp (least ▸ qd)
    have positive : 0 < p := lt_of_le_of_ne (nonneg.trans ap) fun none =>
      (defined.1 none.symm).1 exact
    refine ⟨b, d, .inr rfl, .inr rfl, of_ne_zero (positive.trans_le pb).ne' ?_, ?_⟩
    · rw [least]
      exact EReal.bot_ne_zero
    · rw [exact, EReal.mul_bot_of_pos positive]
      exact bot_le
  · have high : d = 0 := by
      by_contra nonzero
      exact meets (of_ne_zero zero nonzero)
    have greatest : a = ⊤ := by
      by_contra bounded
      exact meets (high ▸ mul_zero_finite (lt_of_lt_of_le EReal.bot_lt_zero nonneg).ne' bounded)
    have exact : p = ⊤ := top_le_iff.mp (greatest ▸ ap)
    have negative : q < 0 := lt_of_le_of_ne (high ▸ qd) fun none => (defined.2 none).2 exact
    refine ⟨a, c, .inl rfl, .inl rfl, of_ne_zero zero (cq.trans_lt negative).ne, ?_⟩
    rw [exact, EReal.top_mul_of_neg negative]
    exact bot_le

theorem exists_corner_opposite (ap : a ≤ p) (pb : p ≤ b) (cq : c ≤ q) (qd : q ≤ d)
    (nonneg : 0 ≤ p) (nonpos : q ≤ 0) (defined : ProductDefined p q)
    (left : ¬(a = 0 ∧ b = 0 ∧ c = ⊥ ∧ d = ⊤)) (right : ¬(a = ⊥ ∧ b = ⊤ ∧ c = 0 ∧ d = 0)) :
    ∃ u v, (u = a ∨ u = b) ∧ (v = c ∨ v = d) ∧ ProductDefined u v ∧ p * q ≤ u * v := by
  have below : p * q ≤ 0 := EReal.mul_nonpos_iff.mpr (.inl ⟨nonneg, nonpos⟩)
  rcases lt_or_ge a 0 with under | nonnegative
  · rcases (cq.trans nonpos).lt_or_eq with negative | zero
    · exact ⟨a, c, .inl rfl, .inl rfl, of_ne_zero under.ne negative.ne,
        below.trans (EReal.mul_nonneg_iff.mpr (.inr ⟨under.le, negative.le⟩))⟩
    · have exact : q = 0 := le_antisymm nonpos (zero ▸ cq)
      by_cases unbounded : a = ⊥ ∧ b = ⊤
      · have positive : 0 < d := lt_of_le_of_ne (exact ▸ qd) fun high =>
          right ⟨unbounded.1, unbounded.2, zero, high.symm⟩
        have greatest : 0 < b := unbounded.2 ▸ EReal.zero_lt_top
        exact ⟨b, d, .inr rfl, .inr rfl, of_ne_zero greatest.ne' positive.ne',
          below.trans (EReal.mul_pos greatest positive).le⟩
      · obtain ⟨bot, top⟩ := defined.2 exact
        obtain ⟨u, bound, finite⟩ := exists_finite_bound ap pb bot top unbounded
        refine ⟨u, c, bound, .inl rfl, ?_, ?_⟩
        · exact zero ▸ mul_zero_finite finite.1 finite.2
        · simpa [zero] using below
  · rcases le_or_gt d 0 with negative | positive
    · exact exists_corner_nearest ap pb cq qd nonnegative negative defined
    · rcases (nonnegative.trans (ap.trans pb)).lt_or_eq with above | zero
      · exact ⟨b, d, .inr rfl, .inr rfl, of_ne_zero above.ne' positive.ne',
          below.trans (EReal.mul_pos above positive).le⟩
      · have exact : p = 0 := le_antisymm (zero ▸ pb) nonneg
        have low : a = 0 := le_antisymm (exact ▸ ap) nonnegative
        obtain ⟨bot, top⟩ := defined.1 exact
        obtain ⟨v, bound, finite⟩ := exists_finite_bound cq qd bot top
          fun unbounded => left ⟨low, zero.symm, unbounded⟩
        refine ⟨a, v, .inl rfl, bound, ?_, ?_⟩
        · exact low ▸ zero_left finite.1 finite.2
        · simpa [low] using below

/-- Unless one side is only zero and the other everything, some corner of a box is not below a
product of its members. -/
theorem exists_corner_above (ap : a ≤ p) (pb : p ≤ b) (cq : c ≤ q) (qd : q ≤ d)
    (defined : ProductDefined p q) (left : ¬(a = 0 ∧ b = 0 ∧ c = ⊥ ∧ d = ⊤))
    (right : ¬(a = ⊥ ∧ b = ⊤ ∧ c = 0 ∧ d = 0)) :
    ∃ u v, (u = a ∨ u = b) ∧ (v = c ∨ v = d) ∧ ProductDefined u v ∧ p * q ≤ u * v := by
  rcases le_or_gt p 0 with nonpos | positive
  · rcases le_or_gt 0 q with nonneg | negative
    · obtain ⟨v, u, second, first, meets, bound⟩ := exists_corner_opposite cq qd ap pb nonneg nonpos
        defined.symm (fun zero => right ⟨zero.2.2.1, zero.2.2.2, zero.1, zero.2.1⟩)
        (fun zero => left ⟨zero.2.2.1, zero.2.2.2, zero.1, zero.2.1⟩)
      exact ⟨u, v, first, second, meets.symm, by simpa only [mul_comm] using bound⟩
    · rcases nonpos.lt_or_eq with under | zero
      · have grows : p * q ≤ a * q := EReal.mul_le_mul_of_nonpos_right ap negative.le
        have further : a * q ≤ a * c := by
          rw [mul_comm a q, mul_comm a c]
          exact EReal.mul_le_mul_of_nonpos_right cq (ap.trans under.le)
        exact ⟨a, c, .inl rfl, .inl rfl,
          of_ne_zero (ap.trans_lt under).ne (cq.trans_lt negative).ne, grows.trans further⟩
      · exact exists_corner_opposite ap pb cq qd zero.ge negative.le defined left right
  · rcases le_or_gt q 0 with nonpos | above
    · exact exists_corner_opposite ap pb cq qd positive.le nonpos defined left right
    · have grows : p * q ≤ b * q := mul_le_mul_of_nonneg_right pb above.le
      have further : b * q ≤ b * d := by
        rw [mul_comm b q, mul_comm b d]
        exact mul_le_mul_of_nonneg_right qd (positive.le.trans pb)
      exact ⟨b, d, .inr rfl, .inr rfl,
        of_ne_zero (positive.trans_le pb).ne' (above.trans_le qd).ne', grows.trans further⟩

theorem exists_corner_below (ap : a ≤ p) (pb : p ≤ b) (cq : c ≤ q) (qd : q ≤ d)
    (defined : ProductDefined p q) (left : ¬(a = 0 ∧ b = 0 ∧ c = ⊥ ∧ d = ⊤))
    (right : ¬(a = ⊥ ∧ b = ⊤ ∧ c = 0 ∧ d = 0)) :
    ∃ u v, (u = a ∨ u = b) ∧ (v = c ∨ v = d) ∧ ProductDefined u v ∧ u * v ≤ p * q := by
  obtain ⟨u, v, first, second, meets, bound⟩ := exists_corner_above ap pb
    (EReal.neg_le_neg_iff.mpr qd) (EReal.neg_le_neg_iff.mpr cq) defined.neg_right
    (fun zero => left ⟨zero.1, zero.2.1, by simpa using zero.2.2.2, by simpa using zero.2.2.1⟩)
    (fun zero => right ⟨zero.1, zero.2.1, by simpa using zero.2.2.2, by simpa using zero.2.2.1⟩)
  refine ⟨u, -v, first, ?_, meets.neg_right, ?_⟩
  · rcases second with rfl | rfl
    · exact .inr (neg_neg _)
    · exact .inl (neg_neg _)
  · rw [mul_neg] at bound ⊢
    exact EReal.neg_le.mp bound

end ProductDefined

def QuotientDefined (p q : EReal) : Prop := p = ⊥ ∨ p = ⊤ → q ≠ ⊥ ∧ q ≠ ⊤

namespace QuotientDefined

variable {a b c d p q : EReal}

theorem inv_eq_zero_iff (nonzero : q ≠ 0) : q⁻¹ = 0 ↔ q = ⊥ ∨ q = ⊤ := by
  constructor
  · intro zero
    by_contra finite
    obtain ⟨bot, top⟩ := not_or.mp finite
    exact nonzero (by simpa [zero] using (EReal.inv_inv bot top).symm)
  · rintro (rfl | rfl)
    · exact EReal.inv_bot
    · exact EReal.inv_top

theorem iff_productDefined (nonzero : q ≠ 0) : QuotientDefined p q ↔ ProductDefined p q⁻¹ := by
  have finite : q⁻¹ ≠ ⊥ ∧ q⁻¹ ≠ ⊤ := ⟨(EReal.bot_lt_inv q).ne', (EReal.inv_lt_top q).ne⟩
  simp only [QuotientDefined, ProductDefined, inv_eq_zero_iff nonzero, finite, ne_eq,
    not_false_eq_true, and_self, implies_true, true_and]
  tauto

theorem inv_le_inv (apart : 0 < c ∨ q < 0) (cq : c ≤ q) : q⁻¹ ≤ c⁻¹ := by
  rcases apart with positive | negative
  · exact EReal.inv_strictAntiOn.antitoneOn positive (positive.trans_le cq) cq
  · have flipped : (-c)⁻¹ ≤ (-q)⁻¹ := EReal.inv_strictAntiOn.antitoneOn
      (EReal.neg_pos.mpr negative) (EReal.neg_pos.mpr (cq.trans_lt negative))
      (EReal.neg_le_neg_iff.mpr cq)
    simpa only [EReal.inv_neg, EReal.neg_le_neg_iff] using flipped

theorem eq_infinity (apart : 0 < c ∨ d < 0) (cd : c ≤ d) (low : c⁻¹ = 0) (high : d⁻¹ = 0) :
    c = ⊤ ∧ d = ⊤ ∨ c = ⊥ ∧ d = ⊥ := by
  rcases apart with positive | negative
  · have top := ((inv_eq_zero_iff positive.ne').mp low).resolve_left
      (EReal.bot_lt_zero.trans positive).ne'
    exact .inl ⟨top, top_le_iff.mp (top ▸ cd)⟩
  · have bot := ((inv_eq_zero_iff negative.ne).mp high).resolve_right
      (negative.trans EReal.zero_lt_top).ne
    exact .inr ⟨le_bot_iff.mp (bot ▸ cd), bot⟩

/-- Unless everything is divided by one infinity, the quotients of a box whose divisors lie on one
side of zero are between those of two corners. -/
theorem exists_corners (ap : a ≤ p) (pb : p ≤ b) (cq : c ≤ q) (qd : q ≤ d)
    (apart : 0 < c ∨ d < 0) (defined : QuotientDefined p q)
    (bounded : ¬(a = ⊥ ∧ b = ⊤ ∧ (c = ⊤ ∧ d = ⊤ ∨ c = ⊥ ∧ d = ⊥))) :
    (∃ u v, (u = a ∨ u = b) ∧ (v = c ∨ v = d) ∧ QuotientDefined u v ∧ u / v ≤ p / q) ∧
      ∃ u v, (u = a ∨ u = b) ∧ (v = c ∨ v = d) ∧ QuotientDefined u v ∧ p / q ≤ u / v := by
  have nonzero : ∀ v, c ≤ v → v ≤ d → v ≠ 0 := fun v cv vd zero =>
    apart.elim (fun positive => (positive.trans_le cv).ne' zero)
      (fun negative => (vd.trans_lt negative).ne zero)
  have cd : c ≤ d := cq.trans qd
  have low : d⁻¹ ≤ q⁻¹ := inv_le_inv (apart.imp (·.trans_le cq) id) qd
  have high : q⁻¹ ≤ c⁻¹ := inv_le_inv (apart.imp id qd.trans_lt) cq
  have meets := (iff_productDefined (nonzero q cq qd)).mp defined
  have left : ¬(a = 0 ∧ b = 0 ∧ d⁻¹ = ⊥ ∧ c⁻¹ = ⊤) := fun zero =>
    (EReal.bot_lt_inv d).ne' zero.2.2.1
  have right : ¬(a = ⊥ ∧ b = ⊤ ∧ d⁻¹ = 0 ∧ c⁻¹ = 0) := fun zero =>
    bounded ⟨zero.1, zero.2.1, eq_infinity apart cd zero.2.2.2 zero.2.2.1⟩
  -- A corner of the inverses is a corner of the divisors, with its two bounds swapped.
  have back : ∀ r : EReal → Prop,
      (∃ u v, (u = a ∨ u = b) ∧ (v = d⁻¹ ∨ v = c⁻¹) ∧ ProductDefined u v ∧ r (u * v)) →
      ∃ u v, (u = a ∨ u = b) ∧ (v = c ∨ v = d) ∧ QuotientDefined u v ∧ r (u / v) := by
    rintro r ⟨u, v, first, rfl | rfl, defined, bound⟩
    · exact ⟨u, d, first, .inr rfl, (iff_productDefined (nonzero d cd le_rfl)).mpr defined, bound⟩
    · exact ⟨u, c, first, .inl rfl, (iff_productDefined (nonzero c le_rfl cd)).mpr defined, bound⟩
  exact ⟨back (· ≤ p / q) (ProductDefined.exists_corner_below ap pb low high meets left right),
    back (p / q ≤ ·) (ProductDefined.exists_corner_above ap pb low high meets left right)⟩

end QuotientDefined

end MethodFlow

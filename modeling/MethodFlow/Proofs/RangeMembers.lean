import MethodFlow.Proofs.Word
import MethodFlow.Range.Integer

/-! Members of integer ranges. Each operation on ranges is described by the members of its result,
so that what follows need not look at bounds. -/
namespace MethodFlow.IntRange

@[simp] theorem contains_empty (x : Int) : empty.contains x = false := rfl

@[simp] theorem contains_span {low high x : Int} {ordered : low ≤ high} :
    (span low high ordered).contains x = true ↔ low ≤ x ∧ x ≤ high := by
  simp [contains]

@[simp] theorem contains_between {low high x : Int} :
    (between low high).contains x = true ↔ low ≤ x ∧ x ≤ high := by
  unfold between
  split
  · exact contains_span
  · rename_i unordered
    simp only [contains_empty, Bool.false_eq_true, false_iff]
    omega

@[simp] theorem contains_singleton {value x : Int} :
    (singleton value).contains x = true ↔ x = value := by
  rw [singleton, contains_span]
  omega

theorem span_of_contains {range : IntRange} {x : Int} (member : range.contains x = true) :
    ∃ low high ordered, range = span low high ordered ∧ low ≤ x ∧ x ≤ high := by
  cases range with
  | empty => cases member
  | span low high ordered => exact ⟨low, high, ordered, rfl, contains_span.mp member⟩

theorem covers_iff (a b : IntRange) :
    a.covers b = true ↔ ∀ x, b.contains x = true → a.contains x = true := by
  cases b with
  | empty => simp [covers]
  | span c d cd =>
    cases a with
    | empty =>
      simp only [covers, Bool.false_eq_true, contains_span, contains_empty, false_iff]
      intro none
      exact none c ⟨Int.le_refl c, cd⟩
    | span a b ab =>
      simp only [covers, Bool.and_eq_true, decide_eq_true_eq, contains_span]
      constructor
      · intro bounds x member
        omega
      · intro inside
        exact ⟨(inside c ⟨Int.le_refl c, cd⟩).1, (inside d ⟨cd, Int.le_refl d⟩).2⟩

theorem contains_hull {a b : IntRange} {x : Int}
    (member : a.contains x = true ∨ b.contains x = true) : (a.hull b).contains x = true := by
  cases a with
  | empty =>
    rcases member with inLeft | inRight
    · cases inLeft
    · exact inRight
  | span p q _ =>
    cases b with
    | empty =>
      rcases member with inLeft | inRight
      · exact inLeft
      · cases inRight
    | span r s _ =>
      simp only [contains_span] at member
      rw [hull, contains_between]
      omega

theorem contains_meet {a b : IntRange} {x : Int} :
    (a.meet b).contains x = true ↔ a.contains x = true ∧ b.contains x = true := by
  cases a with
  | empty => simp [meet]
  | span p q _ =>
    cases b with
    | empty => simp [meet]
    | span r s _ =>
      rw [meet, contains_between, contains_span, contains_span]
      omega

theorem isEmpty_iff (range : IntRange) : range.isEmpty = true ↔ ∀ x, range.contains x = false := by
  cases range with
  | empty => simp [isEmpty]
  | span low high ordered =>
    simp only [isEmpty, Bool.false_eq_true, false_iff]
    intro none
    have member : (span low high ordered).contains low = true :=
      contains_span.mpr ⟨Int.le_refl low, ordered⟩
    rw [none low] at member
    cases member

theorem single?_eq_some {range : IntRange} {x : Int} :
    range.single? = some x ↔ range = singleton x := by
  cases range with
  | empty => simp [single?, singleton]
  | span low high _ =>
    simp only [single?, singleton, Option.ite_none_right_eq_some, Option.some.injEq, span.injEq]
    omega

/-- Whatever a computed range is widened to, it holds the cut of everything between its bounds:
what stays in the full range is not cut, and what leaves it is cut into it. -/
theorem contains_clamped {low high value cut : Int} {full : IntRange}
    (narrow : ∀ x, full.contains x = true → Width.long.Fits x)
    (above : low ≤ value) (below : value ≤ high) (inside : full.contains cut = true)
    (kept : full.contains value = true → cut = value) :
    (clamped low high full).contains cut = true := by
  obtain ⟨least, greatest, ordered, rfl, _⟩ := span_of_contains inside
  simp only [clamped]
  split
  · exact inside
  · rename_i fits
    simp only [Bool.or_eq_true, decide_eq_true_eq] at fits
    have member : (span least greatest ordered).contains value = true :=
      contains_span.mpr (by omega)
    have lowWord := narrow low (contains_span.mpr (by omega))
    have highWord := narrow high (contains_span.mpr (by omega))
    have lowKept : signedWord low = low := Width.wrap_of_fits lowWord
    have highKept : signedWord high = high := Width.wrap_of_fits highWord
    rw [kept member, lowKept, highKept, contains_between]
    exact ⟨above, below⟩

theorem contains_signed {width : Width} {x : Int} :
    (signed width.bits).contains x = true ↔ width.Fits x := by
  rw [signed, contains_between]
  cases width with
  | int => rw [Width.fits_int]; simp [Width.bits]; omega
  | long => rw [Width.fits_long]; simp [Width.bits]; omega

theorem fits_long_of_fits {width : Width} {x : Int} (fits : width.Fits x) : Width.long.Fits x := by
  cases width with
  | int => rw [Width.fits_int] at fits; rw [Width.fits_long]; omega
  | long => exact fits

theorem contains_clamped_wrap (width : Width) {low high value : Int}
    (above : low ≤ value) (below : value ≤ high) :
    (clamped low high (signed width.bits)).contains (width.wrap value) = true :=
  contains_clamped (fun _ member => fits_long_of_fits (contains_signed.mp member)) above below
    (contains_signed.mpr (width.wrap_fits value))
    (fun member => Width.wrap_of_fits (contains_signed.mp member))

end MethodFlow.IntRange

import Mathlib.Order.Bounds.Basic
import MethodFlow.Proofs.Denotation
import MethodFlow.Proofs.TightRanges

/-! Set operations and order queries on integral values, member by member. The common part and the
queries are exact; a difference is the smallest range with what is left, and its bounds can be
computed in the words that the bounds of its operands are. -/
namespace MethodFlow

namespace IntRange

def members (range : IntRange) : Set Int := {x | range.contains x = true}

variable {left right : IntRange} {a b c d x : Int} {ab : a ≤ b} {cd : c ≤ d}

theorem mem_members {range : IntRange} : x ∈ range.members ↔ range.contains x = true := Iff.rfl

@[simp] theorem mem_span : x ∈ (span a b ab).members ↔ a ≤ x ∧ x ≤ b := contains_span

@[simp] theorem members_empty : empty.members = ∅ := by
  ext x
  simp [mem_members]

theorem low_mem : a ∈ (span a b ab).members := mem_span.mpr ⟨Int.le_refl a, ab⟩

theorem high_mem : b ∈ (span a b ab).members := mem_span.mpr ⟨ab, Int.le_refl b⟩

theorem members_meet (left right : IntRange) :
    (left.meet right).members = left.members ∩ right.members := by
  ext x
  exact contains_meet

theorem covers_iff_subset : left.covers right = true ↔ right.members ⊆ left.members :=
  covers_iff left right

theorem members_eq_empty {range : IntRange} : range.members = ∅ ↔ range.isEmpty = true := by
  rw [isEmpty_iff, Set.eq_empty_iff_forall_notMem]
  simp only [mem_members, Bool.not_eq_true]

section Difference

theorem mem_sdiff_span : x ∈ (span a b ab).members \ (span c d cd).members ↔
    (a ≤ x ∧ x ≤ b) ∧ (x < c ∨ d < x) := by
  rw [Set.mem_sdiff, mem_span, mem_span]
  omega

theorem tightest_untrimmed (low : a ∉ right.members) (high : b ∉ right.members) :
    (span a b ab).Tightest (· ∈ (span a b ab).members \ right.members) := by
  have whole : between a b = span a b ab := dif_pos ab
  have tightest : (between a b).Tightest (· ∈ (span a b ab).members \ right.members) :=
    .of_bounds ⟨low_mem, low⟩ ⟨high_mem, high⟩ fun _ left => mem_span.mp left.1
  rwa [whole] at tightest

/-- With bounds that do not overflow, the difference of two ranges is the smallest range with what
is left. -/
theorem trim_tightest (left right : IntRange) :
    (left.trim id right).Tightest (· ∈ left.members \ right.members) := by
  cases left with
  | empty => exact .empty fun x left => Bool.false_ne_true left.1
  | span a b ab =>
    cases right with
    | empty => exact tightest_untrimmed Bool.false_ne_true Bool.false_ne_true
    | span c d cd =>
      simp only [trim, id, Bool.or_eq_true, decide_eq_true_eq]
      split
      · -- the ranges are apart
        refine tightest_untrimmed ?_ ?_ <;> rw [mem_span] <;> omega
      · split
        · split
          · -- the second covers the first
            refine .empty fun x left => ?_
            rw [mem_sdiff_span] at left
            omega
          · -- the second covers the low end only
            refine .of_bounds (mem_sdiff_span.mpr (by omega)) (mem_sdiff_span.mpr (by omega)) ?_
            intro x left
            rw [mem_sdiff_span] at left
            omega
        · split
          · -- the second covers the high end only
            refine .of_bounds (mem_sdiff_span.mpr (by omega)) (mem_sdiff_span.mpr (by omega)) ?_
            intro x left
            rw [mem_sdiff_span] at left
            omega
          · -- the second lies inside the first
            refine tightest_untrimmed ?_ ?_ <;> rw [mem_span] <;> omega

theorem trim_isEmpty_iff (left right : IntRange) :
    (left.trim id right).isEmpty = true ↔ right.covers left = true := by
  rw [(trim_tightest left right).isEmpty_iff, covers_iff_subset]
  simp only [Set.mem_sdiff, not_exists, not_and, not_not]
  rfl

/-- A bound is moved only if it lies below the greatest word, or above the least one, so it does not
matter what becomes of the others. -/
theorem trim_words (leftWords : (signed 64).covers left = true)
    (rightWords : (signed 64).covers right = true) {word : Int → Int}
    (exact : ∀ x, Width.long.Fits x → word x = x) : left.trim word right = left.trim id right := by
  cases left with
  | empty => rfl
  | span a b ab =>
    cases right with
    | empty => rfl
    | span c d cd =>
      have words : signed 64 = span (-9223372036854775808) 9223372036854775807 (by decide) := rfl
      rw [words, covers_span] at leftWords rightWords
      simp only [trim, id]
      split
      · rfl
      · split
        · split
          · rfl
          · have fits : Width.long.Fits (d + 1) := Width.fits_long.mpr (by omega)
            rw [exact _ fits]
        · split
          · have fits : Width.long.Fits (c - 1) := Width.fits_long.mpr (by omega)
            rw [exact _ fits]
          · rfl

end Difference

section Order

/-- A relation that is kept by smaller left and by greater right sides holds between all members of
two ranges exactly if it holds between the ends that face each other. -/
theorem forall_members_iff {related : Int → Int → Prop}
    (kept : ∀ x y, x ≤ b → c ≤ y → related b c → related x y) :
    (∀ x ∈ (span a b ab).members, ∀ y ∈ (span c d cd).members, related x y) ↔ related b c := by
  constructor
  · intro every
    exact every b high_mem c low_mem
  · intro facing x inLeft y inRight
    exact kept x y (mem_span.mp inLeft).2 (mem_span.mp inRight).1 facing

theorem below_iff :
    left.below right = true ↔ ∀ x ∈ left.members, ∀ y ∈ right.members, x < y := by
  cases left with
  | empty => simp [below]
  | span a b ab =>
    cases right with
    | empty => simp [below]
    | span c d cd =>
      rw [forall_members_iff (by omega), below, decide_eq_true_eq]

theorem notAbove_iff :
    left.notAbove right = true ↔ ∀ x ∈ left.members, ∀ y ∈ right.members, x ≤ y := by
  cases left with
  | empty => simp [notAbove]
  | span a b ab =>
    cases right with
    | empty => simp [notAbove]
    | span c d cd =>
      rw [forall_members_iff (by omega), notAbove, decide_eq_true_eq]

theorem isLeast_span : IsLeast (span a b ab).members x ↔ x = a := by
  have low : IsLeast (span a b ab).members a := ⟨low_mem, fun y member => (mem_span.mp member).1⟩
  exact ⟨fun least => least.unique low, fun same => same ▸ low⟩

theorem isGreatest_span : IsGreatest (span a b ab).members x ↔ x = b := by
  have high : IsGreatest (span a b ab).members b :=
    ⟨high_mem, fun y member => (mem_span.mp member).2⟩
  exact ⟨fun greatest => greatest.unique high, fun same => same ▸ high⟩

end Order

end IntRange

namespace Interval

section Extremes

variable {k : IntKind} {range : IntRange} {x : Int}

theorem lowest_ok_iff : lowest (integral k range) = .ok x ↔ IsLeast range.members x := by
  cases range with
  | empty => simp [lowest, bounds, IsLeast]
  | span low high ordered =>
    have made : lowest (integral k (.span low high ordered)) = .ok low := rfl
    rw [made, Except.ok.injEq, IntRange.isLeast_span]
    exact eq_comm

theorem highest_ok_iff : highest (integral k range) = .ok x ↔ IsGreatest range.members x := by
  cases range with
  | empty => simp [highest, bounds, IsGreatest]
  | span low high ordered =>
    have made : highest (integral k (.span low high ordered)) = .ok high := rfl
    rw [made, Except.ok.injEq, IntRange.isGreatest_span]
    exact eq_comm

theorem bounds_error_iff {operation : String} :
    bounds operation (integral k range) = .error (.emptyValue operation) ↔ range.members = ∅ := by
  rw [IntRange.members_eq_empty]
  cases range with
  | empty => exact iff_of_true rfl rfl
  | span low high ordered => exact iff_of_false nofun nofun

end Extremes

theorem minus_integral {k l : IntKind} (left right : IntRange) (alike : k.category = l.category) :
    minus (integral k left) (integral l right) = .ok (integral k (left.without right)) := by
  simp only [minus, pair_integral alike]
  rfl

theorem subsumes_integral {k l : IntKind} (left right : IntRange)
    (alike : k.category = l.category) :
    subsumes (integral k left) (integral l right) = .ok (left.covers right) := by
  simp only [subsumes, pair_integral alike]
  rfl

/-- The common part of two integral values has exactly the common members, and their difference is
the smallest range with what is left: no bound of it overflows, whatever would become of one that
does. A value subsumes another, is
below it or not above it exactly if that holds member by member. The lowest and highest integers are
the least and greatest members, and only a value without members has none. -/
theorem integral_sets_exact (k l : IntKind) (left right : IntRange)
    (alike : k.category = l.category) :
    (∃ kind common, intersection (integral k left) (integral l right) = .ok (integral kind common) ∧
      common.members = left.members ∩ right.members) ∧
    ((IntRange.signed 64).covers left = true → (IntRange.signed 64).covers right = true →
      ∃ rest, minus (integral k left) (integral l right) = .ok (integral k rest) ∧
        rest.Tightest (· ∈ left.members \ right.members) ∧
        ((integral k rest).isBottom = true ↔
          subsumes (integral l right) (integral k left) = .ok true) ∧
        ∀ word : Int → Int, (∀ x, Width.long.Fits x → word x = x) → left.trim word right = rest) ∧
    (∃ answer, subsumes (integral k left) (integral l right) = .ok answer ∧
      (answer = true ↔ right.members ⊆ left.members)) ∧
    (∃ answer, lowerThan (integral k left) (integral l right) = .ok answer ∧
      (answer = true ↔ ∀ x ∈ left.members, ∀ y ∈ right.members, x < y)) ∧
    (∃ answer, lowerOrEqual (integral k left) (integral l right) = .ok answer ∧
      (answer = true ↔ ∀ x ∈ left.members, ∀ y ∈ right.members, x ≤ y)) ∧
    (∀ x, lowest (integral k left) = .ok x ↔ IsLeast left.members x) ∧
    (∀ x, highest (integral k left) = .ok x ↔ IsGreatest left.members x) ∧
    (lowest (integral k left) = .error (.emptyValue "lowest_possible_integer") ↔
      left.members = ∅) ∧
    (highest (integral k left) = .error (.emptyValue "highest_possible_integer") ↔
      left.members = ∅) := by
  refine ⟨?_, ?_, ?_, ?_, ?_, fun x => lowest_ok_iff, fun x => highest_ok_iff, ?_, ?_⟩
  · refine ⟨if k = l then k else .int, left.meet right, ?_, IntRange.members_meet left right⟩
    simp only [intersection, pair_integral alike]
    rfl
  · intro leftWords rightWords
    have words {word : Int → Int} (exact : ∀ x, Width.long.Fits x → word x = x) :=
      IntRange.trim_words leftWords rightWords exact
    have computed : left.without right = left.trim id right := words fun _ => Width.wrap_of_fits
    refine ⟨left.trim id right, ?_, IntRange.trim_tightest left right, ?_, fun _ => words⟩
    · rw [minus_integral left right alike, computed]
    · rw [subsumes_integral right left alike.symm, Except.ok.injEq]
      exact IntRange.trim_isEmpty_iff left right
  · exact ⟨_, subsumes_integral left right alike, IntRange.covers_iff_subset⟩
  · refine ⟨left.below right, ?_, IntRange.below_iff⟩
    simp only [lowerThan, pair_integral alike]
    rfl
  · refine ⟨left.notAbove right, ?_, IntRange.notAbove_iff⟩
    simp only [lowerOrEqual, pair_integral alike]
    rfl
  · exact map_eq_error.trans bounds_error_iff
  · exact map_eq_error.trans bounds_error_iff

/-- The least long is taken away from all longs; what is left does not reach below the least one. -/
theorem integral_sets_exact_extreme :
    let least : IntRange := .singleton (-9223372036854775808)
    let rest : IntRange := .between (-9223372036854775807) 9223372036854775807
    minus (integral .long IntKind.long.fullRange) (integral .long least) =
        .ok (integral .long rest) ∧
      rest.Tightest (· ∈ IntKind.long.fullRange.members \ least.members) ∧
      (∀ word : Int → Int, (∀ x, Width.long.Fits x → word x = x) →
        IntKind.long.fullRange.trim word least = rest) ∧
      IsLeast IntKind.long.fullRange.members (-9223372036854775808) := by
  intro least rest
  obtain ⟨-, difference, -, -, -, lowest, -⟩ :=
    integral_sets_exact .long .long IntKind.long.fullRange least rfl
  obtain ⟨left, made, tightest, -, words⟩ := difference rfl rfl
  have computed : minus (integral .long IntKind.long.fullRange) (integral .long least) =
      .ok (integral .long rest) := rfl
  have same : left = rest := (integral.inj (Except.ok.inj (made.symm.trans computed))).2
  rw [same] at tightest words
  exact ⟨computed, tightest, words, (lowest _).mp rfl⟩

end Interval

end MethodFlow

import MethodFlow.Addresses
import MethodFlow.Nullness
import MethodFlow.Proofs.RangeMembers
import MethodFlow.Proofs.SortedContainers
import MethodFlow.Range.Float

/-! The orders by inclusion of what values are made of. Each of them is a preorder in which the join
is a least upper bound and the meet a greatest lower bound, and two things that include each other
are equal. -/
namespace MethodFlow

namespace IntRange

theorem covers_refl (range : IntRange) : range.covers range = true :=
  (covers_iff range range).mpr fun _ member => member

theorem covers_trans {a b c : IntRange} (first : a.covers b = true) (second : b.covers c = true) :
    a.covers c = true := by
  rw [covers_iff] at *
  intro x member
  exact first x (second x member)

theorem covers_hull {range a b : IntRange} :
    range.covers (a.hull b) = true ↔ range.covers a = true ∧ range.covers b = true := by
  cases a with
  | empty => simp [hull, covers]
  | span p q pq =>
    cases b with
    | empty => simp [hull, covers]
    | span r s rs =>
      have ordered : min p r ≤ max q s := by omega
      rw [hull, between, dif_pos ordered]
      cases range with
      | empty => simp [covers]
      | span low high _ =>
        simp only [covers, Bool.and_eq_true, decide_eq_true_eq]
        omega

theorem covers_foldl_hull {α : Type} (part : α → IntRange) (parts : List α)
    {range start : IntRange} :
    range.covers (parts.foldl (fun joined x => joined.hull (part x)) start) = true ↔
      range.covers start = true ∧ ∀ x ∈ parts, range.covers (part x) = true := by
  induction parts generalizing start with
  | nil => simp
  | cons head rest ih =>
    simp only [List.foldl_cons, ih, covers_hull, List.forall_mem_cons, and_assoc]

theorem meet_covers {range a b : IntRange} :
    (a.meet b).covers range = true ↔ a.covers range = true ∧ b.covers range = true := by
  simp only [covers_iff, contains_meet]
  constructor
  · intro both
    exact ⟨fun x member => (both x member).1, fun x member => (both x member).2⟩
  · rintro ⟨left, right⟩ x member
    exact ⟨left x member, right x member⟩

theorem eq_of_covers {a b : IntRange} (first : a.covers b = true) (second : b.covers a = true) :
    a = b := by
  cases a with
  | empty =>
    cases b with
    | empty => rfl
    | span => cases first
  | span p q _ =>
    cases b with
    | empty => cases second
    | span r s _ =>
      simp only [covers, Bool.and_eq_true, decide_eq_true_eq] at first second
      obtain rfl : p = r := by omega
      obtain rfl : q = s := by omega
      rfl

end IntRange

namespace Nullness

theorem covers_refl (a : Nullness) : a.covers a = true := by
  cases a <;> rfl

theorem covers_trans {a b c : Nullness} (first : a.covers b = true) (second : b.covers c = true) :
    a.covers c = true := by
  cases a <;> cases b <;> cases first <;> cases c <;> cases second <;> rfl

theorem covers_join {a b c : Nullness} :
    a.covers (b.join c) = true ↔ a.covers b = true ∧ a.covers c = true := by
  cases a <;> cases b <;> cases c <;> decide

theorem meet_covers {a b c : Nullness} :
    (a.meet b).covers c = true ↔ a.covers c = true ∧ b.covers c = true := by
  cases a <;> cases b <;> cases c <;> decide

theorem eq_of_covers {a b : Nullness} (first : a.covers b = true) (second : b.covers a = true) :
    a = b := by
  cases a <;> cases b <;> cases first <;> cases second <;> rfl

end Nullness

namespace Addresses

theorem covers_known {a b : SortedSet Nat} :
    (known a).covers (known b) = true ↔ ∀ target ∈ b.toList, target ∈ a.toList :=
  SortedSet.subset_iff

theorem covers_refl (a : Addresses) : a.covers a = true := by
  cases a with
  | known targets => exact covers_known.mpr fun _ member => member
  | any => rfl

theorem covers_trans {a b c : Addresses} (first : a.covers b = true) (second : b.covers c = true) :
    a.covers c = true := by
  cases a with
  | any => rfl
  | known s =>
    cases b with
    | any => cases first
    | known t =>
      cases c with
      | any => cases second
      | known u =>
        rw [covers_known] at *
        exact fun target member => first target (second target member)

theorem covers_join {a b c : Addresses} :
    a.covers (b.join c) = true ↔ a.covers b = true ∧ a.covers c = true := by
  cases a with
  | any => simp [covers]
  | known s =>
    cases b with
    | any => simp [join, covers]
    | known t =>
      cases c with
      | any => simp [join, covers]
      | known u =>
        simp only [join, covers_known, SortedSet.mem_union]
        constructor
        · intro both
          exact ⟨fun target member => both target (.inl member),
            fun target member => both target (.inr member)⟩
        · rintro ⟨left, right⟩ target (member | member)
          · exact left target member
          · exact right target member

theorem meet_covers {a b c : Addresses} :
    (a.meet b).covers c = true ↔ a.covers c = true ∧ b.covers c = true := by
  cases a with
  | any => simp [meet, covers]
  | known s =>
    cases b with
    | any => simp [meet, covers]
    | known t =>
      cases c with
      | any => simp [meet, covers]
      | known u =>
        simp only [meet, covers_known, SortedSet.mem_inter]
        constructor
        · intro both
          exact ⟨fun target member => (both target member).1,
            fun target member => (both target member).2⟩
        · rintro ⟨left, right⟩ target member
          exact ⟨left target member, right target member⟩

theorem eq_of_covers {a b : Addresses} (first : a.covers b = true) (second : b.covers a = true) :
    a = b := by
  cases a with
  | any =>
    cases b with
    | any => rfl
    | known => cases second
  | known s =>
    cases b with
    | any => cases first
    | known t =>
      rw [covers_known] at first second
      exact congrArg known (SortedSet.ext fun target => ⟨second target, first target⟩)

end Addresses

/-- The order of a floating-point format: numbers are what is not above itself, and any two numbers
can be compared. -/
class OrderedFormat (α : Type) [FloatFormat α] : Prop where
  le_left {x y : α} : FloatFormat.le x y = true → FloatFormat.le x x = true
  le_right {x y : α} : FloatFormat.le x y = true → FloatFormat.le y y = true
  le_trans {x y z : α} : FloatFormat.le x y = true → FloatFormat.le y z = true →
    FloatFormat.le x z = true
  le_total {x y : α} : FloatFormat.le x x = true → FloatFormat.le y y = true →
    FloatFormat.le x y = true ∨ FloatFormat.le y x = true

theorem le_float_iff {x y : Float} : FloatFormat.le x y = true ↔
    x.isNaN = false ∧ y.isNaN = false ∧ floatRank x ≤ floatRank y := by
  simp [FloatFormat.le, and_assoc]

instance : OrderedFormat Float where
  le_left := by
    intro x y
    simp only [le_float_iff]
    rintro ⟨number, _, _⟩
    exact ⟨number, number, Int.le_refl _⟩
  le_right := by
    intro x y
    simp only [le_float_iff]
    rintro ⟨_, number, _⟩
    exact ⟨number, number, Int.le_refl _⟩
  le_trans := by
    intro x y z
    simp only [le_float_iff]
    rintro ⟨number, _, below⟩ ⟨_, other, above⟩
    exact ⟨number, other, Int.le_trans below above⟩
  le_total := by
    intro x y
    simp only [le_float_iff]
    rintro ⟨number, _, _⟩ ⟨other, _, _⟩
    rcases Int.le_total (floatRank x) (floatRank y) with below | above
    · exact .inl ⟨number, other, below⟩
    · exact .inr ⟨other, number, above⟩

namespace FloatFormat

variable {α : Type} [FloatFormat α] [OrderedFormat α] {x y z : α}

open OrderedFormat

theorem le_lower (number : le x x = true) (other : le y y = true) :
    le z (lower x y) = true ↔ le z x = true ∧ le z y = true := by
  unfold lower
  split
  · rename_i below
    exact ⟨fun bound => ⟨bound, le_trans bound below⟩, fun bounds => bounds.1⟩
  · rename_i above
    have below : le y x = true := (le_total number other).resolve_left above
    exact ⟨fun bound => ⟨le_trans bound below, bound⟩, fun bounds => bounds.2⟩

theorem upper_le (number : le x x = true) (other : le y y = true) :
    le (upper x y) z = true ↔ le x z = true ∧ le y z = true := by
  unfold upper
  split
  · rename_i below
    exact ⟨fun bound => ⟨bound, le_trans below bound⟩, fun bounds => bounds.1⟩
  · rename_i above
    have below : le x y = true := (le_total other number).resolve_left above
    exact ⟨fun bound => ⟨le_trans below bound, bound⟩, fun bounds => bounds.2⟩

theorem lower_le (number : le x x = true) (other : le y y = true) :
    le (lower x y) x = true ∧ le (lower x y) y = true := by
  rw [← le_lower number other]
  unfold lower
  split
  · exact number
  · exact other

theorem le_upper (number : le x x = true) (other : le y y = true) :
    le x (upper x y) = true ∧ le y (upper x y) = true := by
  rw [← upper_le number other]
  unfold upper
  split
  · exact number
  · exact other

end FloatFormat

namespace FloatRange

open FloatFormat OrderedFormat

variable {α : Type} [FloatFormat α]

theorem of_span (span : Option (FloatSpan α)) (nan : Bool) :
    of (span.map fun span => (span.low, span.high)) nan = ⟨span, nan⟩ := by
  cases span with
  | none => rfl
  | some span => exact dif_pos span.ordered

theorem nan_of (bounds : Option (α × α)) (nan : Bool) : (of bounds nan).nan = nan := by
  unfold of
  split
  · rfl
  · split <;> rfl

theorem hull_none (span : Option (FloatSpan α)) (m n : Bool) :
    hull ⟨none, m⟩ ⟨span, n⟩ = ⟨span, m || n⟩ := by
  simpa only [hull, bounds?, Option.map_none] using of_span span (m || n)

theorem hull_some_none (span : FloatSpan α) (m n : Bool) :
    hull ⟨some span, m⟩ ⟨none, n⟩ = ⟨some span, m || n⟩ := of_span (some span) (m || n)

theorem beq_iff_covers {a b : FloatRange α} :
    (a == b) = true ↔ a.covers b = true ∧ b.covers a = true := by
  obtain ⟨s, m⟩ := a
  obtain ⟨t, n⟩ := b
  have flags : (m == n) = true ↔ (m || !n) = true ∧ (n || !m) = true := by
    cases m <;> cases n <;> decide
  change (beq ⟨s, m⟩ ⟨t, n⟩) = true ↔ _
  cases s with
  | none =>
    cases t with
    | none => simp only [beq, bounds?, covers, Option.map_none, Bool.true_and, flags]
    | some t => simp [beq, bounds?, covers]
  | some s =>
    cases t with
    | none => simp [beq, bounds?, covers]
    | some t =>
      simp only [beq, bounds?, covers, same, Option.map_some, Bool.and_eq_true, flags]
      tauto

variable [OrderedFormat α]

theorem covers_refl (range : FloatRange α) : range.covers range = true := by
  obtain ⟨span, nan⟩ := range
  cases span with
  | none => simp [covers]
  | some span => simp [covers, le_left span.ordered, le_right span.ordered]

theorem covers_trans {a b c : FloatRange α} (first : a.covers b = true)
    (second : b.covers c = true) : a.covers c = true := by
  obtain ⟨s, m⟩ := a
  obtain ⟨t, n⟩ := b
  obtain ⟨u, o⟩ := c
  simp only [covers, Bool.and_eq_true] at first second ⊢
  constructor
  · cases u with
    | none => rfl
    | some u =>
      cases t with
      | none => cases second.1
      | some t =>
        cases s with
        | none => cases first.1
        | some s =>
          simp only [Bool.and_eq_true] at first second ⊢
          exact ⟨le_trans first.1.1 second.1.1, le_trans second.1.2 first.1.2⟩
  · cases m <;> cases n <;> cases o <;> simp_all

theorem hull_some (s t : FloatSpan α) (m n : Bool) : ∃ ordered,
    hull ⟨some s, m⟩ ⟨some t, n⟩ =
      ⟨some ⟨lower s.low t.low, upper s.high t.high, ordered⟩, m || n⟩ := by
  have below := (lower_le (le_left s.ordered) (le_left t.ordered)).1
  have above := (le_upper (le_right s.ordered) (le_right t.ordered)).1
  have ordered : le (lower s.low t.low) (upper s.high t.high) = true :=
    le_trans (le_trans below s.ordered) above
  exact ⟨ordered, dif_pos ordered⟩

theorem covers_hull {range a b : FloatRange α} :
    range.covers (a.hull b) = true ↔ range.covers a = true ∧ range.covers b = true := by
  obtain ⟨s, m⟩ := range
  obtain ⟨t, n⟩ := a
  obtain ⟨u, o⟩ := b
  have flags : (m || !(n || o)) = true ↔ (m || !n) = true ∧ (m || !o) = true := by
    cases m <;> cases n <;> cases o <;> decide
  cases t with
  | none =>
    rw [hull_none]
    simp only [covers, Bool.and_eq_true, flags]
    tauto
  | some t =>
    cases u with
    | none =>
      rw [hull_some_none]
      simp only [covers, Bool.and_eq_true, flags]
      tauto
    | some u =>
      obtain ⟨ordered, joined⟩ := hull_some t u n o
      have low : ∀ x, le x (lower t.low u.low) = true ↔ le x t.low = true ∧ le x u.low = true :=
        fun _ => le_lower (le_left t.ordered) (le_left u.ordered)
      have high : ∀ x, le (upper t.high u.high) x = true ↔
          le t.high x = true ∧ le u.high x = true :=
        fun _ => upper_le (le_right t.ordered) (le_right u.ordered)
      rw [joined]
      cases s with
      | none => simp [covers]
      | some s =>
        simp only [covers, Bool.and_eq_true, flags, low, high]
        tauto

theorem meet_covers {range a b : FloatRange α} :
    (a.meet b).covers range = true ↔ a.covers range = true ∧ b.covers range = true := by
  obtain ⟨s, m⟩ := a
  obtain ⟨t, n⟩ := b
  obtain ⟨u, o⟩ := range
  have flags : (m && n || !o) = true ↔ (m || !o) = true ∧ (n || !o) = true := by
    cases m <;> cases n <;> cases o <;> decide
  cases u with
  | none =>
    have nan : (meet ⟨s, m⟩ ⟨t, n⟩).nan = (m && n) := nan_of ..
    simp only [covers, nan, Bool.true_and, flags]
  | some u =>
    cases s with
    | none => simp [meet, bounds?, of, covers]
    | some s =>
      cases t with
      | none => simp [meet, bounds?, of, covers]
      | some t =>
        have low := upper_le (z := u.low) (le_left s.ordered) (le_left t.ordered)
        have high := le_lower (z := u.high) (le_right s.ordered) (le_right t.ordered)
        simp only [meet, bounds?, Option.map_some, of]
        split
        · simp only [covers, Bool.and_eq_true, flags, low, high]
          tauto
        · -- bounds in the wrong order have nothing between them that both ranges could cover
          rename_i unordered
          simp only [covers, Bool.false_and, Bool.false_eq_true, false_iff, Bool.and_eq_true]
          rintro ⟨⟨⟨lowLeft, highLeft⟩, _⟩, ⟨lowRight, highRight⟩, _⟩
          have above := le_trans (low.mpr ⟨lowLeft, lowRight⟩) u.ordered
          exact unordered (le_trans above (high.mpr ⟨highLeft, highRight⟩))

end FloatRange

end MethodFlow

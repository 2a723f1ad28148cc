import Mathlib.Data.List.Basic
import Mathlib.Data.Set.List
import MethodFlow.Concretization

/-! The values a concretization denotes, listed once in ascending order. Every query is answered
from the form the values are kept in; here each answer is read off the list, so that all agree. -/
namespace MethodFlow

namespace ConcreteValue

theorem beq_eq_true_iff {a b : ConcreteValue} : (a == b) = true ↔ compare a b = .eq :=
  beq_iff_eq (a := compare a b)

theorem beq_refl (value : ConcreteValue) : (value == value) = true :=
  beq_eq_true_iff.mpr Std.ReflCmp.compare_self

theorem int_beq_iff {n : Int} {value : ConcreteValue} :
    (int n == value) = true ↔ value = int n := by
  rw [beq_eq_true_iff]
  cases value with
  | int m =>
    have ranked : compare (int n) (int m) = compare n m := rfl
    rw [ranked, Int.compare_eq_eq, int.injEq, eq_comm]
  | float | null | returnAddress => exact iff_of_false (by rintro ⟨⟩) (by rintro ⟨⟩)

theorem beq_symm {a b : ConcreteValue} : (a == b) = true ↔ (b == a) = true := by
  rw [beq_eq_true_iff, beq_eq_true_iff, Std.OrientedCmp.eq_comm]

end ConcreteValue

namespace Concretization

theorem mem_ascendingFrom (first : Int) (count : Nat) (n : Int) :
    n ∈ ascendingFrom first count ↔ first ≤ n ∧ n < first + count := by
  induction count generalizing first with
  | zero => simp [ascendingFrom]
  | succ count ih =>
    rw [ascendingFrom, List.mem_cons, ih]
    omega

theorem ascendingFrom_ascending (first : Int) (count : Nat) :
    (ascendingFrom first count).Pairwise (· < ·) := by
  induction count generalizing first with
  | zero => exact .nil
  | succ count ih =>
    refine .cons (fun x later => ?_) (ih (first + 1))
    have above := ((mem_ascendingFrom ..).mp later).1
    omega

@[simp] theorem length_ascendingFrom (first : Int) (count : Nat) :
    (ascendingFrom first count).length = count := by
  induction count generalizing first with
  | zero => rfl
  | succ count ih => rw [ascendingFrom, List.length_cons, ih]

/-- The denoted values in ascending order, unless they are unbounded. -/
def members? : Concretization → Option (List ConcreteValue)
  | values set => some set.toList
  | integers low high => some ((ascendingFrom low (high - low + 1).toNat).map .int)
  | unbounded => none

variable {denoted : Concretization} {members : List ConcreteValue} {list : List Int} {limit : Nat}

theorem members?_eq_none : denoted.members? = none ↔ denoted = unbounded := by
  cases denoted <;> simp [members?]

theorem map_int_ascending :
    (list.map ConcreteValue.int).Pairwise (fun a b => compare a b = .lt) ↔
      list.Pairwise (· < ·) := by
  have ranked (n m : Int) : compare (ConcreteValue.int n) (.int m) = .lt ↔ n < m := by
    rw [← Int.compare_eq_lt]
    rfl
  simp only [List.pairwise_map, ranked]

theorem members?_ascending (listed : denoted.members? = some members) :
    members.Pairwise fun a b => compare a b = .lt := by
  cases denoted with
  | values set =>
    cases listed
    exact set.ascending
  | integers low high =>
    cases listed
    exact map_int_ascending.mpr (ascendingFrom_ascending low _)
  | unbounded => cases listed

theorem size?_eq (denoted : Concretization) : denoted.size? = denoted.members?.map List.length := by
  cases denoted with
  | values set => rfl
  | integers low high => simp [size?, members?]
  | unbounded => rfl

theorem size?_eq_some_iff {count : Nat} :
    denoted.size? = some count ↔ ∃ members, denoted.members? = some members ∧
      members.length = count := by
  rw [size?_eq, Option.map_eq_some_iff]

theorem isEmpty_iff : denoted.isEmpty = true ↔ denoted.members? = some [] := by
  cases denoted with
  | values set => simp [isEmpty, members?, SortedSet.isEmpty]
  | integers low high =>
    rw [members?, Option.some_inj, ← List.length_eq_zero_iff, List.length_map, length_ascendingFrom]
    simp only [isEmpty, decide_eq_true_eq]
    omega
  | unbounded => simp [isEmpty, members?]

theorem contains_iff (listed : denoted.members? = some members) (value : ConcreteValue) :
    denoted.contains value = true ↔ ∃ member ∈ members, (value == member) = true := by
  cases denoted with
  | values set =>
    cases listed
    exact List.any_eq_true
  | integers low high =>
    cases listed
    cases value with
    | int n =>
      have among : (∃ member ∈ (ascendingFrom low (high - low + 1).toNat).map ConcreteValue.int,
          (ConcreteValue.int n == member) = true) ↔
          n ∈ ascendingFrom low (high - low + 1).toNat := by
        simp [ConcreteValue.int_beq_iff]
      rw [among, mem_ascendingFrom]
      simp only [contains, Bool.and_eq_true, decide_eq_true_eq]
      omega
    | float | null | returnAddress =>
      refine iff_of_false (by rintro ⟨⟩) ?_
      rintro ⟨_, member, equal⟩
      obtain ⟨n, _, rfl⟩ := List.mem_map.mp member
      cases equal
  | unbounded => cases listed

theorem contains_int_iff (listed : denoted.members? = some (list.map .int)) (n : Int) :
    denoted.contains (.int n) = true ↔ n ∈ list := by
  simp [contains_iff listed, ConcreteValue.int_beq_iff]

theorem single?_eq_some_iff {value : ConcreteValue} :
    denoted.single? = some value ↔ denoted.members? = some [value] := by
  cases denoted with
  | values set =>
    simp only [single?, members?, Option.some_inj]
    split
    · rename_i held one
      rw [one, Option.some_inj, List.singleton_inj]
    · rename_i several
      exact iff_of_false (by rintro ⟨⟩) (several value)
  | integers low high =>
    simp only [single?, members?, Option.some_inj]
    constructor
    · intro alone
      split at alone
      · rename_i same
        cases alone
        have one : (high - low + 1).toNat = 1 := by omega
        rw [one]
        rfl
      · cases alone
    · intro alone
      have one : (high - low + 1).toNat = 1 := by simpa using congrArg List.length alone
      rw [one] at alone
      cases alone
      exact if_pos (by omega)
  | unbounded => simp [single?, members?]

theorem mapM_eq_some_iff {values : List ConcreteValue} :
    (values.mapM fun value =>
      match value with
      | .int n => some n
      | _ => none) = some list ↔ values = list.map .int := by
  induction values generalizing list with
  | nil => simp [eq_comm]
  | cons value rest ih =>
    cases value with
    | int n => cases list <;> simp [Option.bind_eq_some_iff, ih, and_comm]
    | float | null | returnAddress => cases list <;> simp

theorem integers?_eq_some_iff :
    denoted.integers? limit = some list ↔
      denoted.members? = some (list.map .int) ∧ list.length ≤ limit := by
  cases denoted with
  | values set =>
    have read : set.toList = list.map .int → set.size = list.length := by
      intro listed
      rw [SortedSet.size, listed, List.length_map]
    rw [integers?, members?, Option.some_inj]
    split
    · rename_i above
      refine iff_of_false (by rintro ⟨⟩) ?_
      rintro ⟨listed, small⟩
      have size := read listed
      omega
    · rename_i small
      refine mapM_eq_some_iff.trans ⟨fun listed => ⟨listed, ?_⟩, And.left⟩
      have size := read listed
      omega
  | integers low high =>
    have injective : Function.Injective (List.map ConcreteValue.int) :=
      List.map_injective_iff.mpr fun _ _ => ConcreteValue.int.inj
    rw [integers?, members?, Option.some_inj, injective.eq_iff, Option.ite_none_right_eq_some,
      Option.some_inj, and_comm]
    refine and_congr_right ?_
    rintro rfl
    rw [length_ascendingFrom]
  | unbounded => simp [integers?, members?]

theorem members_integral (listed : denoted.members? = some members)
    (integral : ∀ value, denoted.contains value = true → ∃ n, value = .int n) :
    ∃ list : List Int, members = list.map .int := by
  have range : members ∈ Set.range (List.map ConcreteValue.int) := by
    rw [Set.range_list_map]
    intro value member
    have contained := (contains_iff listed value).mpr ⟨value, member, value.beq_refl⟩
    obtain ⟨n, isInt⟩ := integral value contained
    exact ⟨n, isInt.symm⟩
  obtain ⟨list, made⟩ := range
  exact ⟨list, made.symm⟩

structure FewIntegers (limit : Nat) (denoted : Concretization) : Prop where
  integral : ∀ value, denoted.contains value = true → ∃ n, value = .int n
  few : ∃ count ≤ limit, denoted.size? = some count

theorem FewIntegers.listed (few : denoted.FewIntegers limit) :
    ∃ list, denoted.integers? limit = some list ∧
      ∀ n, n ∈ list ↔ denoted.contains (.int n) = true := by
  obtain ⟨integral, count, small, size⟩ := few
  obtain ⟨members, listed, rfl⟩ := size?_eq_some_iff.mp size
  obtain ⟨list, rfl⟩ := members_integral listed integral
  refine ⟨list, integers?_eq_some_iff.mpr ⟨listed, ?_⟩, fun n => (contains_int_iff listed n).symm⟩
  simpa using small

theorem fewIntegers_of_integers? (made : denoted.integers? limit = some list) :
    denoted.FewIntegers limit := by
  obtain ⟨listed, small⟩ := integers?_eq_some_iff.mp made
  refine ⟨?_, list.length, small, size?_eq_some_iff.mpr ⟨_, listed, List.length_map ..⟩⟩
  intro value member
  obtain ⟨held, among, equal⟩ := (contains_iff listed value).mp member
  obtain ⟨n, _, rfl⟩ := List.mem_map.mp among
  exact ⟨n, ConcreteValue.int_beq_iff.mp (ConcreteValue.beq_symm.mp equal)⟩

theorem integers?_ascending (made : denoted.integers? limit = some list) :
    list.Pairwise (· < ·) :=
  map_int_ascending.mp (members?_ascending (integers?_eq_some_iff.mp made).1)

theorem single?_beq_iff {value : ConcreteValue} :
    (denoted.single? == some value) = true ↔
      denoted.size? = some 1 ∧ denoted.contains value = true := by
  rw [size?_eq_some_iff]
  constructor
  · intro equal
    cases alone : denoted.single? with
    | none =>
      rw [alone] at equal
      cases equal
    | some held =>
      have listed := single?_eq_some_iff.mp alone
      rw [alone, Option.some_beq_some] at equal
      refine ⟨⟨[held], listed, rfl⟩, (contains_iff listed value).mpr ⟨held, ?_, ?_⟩⟩
      · exact List.mem_singleton_self held
      · exact ConcreteValue.beq_symm.mp equal
  · rintro ⟨⟨members, listed, one⟩, member⟩
    obtain ⟨held, rfl⟩ := List.length_eq_one_iff.mp one
    obtain ⟨other, among, equal⟩ := (contains_iff listed value).mp member
    cases List.mem_singleton.mp among
    rw [single?_eq_some_iff.mpr listed, Option.some_beq_some]
    exact ConcreteValue.beq_symm.mp equal

/-- All answers are about the same values. A size counts what is contained, and only what is
unbounded has none. Integers are listed exactly if nothing else is denoted and the limit is kept,
and then all of them in ascending order. A single value is found under every equal one, as a zero is
under the other. -/
theorem views_agree (denoted : Concretization) (limit : Nat) :
    (denoted.size? = none ↔ denoted = unbounded) ∧
    (∀ count, denoted.size? = some count → ∃ members : List ConcreteValue,
      members.Pairwise (fun a b => compare a b = .lt) ∧ members.length = count ∧
      ∀ value, denoted.contains value = true ↔ ∃ member ∈ members, (value == member) = true) ∧
    ((∃ list, denoted.integers? limit = some list) ↔ denoted.FewIntegers limit) ∧
    (∀ list, denoted.integers? limit = some list →
      list.Pairwise (· < ·) ∧ (∀ n, n ∈ list ↔ denoted.contains (.int n) = true) ∧
      denoted.size? = some list.length) ∧
    (denoted.isEmpty = true ↔ denoted.size? = some 0) ∧
    (∀ value, (denoted.single? == some value) = true ↔
      denoted.size? = some 1 ∧ denoted.contains value = true) := by
  refine ⟨?_, ?_, ⟨?_, ?_⟩, ?_, ?_, fun _ => single?_beq_iff⟩
  · rw [size?_eq, Option.map_eq_none_iff, members?_eq_none]
  · intro count size
    obtain ⟨members, listed, length⟩ := size?_eq_some_iff.mp size
    exact ⟨members, members?_ascending listed, length, contains_iff listed⟩
  · rintro ⟨list, made⟩
    exact fewIntegers_of_integers? made
  · intro few
    obtain ⟨list, made, _⟩ := few.listed
    exact ⟨list, made⟩
  · intro list made
    have listed := (integers?_eq_some_iff.mp made).1
    refine ⟨integers?_ascending made, fun n => (contains_int_iff listed n).symm, ?_⟩
    exact size?_eq_some_iff.mpr ⟨_, listed, List.length_map ..⟩
  · rw [isEmpty_iff, size?_eq_some_iff]
    simp

/-- Two integers are listed, all longs are too many, and a zero is found whatever its sign. -/
theorem views_agree_extremes :
    let pair := values (.ofList [.int 3, .int (-1)])
    let longs := integers (-9223372036854775808) 9223372036854775807
    let zero := single (.float 0.0)
    pair.integers? 2 = some [-1, 3] ∧ pair.size? = some 2 ∧
      (∀ n, n ∈ [-1, 3] ↔ pair.contains (.int n) = true) ∧
      longs.size? = some 18446744073709551616 ∧ ¬longs.FewIntegers 1024 ∧
      zero.size? = some 1 ∧ zero.contains (.float (-0.0)) = true := by
  intro pair longs zero
  have two : pair.integers? 2 = some [-1, 3] := rfl
  have tooMany : ¬∃ list, longs.integers? 1024 = some list := by rintro ⟨_, ⟨⟩⟩
  have alone : (zero.single? == some (.float (-0.0))) = true := by decide
  obtain ⟨_, all, size⟩ := (views_agree pair 2).2.2.2.1 _ two
  obtain ⟨_, _, listed, _⟩ := views_agree longs 1024
  obtain ⟨_, _, _, _, _, single⟩ := views_agree zero 0
  exact ⟨two, size, all, rfl, mt listed.mpr tooMany, (single _).mp alone⟩

end Concretization

end MethodFlow

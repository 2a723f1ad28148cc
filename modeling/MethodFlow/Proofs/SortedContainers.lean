import Mathlib.Data.List.Forall2
import Mathlib.Data.List.Nodup
import Mathlib.Data.List.Perm.Subperm
import MethodFlow.Sorted.Map
import MethodFlow.Sorted.Set

/-! What a sorted map gives for a key after an entry was put in or taken out, which members a sorted
set has, and that both are determined by what they give. -/
namespace MethodFlow

theorem ascending_nodup {α : Type} [Ord α] [Std.ReflOrd α] {list : List α}
    (ascending : list.Pairwise fun a b => compare a b = .lt) : list.Nodup := by
  refine ascending.imp ?_
  intro a b below equal
  have same : compare b b = .eq := Std.ReflCmp.compare_self
  rw [equal, same] at below
  cases below

theorem ascending_ext {α : Type} [Ord α] [Std.TransOrd α] {left right : List α}
    (ascendingLeft : left.Pairwise fun a b => compare a b = .lt)
    (ascendingRight : right.Pairwise fun a b => compare a b = .lt)
    (same : ∀ a, a ∈ left ↔ a ∈ right) : left = right := by
  have permuted := (List.perm_ext_iff_of_nodup (ascending_nodup ascendingLeft)
    (ascending_nodup ascendingRight)).mpr same
  refine permuted.eq_of_pairwise ?_ ascendingLeft ascendingRight
  intro a b _ _ below above
  exact absurd above (Std.OrientedCmp.not_lt_of_lt below)

theorem ascending_sublist {α : Type} [Ord α] [Std.TransOrd α] {left right : List α}
    (ascendingLeft : left.Pairwise fun a b => compare a b = .lt)
    (ascendingRight : right.Pairwise fun a b => compare a b = .lt)
    (subset : ∀ a ∈ left, a ∈ right) : left.Sublist right := by
  obtain ⟨middle, permuted, sublist⟩ := (ascending_nodup ascendingLeft).subperm subset
  have same : middle = left :=
    ascending_ext (ascendingRight.sublist sublist) ascendingLeft fun _ => permuted.mem_iff
  exact same ▸ sublist

theorem beq_of_forall₂ {α : Type} [BEq α] {a b : List α}
    (related : List.Forall₂ (fun x y => (x == y) = true) a b) : (a == b) = true := by
  induction related with
  | nil => rfl
  | cons head _ ih => simpa [head] using ih

namespace SortedMap

variable {κ ν : Type} [Ord κ] [Std.LawfulEqOrd κ]

theorem find?_place (key other : κ) (value : ν) (list : List (κ × ν)) :
    ((place key value list).find? fun entry => compare other entry.1 == .eq) =
      if compare other key = .eq then some (key, value)
      else list.find? fun entry => compare other entry.1 == .eq := by
  induction list with
  | nil => by_cases same : compare other key = .eq <;> simp [place, same]
  | cons head rest ih =>
    simp only [place]
    split
    · by_cases same : compare other key = .eq <;> simp [List.find?_cons, same]
    · rename_i replaced
      rw [Std.LawfulEqOrd.compare_eq_iff_eq] at replaced
      by_cases same : compare other key = .eq
      · simp [same]
      · have other : ¬compare other head.1 = .eq := replaced ▸ same
        simp [same, other]
    · rename_i above
      rw [List.find?_cons, List.find?_cons, ih]
      by_cases same : compare other key = .eq
      · have equal : other = key := Std.LawfulEqOrd.compare_eq_iff_eq.mp same
        simp [equal, above]
      · simp [same]

@[simp] theorem get?_insert [DecidableEq κ] [Std.TransOrd κ] (map : SortedMap κ ν) (key other : κ)
    (value : ν) :
    (map.insert key value).get? other = if other = key then some value else map.get? other := by
  simp only [get?, insert, find?_place, Std.LawfulEqOrd.compare_eq_iff_eq]
  split <;> rfl

@[simp] theorem get?_erase [DecidableEq κ] (map : SortedMap κ ν) (key other : κ) :
    (map.erase key).get? other = if other = key then none else map.get? other := by
  simp only [get?, erase, List.find?_filter]
  split
  · rename_i same
    have none : (map.entries.find? fun entry =>
        decide ((compare key entry.1 != .eq) = true ∧ (compare other entry.1 == .eq) = true)) =
          none := by
      simp [same]
    rw [none]
    rfl
  · rename_i different
    congr 2
    funext entry
    by_cases found : compare other entry.1 = .eq
    · have equal : other = entry.1 := Std.LawfulEqOrd.compare_eq_iff_eq.mp found
      simp [← equal, Ne.symm different]
    · simp [found]

omit [Std.LawfulEqOrd κ] in
theorem keys_ascending (map : SortedMap κ ν) :
    map.keys.Pairwise fun a b => compare a b = .lt := List.pairwise_map.mpr map.ascending

theorem get?_eq_some_iff {map : SortedMap κ ν} {key : κ} {value : ν} :
    map.get? key = some value ↔ (key, value) ∈ map.entries := by
  rw [get?, Option.map_eq_some_iff]
  constructor
  · rintro ⟨entry, found, rfl⟩
    have same := List.find?_some found
    rw [beq_iff_eq, Std.LawfulEqOrd.compare_eq_iff_eq] at same
    rw [same]
    exact List.mem_of_find?_eq_some found
  · intro member
    cases found : map.entries.find? fun entry => compare key entry.1 == .eq with
    | none => simpa using List.find?_eq_none.mp found _ member
    | some entry =>
      have same := List.find?_some found
      rw [beq_iff_eq, Std.LawfulEqOrd.compare_eq_iff_eq] at same
      have isEntry := List.inj_on_of_nodup_map (ascending_nodup map.keys_ascending) member
        (List.mem_of_find?_eq_some found) same
      exact ⟨entry, rfl, by rw [← isEntry]⟩

theorem mem_keys_iff {map : SortedMap κ ν} {key : κ} :
    key ∈ map.keys ↔ ∃ value, map.get? key = some value := by
  simp [keys, get?_eq_some_iff]

/-- Maps that give related values for every key list related entries. -/
theorem entries_related [Std.TransOrd κ] {R : ν → ν → Prop} {a b : SortedMap κ ν}
    (related : ∀ key, Option.Rel R (a.get? key) (b.get? key)) :
    List.Forall₂ (fun x y => x.1 = y.1 ∧ R x.2 y.2) a.entries b.entries := by
  have keys : a.keys = b.keys := by
    refine ascending_ext a.keys_ascending b.keys_ascending ?_
    intro key
    rw [mem_keys_iff, mem_keys_iff]
    have here := related key
    generalize a.get? key = left, b.get? key = right at here
    cases here with
    | none => rfl
    | some _ => simp
  have lengths : a.entries.length = b.entries.length := by
    simpa [SortedMap.keys] using congrArg List.length keys
  rw [List.forall₂_iff_get]
  refine ⟨lengths, fun i inLeft inRight => ?_⟩
  have sameKey : (a.entries.get ⟨i, inLeft⟩).1 = (b.entries.get ⟨i, inRight⟩).1 := by
    have at_i := congrArg (·[i]?) keys
    simpa [SortedMap.keys, inLeft, inRight] using at_i
  refine ⟨sameKey, ?_⟩
  have here := related (a.entries.get ⟨i, inLeft⟩).1
  rw [get?_eq_some_iff.mpr (List.get_mem ..), sameKey,
    get?_eq_some_iff.mpr (List.get_mem ..)] at here
  cases here with
  | some holds => exact holds

theorem ext [Std.TransOrd κ] {a b : SortedMap κ ν} (same : ∀ key, a.get? key = b.get? key) :
    a = b := by
  have related : ∀ key, Option.Rel Eq (a.get? key) (b.get? key) := by
    intro key
    rw [same key]
    cases b.get? key with
    | none => exact .none
    | some value => exact .some rfl
  have lists : a.entries = b.entries := by
    rw [← List.forall₂_eq_eq_eq]
    exact (entries_related related).imp fun _ _ parts => Prod.ext parts.1 parts.2
  cases a
  cases b
  cases lists
  rfl

theorem beq_of_related [Std.TransOrd κ] [BEq κ] [LawfulBEq κ] [BEq ν] {a b : SortedMap κ ν}
    (related : ∀ key, Option.Rel (fun x y => (x == y) = true) (a.get? key) (b.get? key)) :
    (a == b) = true := by
  apply beq_of_forall₂
  refine (entries_related related).imp ?_
  rintro ⟨key, x⟩ ⟨_, y⟩ ⟨rfl, same⟩
  exact Bool.and_eq_true_iff.mpr ⟨beq_self_eq_true key, same⟩

end SortedMap

namespace SortedSet

variable {α : Type} [Ord α] [Std.LawfulEqOrd α]

theorem mem_place_iff {a x : α} {list : List α} : x ∈ place a list ↔ x = a ∨ x ∈ list := by
  constructor
  · exact mem_place
  · intro member
    induction list with
    | nil => simpa [place] using member
    | cons b rest ih =>
      simp only [place]
      split
      · exact List.mem_cons.mpr member
      · rename_i same
        rw [Std.LawfulEqOrd.compare_eq_iff_eq] at same
        rcases member with rfl | member
        · simp [same]
        · exact member
      · rcases member with added | member
        · exact List.mem_cons.mpr (Or.inr (ih (Or.inl added)))
        · rcases List.mem_cons.mp member with head | member
          · exact List.mem_cons.mpr (Or.inl head)
          · exact List.mem_cons.mpr (Or.inr (ih (Or.inr member)))

omit [Std.LawfulEqOrd α] in
theorem ext [Std.TransOrd α] {a b : SortedSet α} (same : ∀ x, x ∈ a.toList ↔ x ∈ b.toList) :
    a = b := by
  have lists := ascending_ext a.ascending b.ascending same
  cases a
  cases b
  cases lists
  rfl

theorem contains_iff {set : SortedSet α} {a : α} : set.contains a = true ↔ a ∈ set.toList := by
  simp [contains]

theorem subset_iff {a b : SortedSet α} :
    a.subset b = true ↔ ∀ x ∈ a.toList, x ∈ b.toList := by
  simp [subset, contains_iff]

@[simp] theorem mem_inter {a b : SortedSet α} {x : α} :
    x ∈ (a.inter b).toList ↔ x ∈ a.toList ∧ x ∈ b.toList := by
  simp [inter, filter, contains_iff]

variable [Std.TransOrd α]

@[simp] theorem mem_insert {set : SortedSet α} {a x : α} :
    x ∈ (set.insert a).toList ↔ x = a ∨ x ∈ set.toList := mem_place_iff

theorem mem_foldl_insert {list : List α} {set : SortedSet α} {x : α} :
    x ∈ (list.foldl insert set).toList ↔ x ∈ list ∨ x ∈ set.toList := by
  induction list generalizing set with
  | nil => simp
  | cons a rest ih =>
    rw [List.foldl_cons, ih, mem_insert, List.mem_cons]
    constructor
    · rintro (inRest | added | inSet)
      · exact Or.inl (Or.inr inRest)
      · exact Or.inl (Or.inl added)
      · exact Or.inr inSet
    · rintro ((added | inRest) | inSet)
      · exact Or.inr (Or.inl added)
      · exact Or.inl inRest
      · exact Or.inr (Or.inr inSet)

@[simp] theorem mem_ofList {list : List α} {x : α} : x ∈ (ofList list).toList ↔ x ∈ list := by
  rw [ofList, mem_foldl_insert]
  simp [empty]

@[simp] theorem mem_union {a b : SortedSet α} {x : α} :
    x ∈ (a.union b).toList ↔ x ∈ a.toList ∨ x ∈ b.toList := by
  rw [union, mem_foldl_insert, or_comm]

end SortedSet

end MethodFlow

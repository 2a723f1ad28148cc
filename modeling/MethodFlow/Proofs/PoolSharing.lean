import Mathlib
import MethodFlow.Proofs.Failure
import MethodFlow.Proofs.PoolEntries

/-! What a row of interned entries leaves in the pool. Equal entries share an index, and an index
stays good; longs and doubles, and nothing else, are followed by a slot that cannot be used.
Equality is that of numbers, so a zero may be found with the other sign, and a NaN is added anew.
(What equality of floats is comes with the whole library only.) -/
namespace MethodFlow

/-! ## Equality of entries -/

theorem beq_iff_of_zeros {α : Type} [BEq α] {zero negative nan : α}
    (equal_iff : ∀ x y : α, (x == y) = true ↔
      x ≠ nan ∧ y ≠ nan ∧ (x = y ∨ x = zero ∧ y = negative ∨ x = negative ∧ y = zero))
    (zeroNumber : zero ≠ nan) (negativeNumber : negative ≠ nan) (x y : α) :
    (x == y) = true ↔
      x ≠ nan ∧ (if x == zero then zero else x) = if y == zero then zero else y := by
  have isZero (z : α) : (z == zero) = true ↔ z = zero ∨ z = negative := by
    rw [equal_iff]
    grind
  rw [equal_iff]
  by_cases left : (x == zero) = true
  · by_cases right : (y == zero) = true
    · rw [if_pos left, if_pos right]
      rw [isZero] at left right
      grind
    · rw [if_pos left, if_neg right]
      rw [isZero] at left right
      grind
  · by_cases right : (y == zero) = true
    · rw [if_neg left, if_pos right]
      rw [isZero] at left right
      grind
    · rw [if_neg left, if_neg right]
      rw [isZero] at left right
      grind

namespace Constant

def isNaN : Constant → Bool
  | float value => value.isNaN
  | double value => value.isNaN
  | _ => false

def unsigned : Constant → Constant
  | float value => float (if value == 0 then 0 else value)
  | double value => double (if value == 0 then 0 else value)
  | other => other

theorem beq_iff {left right : Constant} :
    (left == right) = true ↔ left.isNaN = false ∧ left.unsigned = right.unsigned := by
  change instBEqConstant.beq left right = true ↔ _
  cases left with
  | float x =>
    cases right with
    | float y =>
      have numbers := beq_iff_of_zeros (fun _ _ => Float32.beq_iff_ne_nan_and_eq) (by decide)
        (by decide) x y
      simpa [instBEqConstant.beq, isNaN, unsigned] using numbers
    | _ => simp [instBEqConstant.beq, unsigned]
  | double x =>
    cases right with
    | double y =>
      have numbers := beq_iff_of_zeros (fun _ _ => Float.beq_iff_ne_nan_and_eq) (by decide)
        (by decide) x y
      simpa [instBEqConstant.beq, isNaN, unsigned] using numbers
    | _ => simp [instBEqConstant.beq, unsigned]
  | _ => cases right <;> simp [instBEqConstant.beq, isNaN, unsigned]

theorem isNaN_unsigned (constant : Constant) : constant.unsigned.isNaN = constant.isNaN := by
  cases constant with
  | float value =>
    by_cases zero : (value == 0) = true
    · have number := (Float32.beq_iff_ne_nan_and_eq.mp zero).1
      simp [unsigned, isNaN, zero, number]
      decide
    · simp [unsigned, isNaN, zero]
  | double value =>
    by_cases zero : (value == 0) = true
    · have number := (Float.beq_iff_ne_nan_and_eq.mp zero).1
      simp [unsigned, isNaN, zero, number]
      decide
    · simp [unsigned, isNaN, zero]
  | _ => rfl

end Constant

namespace PoolEntry

def isNaN : PoolEntry → Bool
  | constant value => value.isNaN
  | _ => false

def unsigned : PoolEntry → PoolEntry
  | constant value => constant value.unsigned
  | other => other

theorem beq_iff {left right : PoolEntry} :
    (left == right) = true ↔ left.isNaN = false ∧ left.unsigned = right.unsigned := by
  change instBEqPoolEntry.beq left right = true ↔ _
  cases left with
  | constant value =>
    cases right with
    | constant other => simpa [instBEqPoolEntry.beq, isNaN, unsigned] using Constant.beq_iff
    | _ => simp [instBEqPoolEntry.beq, unsigned]
  | _ => cases right <;> simp [instBEqPoolEntry.beq, isNaN, unsigned]

theorem isNaN_unsigned (entry : PoolEntry) : entry.unsigned.isNaN = entry.isNaN := by
  cases entry with
  | constant value => exact value.isNaN_unsigned
  | _ => rfl

theorem beq_comm {left right : PoolEntry} (equal : (left == right) = true) :
    (right == left) = true := by
  obtain ⟨number, same⟩ := beq_iff.mp equal
  refine beq_iff.mpr ⟨?_, same.symm⟩
  rw [← isNaN_unsigned, ← same, isNaN_unsigned, number]

theorem beq_trans {first second third : PoolEntry} (left : (first == second) = true)
    (right : (second == third) = true) : (first == third) = true :=
  beq_iff.mpr ⟨(beq_iff.mp left).1, (beq_iff.mp left).2.trans (beq_iff.mp right).2⟩

theorem beq_unusable {entry : PoolEntry} (usable : entry ≠ .unusable) :
    (entry == .unusable) = false := by
  rw [← Bool.not_eq_true]
  intro equal
  exact usable ((same_of_beq equal).eq_of_member nofun)

end PoolEntry

/-! ## Pools -/

namespace ConstantPool

variable {pool later : ConstantPool} {entry : PoolEntry}

theorem getElem?_added (entries : later.entries.toList =
      pool.entries.toList ++ entry :: if entry.isWide then [.unusable] else [])
    {position : Nat} {stored : PoolEntry} :
    later.entries[position]? = some stored ↔
      pool.entries[position]? = some stored ∨ position = pool.size ∧ stored = entry ∨
        position = pool.size + 1 ∧ entry.isWide = true ∧ stored = .unusable := by
  rw [← Array.getElem?_toList, entries, ← Array.getElem?_toList]
  have size : pool.size = pool.entries.toList.length := Array.length_toList.symm
  rw [size]
  generalize pool.entries.toList = slots
  by_cases inside : position < slots.length
  · rw [List.getElem?_append_left inside]
    have notFirst : position ≠ slots.length := by omega
    have notSecond : position ≠ slots.length + 1 := by omega
    simp [notFirst, notSecond]
  · obtain ⟨extra, rfl⟩ := Nat.exists_eq_add_of_le (Nat.not_lt.mp inside)
    rw [List.getElem?_append_right (Nat.not_lt.mp inside),
      List.getElem?_eq_none (Nat.not_lt.mp inside), Nat.add_sub_cancel_left]
    match extra with
    | 0 => simpa using eq_comm (a := entry)
    | 1 => cases wide : entry.isWide <;> simp [eq_comm]
    | more + 2 => cases wide : entry.isWide <;> simp

theorem get_eq_ok {index : Nat} {stored : PoolEntry} :
    pool.get index = .ok stored ↔
      ∃ position, index = position + 1 ∧ pool.entries[position]? = some stored ∧
        stored ≠ .unusable := by
  cases index with
  | zero => simp [get]
  | succ position =>
    cases held : pool.entries[position]? with
    | none => simp [get, held]
    | some found =>
      cases found with
      | unusable => simp [get, held, eq_comm]
      | _ =>
        simp only [get, held, Except.ok.injEq, Nat.add_right_cancel_iff, exists_eq_left',
          Option.some.injEq, iff_self_and]
        rintro rfl unusable
        cases unusable

/-- Equal entries stand in one slot only, and exactly the slots behind wide entries are unusable. -/
structure Regular (pool : ConstantPool) : Prop where
  distinct {p q : Nat} {a b : PoolEntry} (before : p < q) (first : pool.entries[p]? = some a)
    (second : pool.entries[q]? = some b) (usable : a ≠ .unusable) : (a == b) = false
  paired (position : Nat) : pool.entries[position]? = some .unusable ↔
    ∃ previous wide, position = previous + 1 ∧ pool.entries[previous]? = some wide ∧
      wide.isWide = true

theorem Regular.empty : Regular .empty where
  distinct _ first := by cases first
  paired position := by simp [ConstantPool.empty]

theorem Regular.intern (regular : pool.Regular) (usable : entry ≠ .unusable) :
    (pool.intern entry).2.Regular := by
  have interned := pool.intern_interns entry
  generalize pool.intern entry = result at interned ⊢
  cases interned with
  | found => exact regular
  | @added later absent entries =>
    have slots {position : Nat} {stored : PoolEntry} : later.entries[position]? = some stored ↔ _ :=
      getElem?_added entries
    have inside {position : Nat} {stored : PoolEntry}
        (held : pool.entries[position]? = some stored) : position < pool.size :=
      (Array.getElem?_eq_some_iff.mp held).1
    constructor
    · intro p q a b before first second different
      rcases slots.mp first with old | ⟨rfl, rfl⟩ | ⟨rfl, _, rfl⟩
      · rcases slots.mp second with other | ⟨rfl, rfl⟩ | ⟨rfl, _, rfl⟩
        · exact regular.distinct before old other different
        · exact absent a (Array.mem_of_getElem? old)
        · exact PoolEntry.beq_unusable different
      · rcases slots.mp second with other | ⟨rfl, rfl⟩ | ⟨rfl, _, rfl⟩
        · exact absurd (inside other) (by omega)
        · exact absurd before (Nat.lt_irrefl _)
        · exact PoolEntry.beq_unusable different
      · exact absurd rfl different
    · intro position
      constructor
      · intro unusable
        rcases slots.mp unusable with old | ⟨_, same⟩ | ⟨rfl, wide, _⟩
        · obtain ⟨previous, other, rfl, held, wide⟩ := (regular.paired position).mp old
          exact ⟨previous, other, rfl, slots.mpr (.inl held), wide⟩
        · exact absurd same.symm usable
        · exact ⟨pool.size, entry, rfl, slots.mpr (.inr (.inl ⟨rfl, rfl⟩)), wide⟩
      · rintro ⟨previous, other, rfl, held, wide⟩
        rcases slots.mp held with old | ⟨rfl, rfl⟩ | ⟨_, _, rfl⟩
        · exact slots.mpr (.inl ((regular.paired _).mpr ⟨previous, other, rfl, old, wide⟩))
        · exact slots.mpr (.inr (.inr ⟨rfl, wide, rfl⟩))
        · cases wide

theorem Regular.intern_of_beq (regular : pool.Regular) {position : Nat} {stored : PoolEntry}
    (held : pool.entries[position]? = some stored) (equal : (stored == entry) = true)
    (usable : stored ≠ .unusable) :
    pool.intern entry = (UInt16.ofNat (position + 1), pool) := by
  have interned := pool.intern_interns entry
  generalize pool.intern entry = result at interned ⊢
  cases interned with
  | @found place other found same =>
    have both := PoolEntry.beq_trans same (PoolEntry.beq_comm equal)
    rcases Nat.lt_trichotomy place position with before | rfl | behind
    · have usableOther : other ≠ .unusable := by
        rintro rfl
        cases (PoolEntry.beq_comm both).symm.trans (PoolEntry.beq_unusable usable)
      cases both.symm.trans (regular.distinct before found held usableOther)
    · rfl
    · cases (PoolEntry.beq_comm both).symm.trans (regular.distinct behind held found usable)
  | added absent _ =>
    cases equal.symm.trans (absent stored (Array.mem_of_getElem? held))

/-! ## Rows of interned entries -/

def internAll (pool : ConstantPool) : List PoolEntry → List UInt16 × ConstantPool
  | [] => ([], pool)
  | entry :: rest =>
    let (index, pool) := pool.intern entry
    let (indices, pool) := pool.internAll rest
    (index :: indices, pool)

/-- The index is that of the entry, but for the sign of a zero. -/
def Finds (pool : ConstantPool) (entry : PoolEntry) (index : UInt16) : Prop :=
  ∃ stored, pool.get index.toNat = .ok stored ∧ stored.unsigned = entry.unsigned

/-- The pool is what interning the entries has left, and the indices are what it has given. A slot
holds the entry that was the first to get its index. -/
structure Returned (entries : List PoolEntry) (indices : List UInt16) (pool : ConstantPool) :
    Prop where
  regular : pool.Regular
  alike : List.Forall₂ pool.Finds entries indices
  first {index : UInt16} {stored : PoolEntry} (found : pool.get index.toNat = .ok stored) :
    index ∈ indices ∧ entries[indices.idxOf index]? = some stored

theorem Returned.empty : Returned [] [] .empty where
  regular := .empty
  alike := .nil
  first found := by
    obtain ⟨position, _, held, _⟩ := get_eq_ok.mp found
    cases held

theorem Grows.get_ok (grown : pool.Grows later) {index : Nat} {stored : PoolEntry}
    (found : pool.get index = .ok stored) : later.get index = .ok stored := by
  obtain ⟨position, rfl, held, usable⟩ := get_eq_ok.mp found
  exact get_eq_ok.mpr ⟨position, rfl, grown.get held, usable⟩

theorem Returned.le_size {entries : List PoolEntry} {indices : List UInt16}
    (returned : Returned entries indices pool) {index : UInt16} (member : index ∈ indices) :
    index.toNat ≤ pool.size := by
  obtain ⟨k, bound, rfl⟩ := List.getElem_of_mem member
  obtain ⟨stored, found, _⟩ := returned.alike.get (returned.alike.length_eq ▸ bound) bound
  obtain ⟨position, same, held, _⟩ := get_eq_ok.mp found
  have inside := (Array.getElem?_eq_some_iff.mp held).1
  exact same.trans_le inside

theorem Returned.intern {entries : List PoolEntry} {indices : List UInt16}
    (returned : Returned entries indices pool) (usable : entry ≠ .unusable)
    (small : (pool.intern entry).2.size ≤ 65535) :
    Returned (entries ++ [entry]) (indices ++ [(pool.intern entry).1]) (pool.intern entry).2 := by
  have regular := returned.regular.intern usable
  have grown := pool.intern_grows entry
  -- What could be found before is found as before.
  have kept {index : UInt16} {stored : PoolEntry} (found : pool.get index.toNat = .ok stored)
      (last : UInt16) : index ∈ indices ++ [last] ∧
        (entries ++ [entry])[(indices ++ [last]).idxOf index]? = some stored := by
    obtain ⟨member, here⟩ := returned.first found
    refine ⟨List.mem_append_left _ member, ?_⟩
    rw [List.idxOf_append_of_mem member,
      List.getElem?_append_left (List.getElem?_eq_some_iff.mp here).1]
    exact here
  have alike := returned.alike.imp fun _ _ ⟨stored, found, same⟩ =>
    (⟨stored, grown.get_ok found, same⟩ : Finds (pool.intern entry).2 _ _)
  have interned := pool.intern_interns entry
  generalize pool.intern entry = result at interned regular alike small ⊢
  cases interned with
  | @found position stored held equal =>
    have usableStored : stored ≠ .unusable := by
      rintro rfl
      exact usable (PoolEntry.same_of_beq equal).symm
    have found := get_eq_ok.mpr ⟨position, toNat_index small held, held, usableStored⟩
    refine ⟨regular, List.rel_append alike ?_, fun found => kept found _⟩
    exact .cons ⟨stored, found, (PoolEntry.beq_iff.mp equal).2⟩ .nil
  | @added later absent slots =>
    have here : later.entries[pool.size]? = some entry :=
      (getElem?_added slots).mpr (.inr (.inl ⟨rfl, rfl⟩))
    have counted := toNat_index small here
    have found := get_eq_ok.mpr ⟨pool.size, counted, here, usable⟩
    refine ⟨regular, List.rel_append alike (.cons ⟨entry, found, rfl⟩ .nil), ?_⟩
    intro index stored there
    obtain ⟨position, place, held, usableStored⟩ := get_eq_ok.mp there
    rcases (getElem?_added slots).mp held with old | ⟨rfl, rfl⟩ | ⟨_, _, rfl⟩
    · exact kept (get_eq_ok.mpr ⟨position, place, old, usableStored⟩) _
    · obtain rfl : index = UInt16.ofNat (pool.size + 1) :=
        UInt16.toNat_inj.mp (place.trans counted.symm)
      -- The slot is new, so no index before was its index.
      have fresh : UInt16.ofNat (pool.size + 1) ∉ indices := by
        intro member
        have old := returned.le_size member
        rw [counted] at old
        exact Nat.not_succ_le_self _ old
      refine ⟨List.mem_append_right _ List.mem_cons_self, ?_⟩
      rw [List.idxOf_append_of_notMem fresh, List.idxOf_cons_self, Nat.add_zero,
        ← returned.alike.length_eq]
      simp
    · exact absurd rfl usableStored

theorem internAll_grows (pool : ConstantPool) (entries : List PoolEntry) :
    pool.Grows (pool.internAll entries).2 := by
  induction entries generalizing pool with
  | nil => exact .refl pool
  | cons entry rest ih => exact (pool.intern_grows entry).trans (ih (pool.intern entry).2)

theorem internAll_append (pool : ConstantPool) (earlier later : List PoolEntry) :
    (pool.internAll (earlier ++ later)).2 = ((pool.internAll earlier).2.internAll later).2 := by
  induction earlier generalizing pool with
  | nil => rfl
  | cons entry rest ih => exact ih (pool.intern entry).2

theorem Grows.size_le (grown : pool.Grows later) : pool.size ≤ later.size := by
  have lengths := List.IsPrefix.length_le grown
  rwa [Array.length_toList, Array.length_toList] at lengths

theorem Returned.internAll {entries : List PoolEntry} {indices : List UInt16}
    (returned : Returned entries indices pool) {more : List PoolEntry}
    (usable : ∀ entry ∈ more, entry ≠ .unusable)
    (small : (pool.internAll more).2.size ≤ 65535) :
    Returned (entries ++ more) (indices ++ (pool.internAll more).1) (pool.internAll more).2 := by
  induction more generalizing pool entries indices with
  | nil => simpa [ConstantPool.internAll] using returned
  | cons entry rest ih =>
    rw [List.forall_mem_cons] at usable
    -- The pool only grows, so it is small at every step if it is small at the end.
    have soFar := (internAll_grows (pool.intern entry).2 rest).size_le.trans small
    have whole := ih (returned.intern usable.1 soFar) usable.2 small
    rw [List.append_assoc, List.append_assoc] at whole
    exact whole

theorem get_error_iff (pool : ConstantPool) (index : Nat) :
    (∃ error, pool.get index = .error error) ↔
      index = 0 ∨ pool.size < index ∨ pool.entries[index - 1]? = some .unusable := by
  rw [exists_error_iff]
  simp only [get_eq_ok]
  cases index with
  | zero => simp
  | succ position =>
    have past : pool.size < position + 1 ↔ pool.entries[position]? = none := by
      rw [Array.getElem?_eq_none_iff, Nat.lt_succ_iff, size]
    rw [past, Nat.add_sub_cancel]
    cases held : pool.entries[position]? with
    | none => simp [held]
    | some stored => simp [held]

/-- Whatever entries are interned one after the other: an index that was given stays that of the
entry which was the first to get it, and this is the interned entry but for the sign of a zero. An
entry equal to one in the pool gets the index of that one and changes nothing, so usable slots
differ, and exactly the slots behind longs and doubles are unusable. -/
theorem interned_indices_stable (calls : List PoolEntry) (indices : List UInt16)
    (pool : ConstantPool) (usable : ∀ entry ∈ calls, entry ≠ .unusable)
    (interned : ConstantPool.empty.internAll calls = (indices, pool)) (small : pool.size ≤ 65535) :
    (∀ (k : Nat) (entry : PoolEntry), calls[k]? = some entry →
      ∃ index stored, indices[k]? = some index ∧ 0 < index.toNat ∧ index.toNat ≤ pool.size ∧
        pool.get index.toNat = .ok stored ∧ calls[indices.idxOf index]? = some stored ∧
        stored.unsigned = entry.unsigned) ∧
    (∀ earlier later index stored, calls = earlier ++ later →
      (ConstantPool.empty.internAll earlier).2.get index = .ok stored →
      pool.get index = .ok stored) ∧
    (∀ (position : Nat) (stored entry : PoolEntry), pool.entries[position]? = some stored →
      entry ≠ .unusable → (stored == entry) = true →
      (pool.intern entry).1.toNat = position + 1 ∧ (pool.intern entry).2 = pool) ∧
    (∀ (p q : Nat) (a b : PoolEntry), p ≠ q → pool.entries[p]? = some a →
      pool.entries[q]? = some b → a ≠ .unusable → b ≠ .unusable → (a == b) = false) ∧
    (∀ position, pool.entries[position]? = some .unusable ↔
      ∃ previous entry, position = previous + 1 ∧ pool.entries[previous]? = some entry ∧
        entry.isWide = true) ∧
    ∀ index, (∃ error, pool.get index = .error error) ↔
      index = 0 ∨ pool.size < index ∨ pool.entries[index - 1]? = some .unusable := by
  have returned : Returned calls indices pool := by
    have whole := Returned.empty.internAll usable
    rw [interned] at whole
    exact whole small
  refine ⟨?_, ?_, ?_, ?_, returned.regular.paired, pool.get_error_iff⟩
  · intro k entry called
    obtain ⟨bound, rfl⟩ := List.getElem?_eq_some_iff.mp called
    have given : k < indices.length := returned.alike.length_eq ▸ bound
    obtain ⟨stored, found, same⟩ := returned.alike.get bound given
    have most := returned.le_size (List.getElem_mem given)
    have least : 0 < indices[k].toNat := by
      obtain ⟨position, index, _⟩ := get_eq_ok.mp found
      exact (Nat.succ_pos position).trans_eq index.symm
    exact ⟨indices[k], stored, List.getElem?_eq_getElem given, least, most, found,
      (returned.first found).2, same⟩
  · intro earlier later index stored split found
    have grown := internAll_grows (ConstantPool.empty.internAll earlier).2 later
    rw [← internAll_append, ← split, interned] at grown
    exact grown.get_ok found
  · intro position stored entry held usable equal
    have usableStored : stored ≠ .unusable := by
      rintro rfl
      exact usable (PoolEntry.same_of_beq equal).symm
    rw [returned.regular.intern_of_beq held equal usableStored]
    exact ⟨toNat_index small held, rfl⟩
  · intro p q a b different first second usable usable'
    rcases Nat.lt_or_gt_of_ne different with before | behind
    · exact returned.regular.distinct before first second usable
    · rw [← Bool.not_eq_true]
      intro equal
      cases (PoolEntry.beq_comm equal).symm.trans
        (returned.regular.distinct behind second first usable')

def numbers : List PoolEntry :=
  [.constant (.long 5), .constant (.double 0), .constant (.double (-0)), .constant (.float (0 / 0)),
    .constant (.float (0 / 0))]

def numberSlots : List PoolEntry :=
  [.constant (.long 5), .unusable, .constant (.double 0), .unusable, .constant (.float (0 / 0)),
    .constant (.float (0 / 0))]

theorem intern_listed (slots : List PoolEntry) (entry : PoolEntry) :
    intern ⟨slots.toArray⟩ entry =
      match slots.findIdx? (· == entry) with
      | some position => (UInt16.ofNat (position + 1), ⟨slots.toArray⟩)
      | none => (UInt16.ofNat (slots.length + 1),
          ⟨(slots ++ entry :: if entry.isWide then [.unusable] else []).toArray⟩) := by
  simp only [intern, List.findIdx?_toArray]
  cases slots.findIdx? (· == entry) with
  | some position => rfl
  | none => cases wide : entry.isWide <;> simp

theorem internAll_numbers :
    ConstantPool.empty.internAll numbers = ([1, 3, 3, 5, 6], ⟨numberSlots.toArray⟩) := by
  have long : empty.intern (.constant (.long 5)) = (1, ⟨(numberSlots.take 2).toArray⟩) :=
    intern_listed [] _
  have zero : intern ⟨(numberSlots.take 2).toArray⟩ (.constant (.double 0)) =
      (3, ⟨(numberSlots.take 4).toArray⟩) := intern_listed _ _
  have negative : intern ⟨(numberSlots.take 4).toArray⟩ (.constant (.double (-0))) =
      (3, ⟨(numberSlots.take 4).toArray⟩) := intern_listed _ _
  have nan : intern ⟨(numberSlots.take 4).toArray⟩ (.constant (.float (0 / 0))) =
      (5, ⟨(numberSlots.take 5).toArray⟩) := intern_listed _ _
  have again : intern ⟨(numberSlots.take 5).toArray⟩ (.constant (.float (0 / 0))) =
      (6, ⟨numberSlots.toArray⟩) := intern_listed _ _
  simp only [numbers, internAll, long, zero, negative, nan, again]

theorem interned_indices_stable_numbers :
    (∀ entry ∈ numbers, entry ≠ .unusable) ∧
    ConstantPool.empty.internAll numbers = ([1, 3, 3, 5, 6], ⟨numberSlots.toArray⟩) ∧
    size ⟨numberSlots.toArray⟩ ≤ 65535 ∧
    (∃ stored, get ⟨numberSlots.toArray⟩ 3 = .ok stored ∧ numbers[1]? = some stored ∧
      stored.unsigned = (PoolEntry.constant (.double (-0))).unsigned) ∧
    (intern ⟨numberSlots.toArray⟩ (.constant (.double (-0)))).1.toNat = 3 ∧
    (PoolEntry.constant (.float (0 / 0)) == .constant (.float (0 / 0))) = false ∧
    ∃ error, get ⟨numberSlots.toArray⟩ 4 = .error error := by
  have usable : ∀ entry ∈ numbers, entry ≠ .unusable := by simp [numbers]
  have small : size ⟨numberSlots.toArray⟩ ≤ 65535 := by decide
  obtain ⟨resolved, _, shared, distinct, _, refused⟩ :=
    interned_indices_stable numbers _ _ usable internAll_numbers small
  obtain ⟨index, stored, given, _, _, found, first, same⟩ := resolved 2 _ rfl
  cases given
  exact ⟨usable, internAll_numbers, small, ⟨stored, found, first, same⟩,
    (shared 2 (.constant (.double 0)) (.constant (.double (-0))) rfl nofun (by decide)).1,
    distinct 4 5 _ _ (by decide) rfl rfl nofun nofun, (refused 4).mpr (.inr (.inr rfl))⟩

end ConstantPool

end MethodFlow

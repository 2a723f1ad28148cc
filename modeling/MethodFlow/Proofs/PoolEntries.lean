import MethodFlow.Code.Pool

/-! What an interned entry is found as. Interning only adds at the end, so an index stays good as
the pool grows, as long as all places of the pool have an index of 16 bits. An entry is found as
itself, except that a floating-point constant may be found as an equal one, which is then a zero of
the other sign. -/
namespace MethodFlow

/-- The same constant, or two equal numbers. -/
def Constant.Same : Constant → Constant → Prop
  | .float left, .float right => left = right ∨ (left == right) = true
  | .double left, .double right => left = right ∨ (left == right) = true
  | left, right => left = right

theorem Constant.Same.refl (constant : Constant) : constant.Same constant := by
  cases constant <;> simp [Constant.Same]

theorem Constant.same_of_beq {stored constant : Constant} (equal : (stored == constant) = true) :
    stored.Same constant := by
  change instBEqConstant.beq stored constant = true at equal
  cases stored <;> cases constant <;> simp_all [instBEqConstant.beq, Constant.Same]

def PoolEntry.Same : PoolEntry → PoolEntry → Prop
  | .constant stored, .constant value => stored.Same value
  | stored, entry => stored = entry

theorem PoolEntry.Same.refl (entry : PoolEntry) : entry.Same entry := by
  cases entry with
  | constant value => exact Constant.Same.refl value
  | fieldRef | methodRef | interfaceMethodRef | unusable => rfl

theorem PoolEntry.same_of_beq {stored entry : PoolEntry} (equal : (stored == entry) = true) :
    stored.Same entry := by
  change instBEqPoolEntry.beq stored entry = true at equal
  cases stored with
  | constant value =>
    cases entry with
    | constant other => exact Constant.same_of_beq equal
    | fieldRef | methodRef | interfaceMethodRef | unusable => cases equal
  | fieldRef | methodRef | interfaceMethodRef | unusable =>
    cases entry <;> simp_all [instBEqPoolEntry.beq, PoolEntry.Same]

theorem PoolEntry.Same.eq_of_member {stored entry : PoolEntry} (same : stored.Same entry)
    (member : ∀ value, entry ≠ .constant value) : stored = entry := by
  cases entry with
  | constant value => exact absurd rfl (member value)
  | fieldRef | methodRef | interfaceMethodRef | unusable => cases stored <;> exact same

namespace ConstantPool

def Grows (pool later : ConstantPool) : Prop := pool.entries.toList <+: later.entries.toList

theorem Grows.refl (pool : ConstantPool) : pool.Grows pool := List.prefix_rfl

theorem Grows.trans {first second third : ConstantPool} (early : first.Grows second)
    (late : second.Grows third) : first.Grows third :=
  List.IsPrefix.trans early late

theorem Grows.get {pool later : ConstantPool} (grown : pool.Grows later) {position : Nat}
    {entry : PoolEntry} (stored : pool.entries[position]? = some entry) :
    later.entries[position]? = some entry := by
  obtain ⟨added, entries⟩ := grown
  obtain ⟨bound, _⟩ := Array.getElem?_eq_some_iff.mp stored
  rw [← Array.getElem?_toList] at stored ⊢
  rw [← entries, List.getElem?_append_left (by simpa using bound)]
  exact stored

/-- What interning an entry can do: find an equal one, or add the entry at the end, and another slot
behind it if it is wide. -/
inductive Interns (pool : ConstantPool) (entry : PoolEntry) : UInt16 × ConstantPool → Prop
  | found {position : Nat} {stored : PoolEntry} (held : pool.entries[position]? = some stored)
      (equal : (stored == entry) = true) :
      Interns pool entry (UInt16.ofNat (position + 1), pool)
  | added {later : ConstantPool} (absent : ∀ stored ∈ pool.entries, (stored == entry) = false)
      (entries : later.entries.toList =
        pool.entries.toList ++ entry :: if entry.isWide then [.unusable] else []) :
      Interns pool entry (UInt16.ofNat (pool.size + 1), later)

theorem intern_interns (pool : ConstantPool) (entry : PoolEntry) :
    Interns pool entry (pool.intern entry) := by
  unfold intern
  split
  · rename_i position found
    obtain ⟨bound, equal, _⟩ := Array.findIdx?_eq_some_iff_getElem.mp found
    exact .found (Array.getElem?_eq_getElem bound) equal
  · rename_i missing
    have added : (pool.entries.push entry).size = pool.size + 1 := Array.size_push entry
    simp only [added]
    refine .added (by simpa using missing) ?_
    split <;> simp

theorem intern_grows (pool : ConstantPool) (entry : PoolEntry) :
    pool.Grows (pool.intern entry).2 := by
  have interned := pool.intern_interns entry
  generalize pool.intern entry = result at interned ⊢
  cases interned with
  | found => exact Grows.refl pool
  | added _ entries => exact ⟨_, entries.symm⟩

theorem intern_stored (pool : ConstantPool) (entry : PoolEntry) :
    ∃ position stored, (pool.intern entry).1 = UInt16.ofNat (position + 1) ∧
      (pool.intern entry).2.entries[position]? = some stored ∧ stored.Same entry := by
  have interned := pool.intern_interns entry
  generalize pool.intern entry = result at interned ⊢
  cases interned with
  | found held equal => exact ⟨_, _, rfl, held, PoolEntry.same_of_beq equal⟩
  | added _ entries =>
    refine ⟨pool.size, entry, rfl, ?_, PoolEntry.Same.refl entry⟩
    rw [← Array.getElem?_toList, entries]
    simp [size]

section

variable {pool later : ConstantPool} {entry : PoolEntry}

/-- The places of a pool of at most 65535 entries have the indices that count them. -/
theorem toNat_index (small : pool.size ≤ 65535) {position : Nat} {stored : PoolEntry}
    (held : pool.entries[position]? = some stored) :
    (UInt16.ofNat (position + 1)).toNat = position + 1 := by
  have inside : position < pool.size := (Array.getElem?_eq_some_iff.mp held).1
  exact UInt16.toNat_ofNat_of_lt' (by simp only [UInt16.size]; omega)

theorem get_intern (usable : entry ≠ .unusable) (grown : (pool.intern entry).2.Grows later)
    (small : later.size ≤ 65535) :
    ∃ stored, later.get (pool.intern entry).1.toNat = .ok stored ∧ stored.Same entry := by
  obtain ⟨position, stored, index, held, same⟩ := intern_stored pool entry
  refine ⟨stored, ?_, same⟩
  have given : stored ≠ .unusable := by
    rintro rfl
    exact usable same.symm
  rw [index, toNat_index small (grown.get held), get, grown.get held]
  cases stored with
  | unusable => exact absurd rfl given
  | constant | fieldRef | methodRef | interfaceMethodRef => rfl

theorem constant_intern {constant : Constant}
    (grown : (pool.intern (.constant constant)).2.Grows later) (small : later.size ≤ 65535) :
    ∃ stored, later.constant (pool.intern (.constant constant)).1.toNat = .ok stored ∧
      stored.Same constant := by
  obtain ⟨stored, found, same⟩ := get_intern (by simp) grown small
  cases stored with
  | constant value => exact ⟨value, by rw [ConstantPool.constant, found]; rfl, same⟩
  | fieldRef | methodRef | interfaceMethodRef | unusable => cases same

theorem className_intern {name : String}
    (grown : (pool.intern (.constant (.classRef name))).2.Grows later)
    (small : later.size ≤ 65535) :
    later.className (pool.intern (.constant (.classRef name))).1.toNat = .ok name := by
  obtain ⟨stored, found, same⟩ := get_intern (by simp) grown small
  cases stored with
  | constant value =>
    cases value with
    | classRef other =>
      cases same
      rw [className, found]
      rfl
    | _ => cases same
  | fieldRef | methodRef | interfaceMethodRef | unusable => cases same

theorem fieldRef_intern {member : MemberRef}
    (grown : (pool.intern (.fieldRef member)).2.Grows later) (small : later.size ≤ 65535) :
    later.fieldRef (pool.intern (.fieldRef member)).1.toNat = .ok member := by
  obtain ⟨stored, found, same⟩ := get_intern (by simp) grown small
  rw [fieldRef, found, same.eq_of_member (by simp)]
  rfl

theorem methodRef_intern {member : MemberRef}
    (method : entry = .methodRef member ∨ entry = .interfaceMethodRef member)
    (grown : (pool.intern entry).2.Grows later) (small : later.size ≤ 65535) :
    later.methodRef (pool.intern entry).1.toNat = .ok member := by
  rcases method with rfl | rfl
  all_goals
    obtain ⟨stored, found, same⟩ := get_intern (by simp) grown small
    rw [methodRef, found, same.eq_of_member (by simp)]
    rfl

end

end ConstantPool

end MethodFlow

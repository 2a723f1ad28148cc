import Mathlib.Algebra.GroupWithZero.Nat
import Mathlib.Order.Monotone.Basic
import MethodFlow.Frame.Basic
import MethodFlow.Interval.Domain
import MethodFlow.Proofs.SortedContainers

/-! The locals on entry to a method. Behind the receiver the parameters stand in a row without gaps,
each in the first of its slots. Slots are counted in 16 bits, which is as good as counting them
without a limit as long as all of them fit into the locals of a method. -/
namespace MethodFlow

theorem Category.slots_pos (category : Category) : 0 < category.slots := by
  cases category <;> decide

theorem Kind.slots_pos (kind : Kind) : 0 < kind.slots := kind.category.slots_pos

/-- The slot of a parameter, if the first of them stands in the given slot: as far behind it as the
parameters before are wide. -/
def slotAt (first : Nat) (kinds : List Kind) (index : Nat) : Nat :=
  first + ((kinds.take index).map Kind.slots).sum

section Slots

variable {first index later slot : Nat} {kind : Kind} {kinds : List Kind}

@[simp] theorem slotAt_zero : slotAt first kinds 0 = first := by simp [slotAt]

@[simp] theorem slotAt_cons_succ :
    slotAt first (kind :: kinds) (index + 1) = slotAt (first + kind.slots) kinds index := by
  simp [slotAt, Nat.add_assoc]

theorem le_slotAt : first ≤ slotAt first kinds index := Nat.le_add_right ..

theorem slotAt_succ (inside : index < kinds.length) :
    slotAt first kinds (index + 1) = slotAt first kinds index + kinds[index].slots := by
  rw [slotAt, slotAt, List.take_succ_eq_append_getElem inside, List.map_append, List.sum_append,
    Nat.add_assoc]
  simp

theorem slotAt_mono (first : Nat) (kinds : List Kind) : Monotone (slotAt first kinds) := by
  refine monotone_nat_of_le_succ fun index => ?_
  by_cases inside : index < kinds.length
  · rw [slotAt_succ inside]
    exact Nat.le_add_right ..
  · simp [slotAt, List.take_of_length_le (Nat.le_of_not_lt inside),
      List.take_of_length_le (Nat.le_succ_of_le (Nat.le_of_not_lt inside))]

theorem slotAt_add_slots_le (first : Nat) (inside : index < kinds.length) (order : index < later) :
    slotAt first kinds index + kinds[index].slots ≤ slotAt first kinds later := by
  rw [← slotAt_succ inside]
  exact slotAt_mono first kinds order

theorem slotAt_lt (inside : index < kinds.length) (order : index < later) :
    slotAt first kinds index < slotAt first kinds later :=
  Nat.lt_of_lt_of_le (Nat.lt_add_of_pos_right kinds[index].slots_pos)
    (slotAt_add_slots_le first inside order)

theorem exists_slotAt (above : first ≤ slot) (below : slot < slotAt first kinds kinds.length) :
    ∃ index, ∃ inside : index < kinds.length,
      slotAt first kinds index ≤ slot ∧ slot < slotAt first kinds index + kinds[index].slots := by
  induction kinds generalizing first with
  | nil =>
    rw [List.length_nil, slotAt_zero] at below
    omega
  | cons kind rest ih =>
    by_cases here : slot < first + kind.slots
    · exact ⟨0, Nat.zero_lt_succ _, by simpa using above, by simpa using here⟩
    · rw [List.length_cons, slotAt_cons_succ] at below
      obtain ⟨index, inside, least, last⟩ := ih (Nat.le_of_not_lt here) below
      exact ⟨index + 1, Nat.succ_lt_succ inside, by simpa using least, by simpa using last⟩

end Slots

theorem MethodDescriptor.slotAt_length (descriptor : MethodDescriptor) (first : Nat) :
    slotAt first descriptor.parameters descriptor.parameters.length =
      first + descriptor.parameterSlots := by
  rw [slotAt, List.take_length, List.sum, List.foldr_map, parameterSlots]

namespace Frame

variable {V : Type} {frame : Frame V} {first : UInt16} {index slot : Nat} {kinds : List Kind}

/-- The counter only grows, so it does not wrap if the parameters end below its limit. -/
theorem toNat_add_slots {kind : Kind} {rest : List Kind}
    (fits : slotAt first.toNat (kind :: rest) (kind :: rest).length ≤ 65535) :
    (first + UInt16.ofNat kind.slots).toNat = first.toNat + kind.slots := by
  rw [List.length_cons, slotAt_cons_succ] at fits
  have least : first.toNat + kind.slots ≤ slotAt (first.toNat + kind.slots) rest rest.length :=
    le_slotAt
  rw [UInt16.toNat_add, UInt16.toNat_ofNat']
  omega

/-- The next parameter is put in as if slots were counted without a limit, and those behind it still
end below the limit. -/
theorem withParameters_cons (frame : Frame V) {kind : Kind} {rest : List Kind}
    (fits : slotAt first.toNat (kind :: rest) (kind :: rest).length ≤ 65535) :
    ∃ next : UInt16, next.toNat = first.toNat + kind.slots ∧
      slotAt next.toNat rest rest.length ≤ 65535 ∧
      frame.withParameters first (kind :: rest) =
        (frame.setLocal first.toNat (frame.factory.localValue first.toNat kind)).withParameters
          next rest := by
  have counted := toNat_add_slots fits
  rw [List.length_cons, slotAt_cons_succ, ← counted] at fits
  exact ⟨_, counted, fits, rfl⟩

theorem get?_withParameters_other (fits : slotAt first.toNat kinds kinds.length ≤ 65535)
    (other : ∀ index < kinds.length, slot ≠ slotAt first.toNat kinds index) :
    (frame.withParameters first kinds).1.locals.get? slot = frame.locals.get? slot := by
  induction kinds generalizing frame first with
  | nil => rfl
  | cons kind rest ih =>
    obtain ⟨next, counted, remaining, placed⟩ := withParameters_cons frame fits
    have apart : slot ≠ first.toNat := by simpa using other 0 (Nat.zero_lt_succ _)
    rw [placed, ih remaining, setLocal, SortedMap.get?_insert, if_neg apart]
    intro index inside
    simpa [counted] using other (index + 1) (Nat.succ_lt_succ inside)

theorem get?_withParameters (fits : slotAt first.toNat kinds kinds.length ≤ 65535)
    (inside : index < kinds.length) :
    (frame.withParameters first kinds).1.locals.get? (slotAt first.toNat kinds index) =
      some (frame.factory.localValue (slotAt first.toNat kinds index) kinds[index]) := by
  induction kinds generalizing frame first index with
  | nil => cases inside
  | cons kind rest ih =>
    obtain ⟨next, counted, remaining, placed⟩ := withParameters_cons frame fits
    cases index with
    | zero =>
      -- the parameters behind the first one do not reach back to its slot
      have behind : ∀ index < rest.length, first.toNat ≠ slotAt next.toNat rest index := by
        intro index _
        have positive := kind.slots_pos
        have least : next.toNat ≤ slotAt next.toNat rest index := le_slotAt
        omega
      rw [placed, slotAt_zero, get?_withParameters_other remaining behind, setLocal,
        SortedMap.get?_insert, if_pos rfl]
      rfl
    | succ index =>
      rw [placed, slotAt_cons_succ, ← counted, ih remaining (Nat.lt_of_succ_lt_succ inside)]
      rfl

theorem withParameters_end (fits : slotAt first.toNat kinds kinds.length ≤ 65535) :
    (frame.withParameters first kinds).2.toNat = slotAt first.toNat kinds kinds.length := by
  induction kinds generalizing frame first with
  | nil => exact slotAt_zero.symm
  | cons kind rest ih =>
    obtain ⟨next, counted, remaining, placed⟩ := withParameters_cons frame fits
    rw [placed, ih remaining, List.length_cons, slotAt_cons_succ, counted]

def receiverSlots (isStatic : Bool) : Nat := if isStatic then 0 else 1

theorem toNat_receiverSlots (isStatic : Bool) :
    (UInt16.ofNat (receiverSlots isStatic)).toNat = receiverSlots isStatic := by
  cases isStatic <;> rfl

def withReceiver (factory : ValueFactory V) (isStatic : Bool) : Frame V :=
  if isStatic then initial factory
  else (initial factory).setLocal 0 (factory.localValue 0 .reference)

theorem forMethod_eq (factory : ValueFactory V) (descriptor : MethodDescriptor) (isStatic : Bool) :
    forMethod factory descriptor isStatic =
      ((withReceiver factory isStatic).withParameters (UInt16.ofNat (receiverSlots isStatic))
        descriptor.parameters).1 := by
  cases isStatic <;> rfl

theorem get?_withReceiver (factory : ValueFactory V) (isStatic : Bool) (slot : Nat) :
    (withReceiver factory isStatic).locals.get? slot =
      if slot < receiverSlots isStatic then some (factory.localValue 0 .reference) else none := by
  cases isStatic with
  | true => rfl
  | false =>
    have empty : (initial factory).locals.get? slot = none := rfl
    simp [withReceiver, setLocal, receiverSlots, empty]

/-- The receiver and the parameters have slots that can be counted in 16 bits. -/
def Enterable (descriptor : MethodDescriptor) (isStatic : Bool) : Prop :=
  receiverSlots isStatic + descriptor.parameterSlots ≤ 65535

instance (descriptor : MethodDescriptor) (isStatic : Bool) :
    Decidable (Enterable descriptor isStatic) :=
  inferInstanceAs (Decidable (receiverSlots isStatic + descriptor.parameterSlots ≤ 65535))

section Entry

variable (factory : ValueFactory V) {descriptor : MethodDescriptor} {isStatic : Bool}
  (fits : Enterable descriptor isStatic)

include fits

theorem slotAt_length_le :
    slotAt (UInt16.ofNat (receiverSlots isStatic)).toNat descriptor.parameters
      descriptor.parameters.length ≤ 65535 := by
  rw [toNat_receiverSlots, descriptor.slotAt_length]
  exact fits

theorem get?_forMethod_other {slot : Nat}
    (other : ∀ index < descriptor.parameters.length,
      slot ≠ slotAt (receiverSlots isStatic) descriptor.parameters index) :
    (forMethod factory descriptor isStatic).locals.get? slot =
      if slot < receiverSlots isStatic then some (factory.localValue 0 .reference) else none := by
  rw [forMethod_eq, get?_withParameters_other (slotAt_length_le fits), get?_withReceiver]
  rwa [toNat_receiverSlots]

theorem get?_forMethod_receiver (receives : isStatic = false) :
    (forMethod factory descriptor isStatic).locals.get? 0 =
      some (factory.localValue 0 .reference) := by
  have positive : 0 < receiverSlots isStatic := by
    rw [receives]
    decide
  rw [get?_forMethod_other factory fits, if_pos positive]
  intro index _ same
  have least : receiverSlots isStatic ≤
      slotAt (receiverSlots isStatic) descriptor.parameters index := le_slotAt
  omega

theorem get?_forMethod_parameter {index : Nat} (inside : index < descriptor.parameters.length) :
    (forMethod factory descriptor isStatic).locals.get?
        (slotAt (receiverSlots isStatic) descriptor.parameters index) =
      some (factory.localValue (slotAt (receiverSlots isStatic) descriptor.parameters index)
        descriptor.parameters[index]) := by
  have made : (withReceiver factory isStatic).factory = factory := by cases isStatic <;> rfl
  have placed : ((withReceiver factory isStatic).withParameters _ _).1.locals.get? _ = _ :=
    get?_withParameters (slotAt_length_le fits) inside
  rwa [toNat_receiverSlots, made, ← forMethod_eq] at placed

theorem get?_forMethod_within {index slot : Nat} (inside : index < descriptor.parameters.length)
    (above : slotAt (receiverSlots isStatic) descriptor.parameters index < slot)
    (below : slot < slotAt (receiverSlots isStatic) descriptor.parameters index +
      descriptor.parameters[index].slots) :
    (forMethod factory descriptor isStatic).locals.get? slot = none := by
  have least : receiverSlots isStatic ≤
      slotAt (receiverSlots isStatic) descriptor.parameters index := le_slotAt
  rw [get?_forMethod_other factory fits, if_neg (by omega)]
  rintro other _ rfl
  -- no other parameter starts in there: it ends before this one or starts behind it
  rcases Nat.lt_or_ge index other with order | order
  · have ends := slotAt_add_slots_le (receiverSlots isStatic) inside order
    omega
  · have starts := slotAt_mono (receiverSlots isStatic) descriptor.parameters order
    omega

theorem mem_keys_forMethod {slot : Nat} :
    slot ∈ (forMethod factory descriptor isStatic).locals.keys ↔
      slot < receiverSlots isStatic ∨ ∃ index < descriptor.parameters.length,
        slotAt (receiverSlots isStatic) descriptor.parameters index = slot := by
  rw [SortedMap.mem_keys_iff]
  constructor
  · rintro ⟨value, held⟩
    by_contra neither
    rw [not_or] at neither
    rw [get?_forMethod_other factory fits, if_neg neither.1] at held
    · cases held
    · rintro index inside rfl
      exact neither.2 ⟨index, inside, rfl⟩
  · rintro (receiver | ⟨index, inside, rfl⟩)
    · cases isStatic with
      | true => cases receiver
      | false =>
        obtain rfl : slot = 0 := Nat.lt_one_iff.mp receiver
        exact ⟨_, get?_forMethod_receiver factory fits rfl⟩
    · exact ⟨_, get?_forMethod_parameter factory fits inside⟩

theorem keys_forMethod :
    (forMethod factory descriptor isStatic).locals.keys =
      List.range (receiverSlots isStatic) ++ (List.range descriptor.parameters.length).map
        (slotAt (receiverSlots isStatic) descriptor.parameters) := by
  refine ascending_ext (SortedMap.keys_ascending _) ?_ ?_
  · simp only [Nat.compare_eq_lt]
    refine List.pairwise_append.mpr ⟨List.pairwise_lt_range, ?_, ?_⟩
    · rw [List.pairwise_map, List.pairwise_iff_getElem]
      intro index later inside laterInside order
      simp only [List.getElem_range, List.length_range] at inside ⊢
      exact slotAt_lt inside order
    · intro receiver before slot parameter
      obtain ⟨index, _, rfl⟩ := List.mem_map.mp parameter
      exact Nat.lt_of_lt_of_le (List.mem_range.mp before) le_slotAt
  · intro slot
    rw [mem_keys_forMethod factory fits]
    simp

theorem forMethod_counted :
    (withReceiver factory isStatic).withParameters (UInt16.ofNat (receiverSlots isStatic))
        descriptor.parameters =
      (forMethod factory descriptor isStatic,
        UInt16.ofNat (receiverSlots isStatic + descriptor.parameterSlots)) := by
  refine Prod.ext (forMethod_eq factory descriptor isStatic).symm ?_
  apply UInt16.toNat_inj.mp
  have limit : receiverSlots isStatic + descriptor.parameterSlots ≤ 65535 := fits
  rw [withParameters_end (slotAt_length_le fits), toNat_receiverSlots, descriptor.slotAt_length,
    UInt16.toNat_ofNat']
  omega

end Entry

theorem lt_slots_iff (descriptor : MethodDescriptor) (isStatic : Bool) {slot : Nat} :
    slot < receiverSlots isStatic + descriptor.parameterSlots ↔
      slot < receiverSlots isStatic ∨ ∃ index, ∃ inside : index < descriptor.parameters.length,
        slotAt (receiverSlots isStatic) descriptor.parameters index ≤ slot ∧
        slot < slotAt (receiverSlots isStatic) descriptor.parameters index +
          descriptor.parameters[index].slots := by
  rw [← descriptor.slotAt_length]
  constructor
  · intro below
    rcases Nat.lt_or_ge slot (receiverSlots isStatic) with receiver | above
    · exact .inl receiver
    · exact .inr (exists_slotAt above below)
  · rintro (receiver | ⟨index, inside, _, below⟩)
    · exact Nat.lt_of_lt_of_le receiver le_slotAt
    · exact Nat.lt_of_lt_of_le below (slotAt_add_slots_le _ inside inside)

/-- On entry to a method whose parameters fit into its locals, exactly the receiver and the first
slot of each parameter hold a value, the one the factory gives for that slot and kind. Together they
take all slots up to the number of slots of the parameters and the receiver, which is where a 16-bit
counter ends that never wraps. -/
theorem forMethod_layout (factory : ValueFactory V) (descriptor : MethodDescriptor)
    (isStatic : Bool) (fits : Enterable descriptor isStatic) :
    let kinds := descriptor.parameters
    let locals := (forMethod factory descriptor isStatic).locals
    let slotOf := slotAt (receiverSlots isStatic) kinds
    let unused := receiverSlots isStatic + descriptor.parameterSlots
    locals.keys = (if isStatic then [] else [0]) ++ (List.range kinds.length).map slotOf ∧
    locals.keys.Nodup ∧
    (isStatic = false → locals.get? 0 = some (factory.localValue 0 .reference)) ∧
    (∀ index (inside : index < kinds.length),
      locals.get? (slotOf index) = some (factory.localValue (slotOf index) kinds[index])) ∧
    (∀ index (inside : index < kinds.length), kinds[index] = .long ∨ kinds[index] = .double →
      locals.get? (slotOf index + 1) = none) ∧
    (∀ slot, slot < unused ↔ slot < receiverSlots isStatic ∨
      ∃ index, ∃ inside : index < kinds.length,
        slotOf index ≤ slot ∧ slot < slotOf index + kinds[index].slots) ∧
    (withReceiver factory isStatic).withParameters (UInt16.ofNat (receiverSlots isStatic)) kinds =
      (forMethod factory descriptor isStatic, UInt16.ofNat unused) ∧
    (UInt16.ofNat unused).toNat = unused := by
  intro kinds locals slotOf unused
  refine ⟨?_, ascending_nodup locals.keys_ascending, ?_, ?_, ?_, ?_, ?_, ?_⟩
  · have receiver : List.range (receiverSlots isStatic) = if isStatic then [] else [0] := by
      cases isStatic <;> rfl
    rw [← receiver]
    exact keys_forMethod factory fits
  · exact get?_forMethod_receiver factory fits
  · intro index inside
    exact get?_forMethod_parameter factory fits inside
  · intro index inside wide
    have two : descriptor.parameters[index].slots = 2 := by
      rcases wide with wide | wide <;> exact congrArg Kind.slots wide
    refine get?_forMethod_within factory fits inside (Nat.lt_succ_self _) ?_
    rw [two]
    exact Nat.lt_succ_self _
  · intro slot
    exact lt_slots_iff descriptor isStatic
  · exact forMethod_counted factory fits
  · have limit : receiverSlots isStatic + descriptor.parameterSlots ≤ 65535 := fits
    rw [UInt16.toNat_ofNat']
    omega

/-- A method that takes a long and an int, with a seed for the int. -/
theorem forMethod_layout_wide :
    let seed : Interval := .integral .int (.span 0 4 (by decide))
    let seeds : Seeds := ⟨.ofList [(3, seed)], .empty⟩
    let descriptor : MethodDescriptor := ⟨[.long, .int], none⟩
    let locals := (forMethod seeds.factory descriptor false).locals
    Enterable descriptor false ∧ locals.keys = [0, 1, 3] ∧
      locals.get? 0 = some (.top .reference) ∧ locals.get? 1 = some (.top .long) ∧
      locals.get? 2 = none ∧ locals.get? 3 = some seed ∧
      ((withReceiver seeds.factory false).withParameters 1 descriptor.parameters).2 = 4 := by
  intro seed seeds descriptor locals
  have fits : Enterable descriptor false := by decide
  obtain ⟨keys, _, receiver, values, second, _, counted, _⟩ :=
    forMethod_layout seeds.factory descriptor false fits
  exact ⟨fits, keys, receiver rfl, values 0 (by decide), second 0 (by decide) (.inl rfl),
    values 1 (by decide), congrArg Prod.snd counted⟩

end Frame

end MethodFlow

import MethodFlow.Frame.Transition
import MethodFlow.Interval.Domain

/-! The operand stack as a sequence of slots. A stack instruction is one of three operations on
slots, removal, insertion of a copy and exchange, and it is refused exactly if one of the places at
which it cuts the sequence lies beyond the end or between the two slots of one value. -/
namespace MethodFlow

/-- A slot of the operand stack: all of a one-slot value, or one half of a two-slot value. -/
inductive Slot (V : Type)
  | whole (value : V)
  | upper (value : V)
  | lower (value : V)

namespace Slot

variable {V : Type}

/-- The slots from the top may be cut after so many of them. -/
def Boundary (slots : List (Slot V)) (cut : Nat) : Prop :=
  cut ≤ slots.length ∧ ∀ value, slots[cut]? ≠ some (.lower value)

def insertCopy (count depth : Nat) (slots : List (Slot V)) : List (Slot V) :=
  let (group, rest) := slots.splitAt count
  let (between, below) := rest.splitAt (depth - count)
  group ++ between ++ (group ++ below)

def exchange : List (Slot V) → List (Slot V)
  | first :: second :: below => second :: first :: below
  | few => few

theorem insertCopy_eq {count depth : Nat} (inside : count ≤ depth) (slots : List (Slot V)) :
    insertCopy count depth slots = slots.take depth ++ slots.take count ++ slots.drop depth := by
  have sum : count + (depth - count) = depth := by omega
  have between : slots.take count ++ (slots.drop count).take (depth - count) =
      slots.take depth := by
    rw [← List.take_add, sum]
  simp only [insertCopy, List.splitAt_eq, List.drop_drop, sum]
  rw [between, List.append_assoc]

end Slot

namespace StackOp

/-- The numbers of slots from the top after which an instruction cuts. -/
def cuts : StackOp → List Nat
  | pop | dup => [1]
  | pop2 | dup2 => [2]
  | dupX1 | swap => [1, 2]
  | dupX2 => [1, 3]
  | dup2X1 => [2, 3]
  | dup2X2 => [2, 4]

def onSlots {V : Type} : StackOp → List (Slot V) → List (Slot V)
  | pop => List.drop 1
  | pop2 => List.drop 2
  | dup => Slot.insertCopy 1 1
  | dupX1 => Slot.insertCopy 1 2
  | dupX2 => Slot.insertCopy 1 3
  | dup2 => Slot.insertCopy 2 2
  | dup2X1 => Slot.insertCopy 2 3
  | dup2X2 => Slot.insertCopy 2 4
  | swap => Slot.exchange

end StackOp

/-! ## Values and their slots -/

namespace OperandStack

open Slot

variable {V : Type} [HasKind V]

def slots (stack : OperandStack V) : List (Slot V) :=
  stack.flatMap fun value =>
    match HasKind.category value with
    | .one => [.whole value]
    | .two => [.upper value, .lower value]

theorem slots_append (above below : OperandStack V) :
    slots (above ++ below) = slots above ++ slots below := List.flatMap_append

theorem slots_one {value : V} {rest : OperandStack V} (single : HasKind.category value = .one) :
    slots (value :: rest) = .whole value :: slots rest := by
  simp [slots, single]

theorem slots_two {value : V} {rest : OperandStack V} (double : HasKind.category value = .two) :
    slots (value :: rest) = .upper value :: .lower value :: slots rest := by
  simp [slots, double]

structure Fills (stack : OperandStack V) (depth count : Nat) : Prop where
  present : depth ≤ stack.length
  taken : (slots (stack.take depth)).length = count

namespace Fills

variable {stack : OperandStack V} {depth count : Nat}

theorem zero (stack : OperandStack V) : Fills stack 0 0 := ⟨Nat.zero_le _, rfl⟩

theorem slots_take (fills : Fills stack depth count) :
    slots (stack.take depth) = (slots stack).take count := by
  conv => rhs; rw [← List.take_append_drop depth stack, slots_append]
  rw [← fills.taken, List.take_left]

theorem slots_drop (fills : Fills stack depth count) :
    slots (stack.drop depth) = (slots stack).drop count := by
  conv => rhs; rw [← List.take_append_drop depth stack, slots_append]
  rw [← fills.taken, List.drop_left]

theorem length_eq (fills : Fills stack depth count) :
    (slots stack).length = count + (slots (stack.drop depth)).length := by
  conv => lhs; rw [← List.take_append_drop depth stack, slots_append]
  rw [List.length_append, fills.taken]

theorem getElem?_eq (fills : Fills stack depth count) (place : Nat) :
    (slots stack)[count + place]? = (slots (stack.drop depth))[place]? := by
  rw [fills.slots_drop, List.getElem?_drop]

theorem next (fills : Fills stack depth count) {value : V} (here : stack[depth]? = some value) :
    Fills stack (depth + 1) (count + (HasKind.category value).slots) := by
  obtain ⟨inside, rfl⟩ := List.getElem?_eq_some_iff.mp here
  refine ⟨inside, ?_⟩
  rw [List.take_add_one, here, slots_append, List.length_append, fills.taken]
  cases category : HasKind.category stack[depth] <;> simp [slots, category, Category.slots]

theorem boundary (fills : Fills stack depth count) : Boundary (slots stack) count := by
  refine ⟨by rw [fills.length_eq]; omega, ?_⟩
  intro value
  have here := fills.getElem?_eq 0
  rw [Nat.add_zero] at here
  rw [here]
  cases stack.drop depth with
  | nil => nofun
  | cons top rest =>
    cases category : HasKind.category top with
    | one => simp [slots_one category]
    | two => simp [slots_two category]

theorem not_boundary_of_none (fills : Fills stack depth count) (ended : stack[depth]? = none)
    (more : Nat) : ¬Boundary (slots stack) (count + (more + 1)) := by
  intro clean
  have nothing : stack.drop depth = [] :=
    List.drop_eq_nil_iff.mpr (List.getElem?_eq_none_iff.mp ended)
  have inside := clean.1
  rw [fills.length_eq, nothing] at inside
  exact Nat.not_succ_le_self _ (Nat.le_trans (Nat.add_le_add_left (Nat.le_add_left 1 more) count)
    inside)

theorem not_boundary_of_two (fills : Fills stack depth count) {value : V}
    (here : stack[depth]? = some value) (double : HasKind.category value = .two) :
    ¬Boundary (slots stack) (count + 1) := by
  intro clean
  apply clean.2 value
  obtain ⟨inside, rfl⟩ := List.getElem?_eq_some_iff.mp here
  rw [fills.getElem?_eq, List.drop_eq_getElem_cons inside, slots_two double]
  rfl

theorem require_ok (fills : Fills stack depth count) (operation : String) :
    stack.require operation depth = .ok () := by
  rw [require, if_neg (Nat.not_lt.mpr fills.present)]

theorem expectSingle (fills : Fills stack depth count) (operation : String) :
    stack.expectSingle operation depth = .ok () ∧ Fills stack (depth + 1) (count + 1) ∨
      (∃ reason, stack.expectSingle operation depth = .error reason) ∧
        ¬Boundary (slots stack) (count + 1) := by
  cases here : stack[depth]? with
  | none =>
    right
    constructor
    · exact ⟨_, by simp only [OperandStack.expectSingle, categoryAt, here]; rfl⟩
    · exact fills.not_boundary_of_none here 0
  | some value =>
    have next := fills.next here
    cases category : HasKind.category value with
    | one =>
      left
      rw [category] at next
      exact ⟨by simp only [OperandStack.expectSingle, categoryAt, here, category]; rfl, next⟩
    | two =>
      right
      constructor
      · exact ⟨_, by simp only [OperandStack.expectSingle, categoryAt, here, category]; rfl⟩
      · exact fills.not_boundary_of_two here category

theorem groupAt (fills : Fills stack depth count) (operation : String) :
    (∃ size, stack.groupAt operation depth = .ok size ∧ Fills stack (depth + size) (count + 2)) ∨
      (∃ reason, stack.groupAt operation depth = .error reason) ∧
        ¬Boundary (slots stack) (count + 2) := by
  cases here : stack[depth]? with
  | none =>
    right
    constructor
    · exact ⟨_, by simp only [OperandStack.groupAt, categoryAt, here]; rfl⟩
    · exact fills.not_boundary_of_none here 1
  | some value =>
    have next := fills.next here
    cases category : HasKind.category value with
    | two =>
      left
      rw [category] at next
      exact ⟨1, by simp only [OperandStack.groupAt, categoryAt, here, category]; rfl, next⟩
    | one =>
      rw [category] at next
      have checks : stack.groupAt operation depth = (do
          stack.require operation (depth + 2)
          stack.expectSingle operation (depth + 1)
          return 2) := by
        simp only [OperandStack.groupAt, categoryAt, here, category]
        rfl
      -- The check of the depth comes first, so it may be what refuses a stack that the check of the
      -- second value would refuse as well.
      rcases next.expectSingle operation with ⟨second, both⟩ | ⟨⟨reason, second⟩, broken⟩
      · left
        refine ⟨2, ?_, both⟩
        rw [checks, both.require_ok, second]
        rfl
      · right
        refine ⟨?_, broken⟩
        rw [checks, second]
        cases stack.require operation (depth + 2) with
        | error reason => exact ⟨reason, rfl⟩
        | ok => exact ⟨reason, rfl⟩

theorem slots_insertCopy {size depth cut : Nat} (group : Fills stack size count)
    (below : Fills stack depth cut) (inside : count ≤ cut) :
    slots (stack.take depth ++ stack.take size ++ stack.drop depth) =
      insertCopy count cut (slots stack) := by
  rw [slots_append, slots_append, insertCopy_eq inside, group.slots_take, below.slots_take,
    below.slots_drop]

end Fills

/-! ## Runs of an instruction -/

section Questions

variable {α β : Type} {stack : OperandStack V} {question : OperandStack V → Except StackError α}
  {next : α → StackAction V β}

omit [HasKind V]

theorem run_ask_ok {answer : α} (accepted : question stack = .ok answer) :
    (ask question >>= next).run stack = (next answer).run stack := by
  rw [EStateM.run_bind, run_ask, accepted]

theorem run_ask_error {reason : StackError} (rejected : question stack = .error reason) :
    (ask question >>= next).run stack = .error reason stack := by
  rw [EStateM.run_bind, run_ask, rejected]

end Questions

/-- How a run of the instruction ends: with a stack on which it did on slots what the instruction
says, if there were as many values as were asked for, or with a refusal that leaves the stack as it
was, because of a place that cannot be cut. -/
inductive Refines (op : StackOp) (stack : OperandStack V) (needed : Nat) :
    EStateM.Result StackError (OperandStack V) Unit → Prop
  | moved {result : OperandStack V} (present : needed ≤ stack.length)
      (clean : ∀ cut ∈ op.cuts, Boundary (slots stack) cut)
      (same : slots result = op.onSlots (slots stack)) : Refines op stack needed (.ok () result)
  | refused {cut : Nat} (member : cut ∈ op.cuts) (broken : ¬Boundary (slots stack) cut)
      (reason : StackError) : Refines op stack needed (.error reason stack)

namespace Refines

variable {op : StackOp} {stack : OperandStack V} {needed depth count : Nat} {operation : String}

theorem weaken {result : EStateM.Result StackError (OperandStack V) Unit}
    (refines : Refines op stack needed result) : Refines op stack 0 result := by
  cases refines with
  | moved _ clean same => exact .moved (Nat.zero_le _) clean same
  | refused member broken reason => exact .refused member broken reason

theorem require {next : Unit → StackAction V Unit}
    (refines : Refines op stack needed ((next ()).run stack)) :
    Refines op stack needed ((ask (require operation needed) >>= next).run stack) := by
  cases checked : stack.require operation needed with
  | ok => rwa [run_ask_ok checked]
  | error shallow =>
    rw [run_ask_error checked]
    generalize (next ()).run stack = result at refines
    cases refines with
    | moved present =>
      rw [OperandStack.require, if_neg (Nat.not_lt.mpr present)] at checked
      cases checked
    | refused member broken => exact .refused member broken shallow

theorem expectSingle (fills : Fills stack depth count) (member : count + 1 ∈ op.cuts)
    {next : Unit → StackAction V Unit}
    (each : Fills stack (depth + 1) (count + 1) →
      Refines op stack needed ((next ()).run stack)) :
    Refines op stack needed ((ask (expectSingle operation depth) >>= next).run stack) := by
  rcases fills.expectSingle operation with ⟨accepted, more⟩ | ⟨⟨reason, rejected⟩, broken⟩
  · rw [run_ask_ok accepted]
    exact each more
  · rw [run_ask_error rejected]
    exact .refused member broken reason

theorem groupAt (fills : Fills stack depth count) (member : count + 2 ∈ op.cuts)
    {next : Nat → StackAction V Unit}
    (each : ∀ size, Fills stack (depth + size) (count + 2) →
      Refines op stack needed ((next size).run stack)) :
    Refines op stack needed ((ask (groupAt operation depth) >>= next).run stack) := by
  rcases fills.groupAt operation with ⟨size, accepted, more⟩ | ⟨⟨reason, rejected⟩, broken⟩
  · rw [run_ask_ok accepted]
    exact each size more
  · rw [run_ask_error rejected]
    exact .refused member broken reason

theorem topGroup (member : 2 ∈ op.cuts) {next : List V → StackAction V Unit}
    (each : ∀ size, Fills stack size 2 →
      Refines op stack needed ((next (stack.take size)).run stack)) :
    Refines op stack needed ((ask (topGroup operation) >>= next).run stack) := by
  rcases (Fills.zero stack).groupAt operation with ⟨size, found, two⟩ | ⟨⟨reason, failed⟩, broken⟩
  · have accepted : stack.topGroup operation = .ok (stack.take size) := by
      rw [OperandStack.topGroup, found]
      rfl
    rw [Nat.zero_add] at two
    rw [run_ask_ok accepted]
    exact each size two
  · have rejected : stack.topGroup operation = .error reason := by
      rw [OperandStack.topGroup, failed]
      rfl
    rw [run_ask_error rejected]
    exact .refused member broken reason

/-- By the time values are put in, their place is known to exist. -/
theorem insertBelow {size cut : Nat} (group : Fills stack size count)
    (below : Fills stack depth cut) (inside : count ≤ cut) (deep : needed ≤ depth)
    (places : op.cuts = [count, cut]) (copies : op.onSlots = insertCopy (V := V) count cut) :
    Refines op stack needed ((insertBelow operation depth (stack.take size)).run stack) := by
  have inserted : (OperandStack.insertBelow operation depth (stack.take size)).run stack =
      .ok () (stack.take depth ++ stack.take size ++ stack.drop depth) := by
    rw [OperandStack.insertBelow, run_ask_ok (below.require_ok operation)]
    rfl
  rw [inserted]
  refine .moved (Nat.le_trans deep below.present) ?_ ?_
  · rw [places]
    simpa using ⟨group.boundary, below.boundary⟩
  · rw [copies]
    exact group.slots_insertCopy below inside

theorem copyTop {size : Nat} (group : Fills stack size count) (enough : needed ≤ size)
    (places : op.cuts = [count]) (copies : op.onSlots = insertCopy (V := V) count count) :
    Refines op stack needed (.ok () (stack.take size ++ stack)) := by
  refine .moved (Nat.le_trans enough group.present) ?_ ?_
  · rw [places]
    simpa using group.boundary
  · have copied := group.slots_insertCopy group (Nat.le_refl count)
    rw [List.append_assoc, List.take_append_drop] at copied
    rw [copies]
    exact copied

theorem drop {size : Nat} (group : Fills stack size count) (enough : needed ≤ size)
    (places : op.cuts = [count])
    (removes : op.onSlots = fun slots : List (Slot V) => slots.drop count) :
    Refines op stack needed (.ok () (stack.drop size)) := by
  refine .moved (Nat.le_trans enough group.present) ?_ ?_
  · rw [places]
    simpa using group.boundary
  · rw [removes]
    exact group.slots_drop

end Refines

theorem slots_swap {stack : OperandStack V} (one : Fills stack 1 1) (two : Fills stack 2 2) :
    slots ((stack.take 2).reverse ++ stack.drop 2) = exchange (slots stack) := by
  match stack, one, two with
  | [], one, _ => exact absurd one.present (by simp)
  | [_], _, two => exact absurd two.present (by simp)
  | first :: second :: below, one, two =>
    have firstTaken := one.taken
    have bothTaken := two.taken
    cases upper : HasKind.category first with
    | two => simp [slots_two upper] at firstTaken
    | one =>
      cases lower : HasKind.category second with
      | two => simp [slots_one upper, slots_two lower] at bothTaken
      | one => simp [slots_one upper, slots_one lower, exchange]

theorem run_pop2 (stack : OperandStack V) :
    (apply .pop2).run stack =
      (ask (groupAt "pop2" 0) >>= fun size => modify (List.drop size)).run stack := by
  cases found : stack.categoryAt "pop2" 0 with
  | error reason =>
    have failed : stack.groupAt "pop2" 0 = .error reason := by
      rw [OperandStack.groupAt, found]
      rfl
    rw [run_ask_error failed]
    exact run_ask_error found
  | ok category =>
    have first : (apply .pop2).run stack = _ := run_ask_ok found
    rw [first]
    cases category with
    | two =>
      have group : stack.groupAt "pop2" 0 = .ok 1 := by
        rw [OperandStack.groupAt, found]
        rfl
      rw [run_ask_ok group]
      cases stack with
      | nil => cases found
      | cons value rest => rfl
    | one =>
      have checks : stack.groupAt "pop2" 0 = (do
          stack.require "pop2" 2
          stack.expectSingle "pop2" 1
          return 2) := by
        rw [OperandStack.groupAt, found]
        rfl
      cases required : stack.require "pop2" 2 with
      | error reason =>
        rw [required] at checks
        rw [run_ask_error checks]
        exact run_ask_error required
      | ok =>
        have second : (ask (require "pop2" 2) >>= fun _ =>
            ask (OperandStack.expectSingle "pop2" 1) >>= fun _ => modify (List.drop 2) :
            StackAction V Unit).run stack = _ := run_ask_ok required
        cases single : stack.expectSingle "pop2" 1 with
        | error reason =>
          rw [required, single] at checks
          rw [run_ask_error checks]
          exact second.trans (run_ask_error single)
        | ok =>
          rw [required, single] at checks
          rw [run_ask_ok checks]
          exact second.trans (run_ask_ok single)

/-- Every stack instruction is refused where it would cut a value or lacks one, with the stack left
as it was, and otherwise does on values what it does on slots. -/
theorem apply_refines (op : StackOp) (stack : OperandStack V) :
    Refines op stack 0 ((apply op).run stack) := by
  have zero := Fills.zero stack
  cases op with
  | pop =>
    have steps : (apply .pop).run stack = (ask (require "pop" 1) >>= fun _ =>
        ask (expectSingle "pop" 0) >>= fun _ => pop >>= fun _ => pure ()).run stack := by
      simp only [apply, popSingle, bind_assoc]
    rw [steps]
    refine .weaken (.require (.expectSingle zero (by decide) fun one => ?_))
    cases stack with
    | nil => exact absurd one.present (by simp)
    | cons value rest => exact .drop one (Nat.le_refl 1) rfl rfl
  | pop2 =>
    rw [run_pop2]
    refine .groupAt zero (by decide) fun size two => ?_
    rw [Nat.zero_add] at two
    exact .drop two (Nat.zero_le _) rfl rfl
  | dup =>
    exact .weaken (.require (.expectSingle zero (by decide) fun one =>
      .copyTop one (Nat.le_refl 1) rfl rfl))
  | dupX1 =>
    exact .weaken (.require (.expectSingle zero (by decide) fun one =>
      .expectSingle one (by decide) fun two =>
        .insertBelow one two (by decide) (Nat.le_refl 2) rfl rfl))
  | dupX2 =>
    refine .weaken (.require (.expectSingle zero (by decide) fun one =>
      .groupAt one (by decide) fun size three => ?_))
    have deep : 2 ≤ 1 + size := by
      -- The group takes two slots, so it is not empty.
      cases size with
      | zero => cases one.taken.symm.trans three.taken
      | succ => omega
    exact .insertBelow one three (by decide) deep rfl rfl
  | dup2 =>
    exact .topGroup (by decide) fun size two => .copyTop two (Nat.zero_le _) rfl rfl
  | dup2X1 =>
    refine .topGroup (by decide) fun size two => ?_
    have length : (stack.take size).length = size := List.length_take_of_le two.present
    rw [length]
    exact .weaken (.require (.expectSingle two (by decide) fun three =>
      .insertBelow two three (by decide) (Nat.le_refl _) rfl rfl))
  | dup2X2 =>
    refine .topGroup (by decide) fun size two => ?_
    have length : (stack.take size).length = size := List.length_take_of_le two.present
    rw [length]
    exact .groupAt two (by decide) fun below four =>
      .insertBelow two four (by decide) (Nat.zero_le _) rfl rfl
  | swap =>
    refine .weaken (.require (.expectSingle zero (by decide) fun one =>
      .expectSingle one (by decide) fun two => ?_))
    exact .moved two.present (by simpa [StackOp.cuts] using ⟨one.boundary, two.boundary⟩)
      (slots_swap one two)

end OperandStack

/-- A stack instruction succeeds exactly if all places at which it cuts the slots of the stack exist
and lie between values. It then does on the slots what it is defined to do, and leaves all but the
stack as it was. If it fails, the stack it leaves is the one it found, and so is the whole state. -/
theorem Frame.shuffle_slots {V : Type} [AbstractValue V] (op : StackOp) (frame : Frame V) :
    ((∃ moved, (OperandStack.apply op).run frame.stack = .ok () moved) ↔
      ∀ cut ∈ op.cuts, Slot.Boundary frame.stack.slots cut) ∧
    (∀ moved, (OperandStack.apply op).run frame.stack = .ok () moved →
      moved.slots = op.onSlots frame.stack.slots ∧
        (Frame.shuffle op).run frame = .ok () { frame with stack := moved }) ∧
    ∀ error left, (OperandStack.apply op).run frame.stack = .error error left →
      left = frame.stack ∧ (Frame.shuffle op).run frame = .error (.stack error) frame := by
  have refines := OperandStack.apply_refines op frame.stack
  rw [Frame.shuffle, Frame.run_onStack]
  generalize (OperandStack.apply op).run frame.stack = result at refines
  cases refines with
  | moved _ clean same =>
    refine ⟨⟨fun _ => clean, fun _ => ⟨_, rfl⟩⟩, ?_, nofun⟩
    rintro _ ⟨rfl⟩
    exact ⟨same, rfl⟩
  | refused member broken =>
    refine ⟨⟨nofun, fun clean => absurd (clean _ member) broken⟩, nofun, ?_⟩
    rintro error _ ⟨rfl⟩
    exact ⟨rfl, rfl⟩

/-- Two one-slot values are copied under a two-slot value as a whole, which is not cut. -/
example : (OperandStack.apply .dup2X2).run [Interval.int 1, .int 2, .long 3] =
    .ok () [.int 1, .int 2, .long 3, .int 1, .int 2] := rfl

end MethodFlow

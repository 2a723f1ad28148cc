import Mathlib.Data.List.Forall2
import MethodFlow.Proofs.Machine

/-! The stack instructions look at categories only, so stacks whose values have the same categories
place by place are moved about in the same way; and on words they do what their forms say. -/
namespace MethodFlow

namespace OperandStack

section Actions

variable {V W α β γ δ : Type} {R : V → W → Prop} {S : α → β → Prop} {T : γ → δ → Prop}

/-- Both runs end with related answers, or both fail alike. Either way they leave related stacks. -/
inductive Agree (R : V → W → Prop) (S : α → β → Prop) :
    EStateM.Result StackError (OperandStack V) α →
      EStateM.Result StackError (OperandStack W) β → Prop
  | ok {a : α} {b : β} {left : OperandStack V} {right : OperandStack W} (answers : S a b)
      (kept : List.Forall₂ R left right) : Agree R S (.ok a left) (.ok b right)
  | error {left : OperandStack V} {right : OperandStack W} (reason : StackError)
      (kept : List.Forall₂ R left right) : Agree R S (.error reason left) (.error reason right)

def Alike (R : V → W → Prop) (S : α → β → Prop) (action : StackAction V α)
    (other : StackAction W β) : Prop :=
  ∀ left right, List.Forall₂ R left right → Agree R S (action.run left) (other.run right)

namespace Alike

theorem bind {action : StackAction V α} {other : StackAction W β} {next : α → StackAction V γ}
    {otherNext : β → StackAction W δ} (first : Alike R S action other)
    (second : ∀ a b, S a b → Alike R T (next a) (otherNext b)) :
    Alike R T (action >>= next) (other >>= otherNext) := by
  intro left right related
  have ended := first left right related
  rw [EStateM.run_bind, EStateM.run_bind]
  generalize action.run left = ran, other.run right = ran' at ended
  cases ended with
  | ok answers kept => exact second _ _ answers _ _ kept
  | error reason kept => exact .error reason kept

theorem pure {a : α} {b : β} (answers : S a b) :
    Alike R S (Pure.pure a : StackAction V α) (Pure.pure b : StackAction W β) :=
  fun _ _ related => .ok answers related

theorem get : Alike R (List.Forall₂ R) (MonadState.get : StackAction V (OperandStack V))
    (MonadState.get : StackAction W (OperandStack W)) := fun _ _ related => .ok related related

theorem modify {change : OperandStack V → OperandStack V}
    {otherChange : OperandStack W → OperandStack W}
    (each : ∀ left right, List.Forall₂ R left right →
      List.Forall₂ R (change left) (otherChange right)) :
    Alike R (fun _ _ => True) (modifyThe (OperandStack V) change : StackAction V Unit)
      (modifyThe (OperandStack W) otherChange : StackAction W Unit) :=
  fun left right related => .ok trivial (each left right related)

theorem ask {question : OperandStack V → Except StackError α}
    {other : OperandStack W → Except StackError α}
    (same : ∀ left right, List.Forall₂ R left right → question left = other right) :
    Alike R Eq (OperandStack.ask question) (OperandStack.ask other) := by
  refine get.bind fun left right related => ?_
  rw [same left right related]
  cases other right with
  | ok answer => exact pure rfl
  | error reason => exact fun _ _ kept => .error reason kept

theorem require (operation : String) (needed : Nat) :
    Alike R Eq (OperandStack.ask (require operation needed))
      (OperandStack.ask (OperandStack.require operation needed)) := by
  refine ask fun left right related => ?_
  rw [OperandStack.require, OperandStack.require, related.length_eq]

theorem push {value : V} {other : W} (related : R value other) :
    Alike R (fun _ _ => True) (OperandStack.push value) (OperandStack.push other) :=
  modify fun _ _ below => .cons related below

theorem pop :
    Alike R R (OperandStack.pop : StackAction V V) (OperandStack.pop : StackAction W W) := by
  intro left right related
  cases related with
  | nil => exact .error _ .nil
  | cons top rest => exact .ok top rest

theorem popMany (operation : String) (count : Nat) :
    Alike R (List.Forall₂ R) (OperandStack.popMany operation count : StackAction V (List V))
      (OperandStack.popMany operation count : StackAction W (List W)) := by
  refine (require operation count).bind fun _ _ _ left right related => ?_
  exact .ok (List.rel_reverse (List.forall₂_take count related)) (List.forall₂_drop count related)

theorem insertBelow (operation : String) (depth : Nat) {group : List V} {other : List W}
    (groups : List.Forall₂ R group other) :
    Alike R (fun _ _ => True) (OperandStack.insertBelow operation depth group)
      (OperandStack.insertBelow operation depth other) := by
  refine (require operation depth).bind fun _ _ _ => modify fun left right related => ?_
  exact List.rel_append (List.rel_append (List.forall₂_take depth related) groups)
    (List.forall₂_drop depth related)

end Alike

end Actions

variable {V W : Type} [HasKind V] [HasKind W] {R : V → W → Prop}
  (same : ∀ v w, R v w → HasKind.category v = HasKind.category w)

include same

theorem category_getElem? {a : OperandStack V} {b : OperandStack W} (related : List.Forall₂ R a b)
    (depth : Nat) : a[depth]?.map HasKind.category = b[depth]?.map HasKind.category := by
  induction related generalizing depth with
  | nil => rfl
  | cons head rest ih =>
    cases depth with
    | zero => simp [same _ _ head]
    | succ depth => simpa using ih depth

theorem categoryAt_congr {a : OperandStack V} {b : OperandStack W} (related : List.Forall₂ R a b)
    (operation : String) (depth : Nat) :
    a.categoryAt operation depth = b.categoryAt operation depth := by
  have categories := category_getElem? same related depth
  unfold categoryAt
  rw [related.length_eq]
  cases left : a[depth]? <;> cases right : b[depth]? <;> simp_all

theorem expectSingle_congr {a : OperandStack V} {b : OperandStack W} (related : List.Forall₂ R a b)
    (operation : String) (depth : Nat) :
    a.expectSingle operation depth = b.expectSingle operation depth := by
  rw [expectSingle, expectSingle, categoryAt_congr same related]

theorem groupAt_congr {a : OperandStack V} {b : OperandStack W} (related : List.Forall₂ R a b)
    (operation : String) (depth : Nat) :
    a.groupAt operation depth = b.groupAt operation depth := by
  rw [groupAt, groupAt, categoryAt_congr same related, expectSingle_congr same related,
    OperandStack.require, OperandStack.require, related.length_eq]

namespace Alike

theorem expectSingle (operation : String) (depth : Nat) :
    Alike R Eq (OperandStack.ask (expectSingle operation depth))
      (OperandStack.ask (OperandStack.expectSingle operation depth)) :=
  ask fun _ _ related => expectSingle_congr same related operation depth

theorem groupAt (operation : String) (depth : Nat) :
    Alike R Eq (OperandStack.ask (groupAt operation depth))
      (OperandStack.ask (OperandStack.groupAt operation depth)) :=
  ask fun _ _ related => groupAt_congr same related operation depth

theorem topGroup (operation : String) :
    Alike R (List.Forall₂ R) (OperandStack.ask (topGroup operation))
      (OperandStack.ask (OperandStack.topGroup operation)) := by
  refine Alike.get.bind fun left right related => ?_
  rw [OperandStack.topGroup, OperandStack.topGroup, groupAt_congr same related]
  cases OperandStack.groupAt operation 0 right with
  | ok count => exact pure (List.forall₂_take count related)
  | error reason => exact fun _ _ kept => .error reason kept

/-- Stacks of the same categories are moved about alike, or refused alike. -/
theorem apply (op : StackOp) :
    Alike R (fun _ _ => True) (apply op : StackAction V Unit)
      (OperandStack.apply op : StackAction W Unit) := by
  have expect := expectSingle same
  cases op with
  | pop =>
    refine .bind (S := R) ?_ fun _ _ _ => pure trivial
    exact (require _ _).bind fun _ _ _ => (expect _ _).bind fun _ _ _ => pop
  | pop2 =>
    have category : Alike R Eq (OperandStack.ask (categoryAt "pop2" 0))
        (OperandStack.ask (categoryAt "pop2" 0)) :=
      ask fun _ _ related => categoryAt_congr same related "pop2" 0
    refine category.bind ?_
    rintro category _ rfl
    cases category with
    | two => exact pop.bind fun _ _ _ => pure trivial
    | one =>
      exact (require _ _).bind fun _ _ _ => (expect _ _).bind fun _ _ _ =>
        modify fun _ _ related => List.forall₂_drop 2 related
  | dup =>
    exact (require _ _).bind fun _ _ _ => (expect _ _).bind fun _ _ _ =>
      modify fun _ _ related => List.rel_append (List.forall₂_take 1 related) related
  | dupX1 =>
    exact (require _ _).bind fun _ _ _ => (expect _ _).bind fun _ _ _ => (expect _ _).bind
      fun _ _ _ => Alike.get.bind fun _ _ related => insertBelow _ _ (List.forall₂_take 1 related)
  | dupX2 =>
    refine (require _ _).bind fun _ _ _ => (expect _ _).bind fun _ _ _ =>
      Alike.get.bind fun _ _ related => (groupAt same _ _).bind ?_
    rintro count _ rfl
    exact insertBelow _ _ (List.forall₂_take 1 related)
  | dup2 =>
    exact (topGroup same _).bind fun _ _ groups => modify fun _ _ related =>
      List.rel_append groups related
  | dup2X1 =>
    refine (topGroup same _).bind fun group other groups => ?_
    rw [groups.length_eq]
    exact (require _ _).bind fun _ _ _ => (expect _ _).bind fun _ _ _ => insertBelow _ _ groups
  | dup2X2 =>
    refine (topGroup same _).bind fun group other groups => ?_
    rw [groups.length_eq]
    refine (groupAt same _ _).bind ?_
    rintro count _ rfl
    exact insertBelow _ _ groups
  | swap =>
    exact (require _ _).bind fun _ _ _ => (expect _ _).bind fun _ _ _ => (expect _ _).bind
      fun _ _ _ => modify fun _ _ related => List.rel_append
        (List.rel_reverse (List.forall₂_take 2 related)) (List.forall₂_drop 2 related)

end Alike

end OperandStack

/-- Each form of a stack instruction is what the instruction does on words. -/
theorem Word.shuffle_eq_apply {op : StackOp} {words moved : List Word}
    (shuffled : shuffle op words = some moved) :
    (OperandStack.apply op).run words = .ok () moved := by
  unfold shuffle at shuffled
  split at shuffled <;> cases shuffled <;> rfl

end MethodFlow

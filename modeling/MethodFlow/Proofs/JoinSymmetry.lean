import MethodFlow.Proofs.FrameInvariants
import MethodFlow.Proofs.ValueLattice

/-! The join of frames whose values are not floating-point numbers is commutative and idempotent,
and it gives the same frame and not only an equal one. Every part of a frame is joined by an
operation with these laws; for the candidates of a switch they hold because these are sorted. -/
namespace MethodFlow

open MethodFlow.Interval

section Parts

variable {absent : Kind → Interval} {left right joined slot : Option Interval}
  {leftStack rightStack joinedStack stack : OperandStack Interval}

theorem JoinedSlot.symm (discrete : ∀ {value}, left = some value → value.kind.isFloating = false)
    (parts : JoinedSlot absent left right joined) : JoinedSlot absent right left joined := by
  cases parts with
  | both compatible made =>
    exact .both (Kind.compatible_symm compatible) (union_comm (discrete rfl) made)
  | clash clash =>
    refine .clash (Bool.eq_false_iff.mpr fun compatible => ?_)
    exact Bool.eq_false_iff.mp clash (Kind.compatible_symm compatible)
  | left made => exact .right made
  | right made => exact .left made
  | neither => exact .neither

theorem JoinedSlot.self (discrete : ∀ {value}, slot = some value → value.kind.isFloating = false) :
    JoinedSlot absent slot slot slot := by
  cases slot with
  | none => exact .neither
  | some value => exact .both value.kind.compatible_refl (union_self (discrete rfl))

theorem JoinedResult.symm
    (discrete : ∀ {value}, left = some value → value.kind.isFloating = false)
    (parts : JoinedResult left right joined) : JoinedResult right left joined := by
  cases parts with
  | both made => exact .both (union_comm (discrete rfl) made)
  | left => exact .right
  | right => exact .left
  | neither => exact .neither

theorem JoinedResult.self
    (discrete : ∀ {value}, slot = some value → value.kind.isFloating = false) :
    JoinedResult slot slot slot := by
  cases slot with
  | none => exact .neither
  | some value => exact .both (union_self (discrete rfl))

theorem JoinedStack.symm (discrete : ∀ value ∈ leftStack, value.kind.isFloating = false)
    (parts : JoinedStack leftStack rightStack joinedStack) :
    JoinedStack rightStack leftStack joinedStack := by
  induction parts with
  | nil => exact .nil
  | cons made _ ih =>
    rw [List.forall_mem_cons] at discrete
    exact .cons (union_comm discrete.1 made) (ih discrete.2)

theorem JoinedStack.self (discrete : ∀ value ∈ stack, value.kind.isFloating = false) :
    JoinedStack stack stack stack := by
  induction stack with
  | nil => exact .nil
  | cons value rest ih =>
    rw [List.forall_mem_cons] at discrete
    exact .cons (union_self discrete.1) (ih discrete.2)

end Parts

theorem BranchFlags.join_comm (a b : BranchFlags) : a.join b = b.join a := by
  rw [join, join, Bool.or_comm, Bool.or_comm a.passed]

theorem BranchFlags.join_self (a : BranchFlags) : a.join a = a := by
  rw [join, Bool.or_self, Bool.or_self]

namespace Frame

variable {a b joined frame : Frame Interval}

def Discrete (frame : Frame Interval) : Prop :=
  frame.Holds fun value => value.kind.isFloating = false

theorem Joined.symm (discrete : a.Discrete) (same : b.factory = a.factory)
    (parts : Joined a b joined) : Joined b a joined where
  factory := parts.factory.trans same.symm
  stack := parts.stack.symm discrete.stack
  locals index := by
    rw [same]
    exact (parts.locals index).symm discrete.locals
  statics key := by
    rw [same]
    exact (parts.statics key).symm discrete.statics
  fields key := by
    rw [same]
    exact (parts.fields key).symm discrete.fields
  flags := parts.flags.trans (a.flags.join_comm b.flags)
  evaluateAll := parts.evaluateAll.trans (Bool.or_comm ..)
  loopingValid := parts.loopingValid.trans (Bool.or_comm ..)
  candidates := by
    rw [parts.candidates]
    congr 1
    apply SortedSet.ext
    simp [or_comm]
  returnValue := parts.returnValue.symm discrete.returnValue
  thrown := parts.thrown.symm discrete.thrown

theorem Joined.self (discrete : frame.Discrete) (ascending : frame.Ascending) :
    Joined frame frame frame where
  factory := rfl
  stack := .self discrete.stack
  locals _ := .self discrete.locals
  statics _ := .self discrete.statics
  fields _ := .self discrete.fields
  flags := frame.flags.join_self.symm
  evaluateAll := (Bool.or_self _).symm
  loopingValid := (Bool.or_self _).symm
  candidates := by
    apply ascending_ext ascending (SortedSet.ascending _)
    simp
  returnValue := .self discrete.returnValue
  thrown := .self discrete.thrown

/-- Frames of one machine join to the same frame in either order, or in none, and a frame joined
with itself stays as it is. -/
theorem combine_symmetric {seeds : Seeds} (left : Reachable seeds.factory a)
    (right : Reachable seeds.factory b) (discreteLeft : a.Discrete) (discreteRight : b.Discrete) :
    (∀ joined, a.combine b = .ok joined ↔ b.combine a = .ok joined) ∧ a.combine a = .ok a := by
  have same : a.factory = b.factory := left.factory_eq.trans right.factory_eq.symm
  constructor
  · intro joined
    rw [combine_eq_ok, combine_eq_ok]
    exact ⟨.symm discreteLeft same.symm, .symm discreteRight same⟩
  · exact combine_eq_ok.mpr (.self discreteLeft left.ascending)

/-- A stored short is joined with the seed of its local, and the candidates of a switch are kept. -/
theorem combine_symmetric_seeded :
    let seeds : Seeds := ⟨.ofList [(0, .integral .int (.span 3 9 (by decide)))], .empty⟩
    let a := stored seeds.factory (.integral .short (.singleton 300))
    let b := Action.left .evaluateSwitch
      (Action.left (.perform (.push (.int 5))) (initial seeds.factory))
    let joined : Frame Interval :=
      { stored seeds.factory (.integral .int (.span 3 300 (by decide))) with
        flags := ⟨true, false⟩
        candidates := [5] }
    Reachable seeds.factory a ∧ Reachable seeds.factory b ∧ a.Discrete ∧ b.Discrete ∧
      a.combine b = .ok joined ∧ b.combine a = .ok joined ∧ a.combine a = .ok a ∧
      b.combine b = .ok b := by
  intro seeds a b joined
  have left : Reachable seeds.factory a :=
    reachable_stored .int (rfl : literalValue seeds.factory (.short 300) = _) rfl
  have right : Reachable seeds.factory b := .step _ (.step _ .initial)
  have start : (initial seeds.factory).Discrete := (Sound.initial seeds.factory _).2
  have discreteLeft : a.Discrete := Holds.setLocal start 0 rfl
  have discreteRight : b.Discrete := { start with }
  have made : a.combine b = .ok joined := rfl
  have forth := combine_symmetric left right discreteLeft discreteRight
  have back := combine_symmetric right left discreteRight discreteLeft
  exact ⟨left, right, discreteLeft, discreteRight, made, (forth.1 joined).mp made, forth.2, back.2⟩

end Frame

end MethodFlow

import MethodFlow.Proofs.DenotedValues
import MethodFlow.Proofs.KindRanges
import MethodFlow.Proofs.Reachability

/-! What all frames of a machine have in common: integral values stay in their kinds, and the
candidates of a switch are listed in ascending order, each of them once. -/
namespace MethodFlow

namespace Frame

variable {V : Type} {factory : ValueFactory V} {frame : Frame V}

theorem candidates_withParameters (slot : UInt16) (frame : Frame V) (kinds : List Kind) :
    (frame.withParameters slot kinds).1.candidates = frame.candidates := by
  induction kinds generalizing slot frame with
  | nil => rfl
  | cons kind rest ih => exact ih _ _

theorem candidates_forMethod (factory : ValueFactory V) (descriptor : MethodDescriptor)
    (isStatic : Bool) : (Frame.forMethod factory descriptor isStatic).candidates = [] := by
  cases isStatic <;> exact candidates_withParameters _ _ _

variable [AbstractValue V]

def Ascending (frame : Frame V) : Prop :=
  frame.candidates.Pairwise fun x y => compare x y = .lt

theorem Ascending.ofSwitch (ascending : frame.Ascending) :
    (Action.evaluateSwitch.left frame).Ascending := by
  cases stack : frame.stack with
  | nil =>
    have fails : Fails Action.evaluateSwitch.transition frame frame := (pop_fails stack).bind
    rw [Action.left_of_fails fails]
    exact ascending
  | cons selector rest =>
    cases listed : (AbstractValue.concretize selector).integers? maxCandidates with
    | none =>
      have ran : Yields Action.evaluateSwitch.transition frame () _ :=
        evaluateSwitch_unlisted stack listed
      rw [Action.left_of_yields ran]
      exact .nil
    | some candidates =>
      have ran : Yields Action.evaluateSwitch.transition frame () _ :=
        evaluateSwitch_listed stack listed
      rw [Action.left_of_yields ran]
      exact (Concretization.integers?_ascending listed).imp Int.compare_eq_lt.mpr

theorem Ascending.step (action : Action) (ascending : frame.Ascending) :
    (action.left frame).Ascending := by
  by_cases switch : action.Touches .candidates
  · obtain rfl : action = .evaluateSwitch := by
      cases action with
      | evaluateSwitch => rfl
      | perform effect => cases effect <;> cases switch
      | evaluateBranch | enterSubroutine | exitSubroutine => cases switch
      | terminate terminal => cases terminal <;> cases switch
    exact ascending.ofSwitch
  · rw [Ascending, (frame.untouched action).candidates switch]
    exact ascending

theorem Reachable.ascending (reachable : Reachable factory frame) : frame.Ascending := by
  induction reachable with
  | initial => exact .nil
  | forMethod _ =>
    rw [Ascending, candidates_forMethod]
    exact .nil
  | exhaustive _ ih => exact ih
  | withLooping _ _ ih => exact ih
  | @step _ action _ _ ih => exact ih.step action
  | combine _ _ _ made =>
    rw [Ascending, (joined_of_combine made).candidates]
    exact SortedSet.ascending _

/-- No run of a machine with seeds in their kinds makes an integral value leave its kind. -/
theorem holds_inKind {seeds : Seeds} (inKind : seeds.InKind) {frame : Frame Interval}
    (reachable : Reachable seeds.factory frame) : frame.Holds Interval.InKind :=
  (reachable.sound inKind.closed).2

/-- A seeded byte is loaded and added to a short. -/
theorem holds_inKind_widened :
    let byte : Interval := .integral .byte (.span (-128) 127 (by decide))
    let seeds : Seeds := ⟨.ofList [(0, byte)], .empty⟩
    let loaded := Action.left (.perform (.load .int 0)) (initial seeds.factory)
    let pushed := Action.left (.perform (.push (.short 300))) loaded
    let added := Action.left (.perform (.arithmetic .add .int)) pushed
    seeds.InKind ∧ Reachable seeds.factory added ∧ added.locals = .ofList [(0, byte)] ∧
      added.stack = [.integral .int (.span 172 427 (by decide))] ∧
      added.Holds Interval.InKind := by
  intro byte seeds loaded pushed added
  have inKind : seeds.InKind := by
    constructor
    · intro index seed found
      have member : (index, seed) ∈ [(0, byte)] := SortedMap.get?_eq_some_iff.mp found
      obtain ⟨_, rfl⟩ : index = 0 ∧ seed = byte := by simpa using member
      rfl
    · exact nofun
  have reachable : Reachable seeds.factory added := .step _ (.step _ (.step _ .initial))
  exact ⟨inKind, reachable, rfl, rfl, holds_inKind inKind reachable⟩

end Frame

end MethodFlow

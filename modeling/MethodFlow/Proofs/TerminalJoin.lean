import MethodFlow.Exploration.Explorer
import MethodFlow.Proofs.JoinGrouping

/-! The join of all terminal states. Slots never keep frames from being joined, so whether a list of
frames can be joined is decided by its pairs; and what the join returns is the join of what the
frames return. -/
namespace MethodFlow

open MethodFlow.Interval

def ResultsFit (x y : Option Interval) : Prop :=
  ∀ v ∈ x, ∀ w ∈ y, v.kind.compatible w.kind = true

theorem joinedResult_iff {x y : Option Interval} :
    (∃ joined, JoinedResult x y joined) ↔ ResultsFit x y := by
  cases x with
  | none =>
    cases y with
    | none => exact ⟨fun _ => nofun, fun _ => ⟨none, .neither⟩⟩
    | some b => exact ⟨fun _ => nofun, fun _ => ⟨some b, .right⟩⟩
  | some a =>
    cases y with
    | none => exact ⟨fun _ _ _ => nofun, fun _ => ⟨some a, .left⟩⟩
    | some b =>
      constructor
      · rintro ⟨joined, result⟩ _ ⟨⟩ _ ⟨⟩
        cases result with
        | both made => exact union_ok_iff.mp ⟨_, made⟩
      · intro fit
        obtain ⟨joined, made⟩ := union_ok_iff.mpr (fit a rfl b rfl)
        exact ⟨some joined, .both made⟩

theorem JoinedResult.fit_iff {x y joined z : Option Interval} (result : JoinedResult x y joined) :
    ResultsFit joined z ↔ ResultsFit x z ∧ ResultsFit y z := by
  unfold ResultsFit
  cases result with
  | both made =>
    obtain ⟨first, second⟩ := union_covers made
    simp only [Option.mem_some_iff, forall_eq', ← first.compatible_congr,
      ← second.compatible_congr, and_self]
  | left | right | neither => simp

def StacksFit (left right : OperandStack Interval) : Prop :=
  List.Forall₂ (fun v w => v.kind.compatible w.kind = true) left right

theorem joinedStack_ok_iff {left right : OperandStack Interval} :
    (∃ joined, JoinedStack left right joined) ↔ StacksFit left right := by
  constructor
  · rintro ⟨joined, stack⟩
    induction stack with
    | nil => exact .nil
    | cons made _ ih => exact .cons (union_ok_iff.mp ⟨_, made⟩) ih
  · intro fit
    induction fit with
    | nil => exact ⟨[], .nil⟩
    | cons compatible _ ih =>
      obtain ⟨rest, joined⟩ := ih
      obtain ⟨value, made⟩ := union_ok_iff.mpr compatible
      exact ⟨value :: rest, .cons made joined⟩

theorem JoinedStack.fit_iff {left right joined other : OperandStack Interval}
    (stack : JoinedStack left right joined) :
    StacksFit joined other ↔ StacksFit left other ∧ StacksFit right other := by
  unfold StacksFit
  induction stack generalizing other with
  | nil => simp
  | cons made _ ih =>
    obtain ⟨first, second⟩ := union_covers made
    cases other with
    | nil => simp
    | cons value rest =>
      simp only [List.forall₂_cons, ih, ← first.compatible_congr, ← second.compatible_congr]
      tauto

namespace Frame

def Seeded (frame : Frame Interval) : Prop := ∃ seeds : Seeds, frame.factory = seeds.factory

structure Joinable (a b : Frame Interval) : Prop where
  stack : StacksFit a.stack b.stack
  returnValue : ResultsFit a.returnValue b.returnValue
  thrown : ResultsFit a.thrown b.thrown

section

variable {seeds : Seeds} {a b c joined : Frame Interval}

theorem Joinable.refl (frame : Frame Interval) : Joinable frame frame := by
  have same : ∀ result : Option Interval, ResultsFit result result := by
    rintro result v here w there
    cases Option.mem_unique here there
    exact Kind.compatible_refl v.kind
  exact ⟨List.forall₂_same.mpr fun value _ => Kind.compatible_refl value.kind, same _, same _⟩

theorem Joinable.symm (joinable : Joinable a b) : Joinable b a := by
  refine ⟨(joinable.stack.imp fun _ _ => Kind.compatible_symm).flip, ?_, ?_⟩
  · exact fun v here w there => Kind.compatible_symm (joinable.returnValue w there v here)
  · exact fun v here w there => Kind.compatible_symm (joinable.thrown w there v here)

theorem joinedSlot_ok (seed left right : Option Interval) :
    ∃ joined, JoinedSlot (Seeds.value seed) left right joined := by
  have filled : ∀ only : Interval, ∃ joined, only.union (Seeds.value seed only.kind) = .ok joined :=
    fun only => union_ok_iff.mpr (Kind.compatible_symm (Seeds.kind_value seed only.kind))
  cases left with
  | none =>
    cases right with
    | none => exact ⟨none, .neither⟩
    | some b =>
      obtain ⟨joined, made⟩ := filled b
      exact ⟨some joined, .right made⟩
  | some a =>
    cases right with
    | none =>
      obtain ⟨joined, made⟩ := filled a
      exact ⟨some joined, .left made⟩
    | some b =>
      by_cases compatible : a.kind.compatible b.kind = true
      · obtain ⟨joined, made⟩ := union_ok_iff.mpr compatible
        exact ⟨some joined, .both compatible made⟩
      · exact ⟨none, .clash (Bool.eq_false_iff.mpr compatible)⟩

theorem combine_joinable (made : a.combine b = .ok joined) : Joinable a b := by
  have parts := joined_of_combine made
  exact ⟨joinedStack_ok_iff.mp ⟨_, parts.stack⟩, joinedResult_iff.mp ⟨_, parts.returnValue⟩,
    joinedResult_iff.mp ⟨_, parts.thrown⟩⟩

theorem Joinable.combine_ok (joinable : Joinable a b) (factory : a.factory = seeds.factory) :
    ∃ joined, a.combine b = .ok joined := by
  obtain ⟨stack, madeStack⟩ := joinedStack_ok_iff.mpr joinable.stack
  obtain ⟨returnValue, madeReturn⟩ := joinedResult_iff.mpr joinable.returnValue
  obtain ⟨thrown, madeThrown⟩ := joinedResult_iff.mpr joinable.thrown
  refine Frame.combine_ok madeStack ?_ ?_ ?_ madeReturn madeThrown
  · rw [factory]
    exact fun index => joinedSlot_ok (seeds.locals.get? index) _ _
  · rw [factory]
    exact fun key => joinedSlot_ok (seeds.statics.get? key) _ _
  · rw [factory]
    exact fun key => joinedSlot_ok none _ _

theorem Joined.joinable_iff (parts : Joined a b joined) :
    Joinable joined c ↔ Joinable a c ∧ Joinable b c := by
  constructor
  · rintro ⟨stack, returnValue, thrown⟩
    obtain ⟨stackLeft, stackRight⟩ := parts.stack.fit_iff.mp stack
    obtain ⟨returnLeft, returnRight⟩ := parts.returnValue.fit_iff.mp returnValue
    obtain ⟨thrownLeft, thrownRight⟩ := parts.thrown.fit_iff.mp thrown
    exact ⟨⟨stackLeft, returnLeft, thrownLeft⟩, ⟨stackRight, returnRight, thrownRight⟩⟩
  · rintro ⟨left, right⟩
    exact ⟨parts.stack.fit_iff.mpr ⟨left.stack, right.stack⟩,
      parts.returnValue.fit_iff.mpr ⟨left.returnValue, right.returnValue⟩,
      parts.thrown.fit_iff.mpr ⟨left.thrown, right.thrown⟩⟩

theorem foldlM_combine_joinable {frames : List (Frame Interval)} {first : Frame Interval}
    (folded : frames.foldlM World.combine first = .ok joined) :
    (first :: frames).Pairwise Joinable :=
  pairwise_of_foldlM (fun made => (joined_of_combine made).joinable_iff) combine_joinable folded

theorem foldlM_combine_ok {frames : List (Frame Interval)} {first : Frame Interval}
    (factory : first.factory = seeds.factory) (joinable : (first :: frames).Pairwise Joinable) :
    ∃ joined, frames.foldlM World.combine first = .ok joined := by
  refine foldlM_ok_of_pairwise ?_ (fun frame => frame.factory = seeds.factory) ?_ ?_ factory
    joinable
  · exact fun made => (joined_of_combine made).joinable_iff
  · exact fun factory joins => joins.combine_ok factory
  · exact fun factory made => (joined_of_combine made).factory.trans factory

theorem joinTerminals_joinable {frames : List (Frame Interval)} {result : Option (Frame Interval)}
    (made : joinTerminals frames = .ok result) : frames.Pairwise Joinable := by
  cases frames with
  | nil => exact .nil
  | cons first rest =>
    obtain ⟨joined, folded, _⟩ := map_eq_ok.mp made
    exact foldlM_combine_joinable folded

/-- Frames can be joined if any two of them can. -/
theorem joinTerminals_ok {frames : List (Frame Interval)}
    (seeded : ∀ frame ∈ frames, frame.Seeded) (joinable : frames.Pairwise Joinable) :
    ∃ result, joinTerminals frames = .ok result := by
  cases frames with
  | nil => exact ⟨none, rfl⟩
  | cons first rest =>
    obtain ⟨seeds, factory⟩ := seeded first List.mem_cons_self
    obtain ⟨joined, folded⟩ := foldlM_combine_ok factory joinable
    exact ⟨some joined, map_eq_ok.mpr ⟨joined, folded, rfl⟩⟩

def returned (frames : List (Frame Interval)) : List Interval :=
  frames.flatMap fun frame => frame.returnValue.toList

theorem foldlM_combine_heldJoin {frames : List (Frame Interval)} {first : Frame Interval}
    {ms : List Interval} (held : HeldJoin ms first.returnValue)
    (folded : frames.foldlM World.combine first = .ok joined) :
    HeldJoin (ms ++ returned frames) joined.returnValue := by
  induction frames generalizing first ms with
  | nil =>
    cases folded
    simpa [returned] using held
  | cons frame rest ih =>
    rw [List.foldlM_cons] at folded
    obtain ⟨between, made, folded⟩ := bind_eq_ok.mp folded
    have here := (joined_of_combine made).returnValue.heldJoin held
      (heldJoin_toList frame.returnValue)
    have later := ih here folded
    rwa [List.append_assoc] at later

/-- The joined terminal state returns the join of all values that are returned. -/
theorem joinTerminals_heldJoin {frames : List (Frame Interval)} {result : Option (Frame Interval)}
    (made : joinTerminals frames = .ok result) :
    HeldJoin (returned frames) (result.bind Frame.returnValue) := by
  cases frames with
  | nil =>
    cases made
    rfl
  | cons first rest =>
    obtain ⟨joined, folded, same⟩ := map_eq_ok.mp made
    cases same
    exact foldlM_combine_heldJoin (heldJoin_toList first.returnValue) folded

/-- The join of more frames returns more. -/
theorem joinTerminals_covers {frames more : List (Frame Interval)}
    {result result' : Option (Frame Interval)} (made : joinTerminals frames = .ok result)
    (made' : joinTerminals more = .ok result') (subset : ∀ v ∈ returned frames, v ∈ returned more)
    {value : Interval} (returns : result.bind Frame.returnValue = some value) :
    ∃ value' ∈ result'.bind Frame.returnValue, value'.Covers value := by
  have held := joinTerminals_heldJoin made
  rw [returns] at held
  exact held.covers (joinTerminals_heldJoin made') subset

end

end Frame

end MethodFlow

import MethodFlow.Proofs.Exploration
import MethodFlow.Proofs.Simulation

/-! An exploration over-approximates the runs of the concrete machine. A path is followed along a
run as long as the run takes no conditional branch backward; terminal states that were collected on
the way are kept, so the state in which the run returns is among them and in their join. -/
namespace MethodFlow

namespace Models

variable {exact : Prop} {seeds : Seeds} {machine after : Machine} {frame : Frame Interval}
  {body : MethodBody} {instruction : Instruction} {target : Nat} {returns : List Nat}

theorem forwardBranch_covers {sort : Frame Interval → Prop} {left : Frame Interval}
    (sorted : sort left) {outcome : Bool} (allowed : left.flags.allows outcome = true)
    {taken next : Nat} (reached : target = if outcome then taken else next) :
    (forwardBranch left taken next returns).Covers sort target := by
  unfold forwardBranch
  split
  · refine ⟨sorted, ?_⟩
    cases outcome
    · exact Or.inr reached
    · exact Or.inl reached
  · rename_i oneOutcome
    refine ⟨sorted, ?_⟩
    cases outcome with
    | true =>
      have isTaken : World.shouldTake left = true := allowed
      rw [isTaken, reached]
    | false =>
      have passed : left.flags.passed = true := allowed
      simp only [World.allBranches, passed, Bool.and_true, Bool.or_eq_true, not_or] at oneOutcome
      have notTaken : ¬World.shouldTake left = true := oneOutcome.2
      rw [if_neg notTaken, reached]
      rfl

theorem switchTargets_mem {left : Frame Interval} {offset : Nat} {table : SwitchTable} {value : Int}
    {targets : List Nat} (taken : left.flags.taken = true)
    (listed : left.flags.passed = true ∨ value ∈ left.candidates)
    (found : switchTargets body offset table left = .ok targets)
    (reached : (target : Int) = offset + table.offsetFor value) : target ∈ targets := by
  rw [mem_switchTargets found]
  refine ⟨table.offsetFor value, ?_, reached⟩
  split
  · exact table.offsetFor_mem value
  · rename_i oneByOne
    simp only [World.allBranches, taken, Bool.true_and, Bool.or_eq_true, not_or] at oneByOne
    rcases listed with passed | candidate
    · exact absurd passed oneByOne.2
    · exact List.mem_map_of_mem candidate

/-- Whatever the machine does next, a step that models it goes there too. -/
theorem step_covers (models : Models False seeds machine frame) {move : Move (Frame Interval)}
    (advanced : machine.advance instruction = some (↑target, after))
    (forward : (Visit.mk instruction machine).forward = true)
    (stepped : step body instruction frame returns = .ok move) :
    move.Covers (Models False seeds after) target := by
  cases operation : instruction.operation with
  | nop =>
    simp only [Machine.advance, operation, Option.some.injEq, Prod.mk.injEq] at advanced
    obtain ⟨next, rfl⟩ := advanced
    simp only [step, operation] at stepped
    cases stepped
    exact ⟨models, by omega⟩
  | effect effect =>
    simp only [Machine.advance, operation, Option.map_eq_some_iff, Prod.mk.injEq] at advanced
    obtain ⟨_, performed, next, rfl⟩ := advanced
    obtain ⟨left, yields, modelsLeft⟩ := models.perform performed False.elim
    simp only [step, operation, World.perform, after_eq yields] at stepped
    cases stepped
    exact ⟨modelsLeft, by omega⟩
  | goto relative =>
    simp only [Machine.advance, operation, Option.some.injEq, Prod.mk.injEq] at advanced
    obtain ⟨next, rfl⟩ := advanced
    simp only [step, operation] at stepped
    obtain ⟨place, jumped, same⟩ := bind_eq_ok.mp stepped
    obtain ⟨isPlace, _⟩ := jumpTarget_ok.mp jumped
    cases same
    exact ⟨models, by omega⟩
  | branch test relative =>
    simp only [Machine.advance, operation, Option.map_eq_some_iff, Prod.mk.injEq] at advanced
    obtain ⟨⟨outcome, _⟩, tested, next, rfl⟩ := advanced
    obtain ⟨left, yields, modelsLeft, allowed, _⟩ := models.evaluateBranch tested
    simp only [step, operation, World.evaluateBranch, after_eq yields] at stepped
    obtain ⟨place, jumped, rest⟩ := bind_eq_ok.mp stepped
    obtain ⟨isPlace, _⟩ := jumpTarget_ok.mp jumped
    have ahead : ¬relative ≤ 0 := by simpa [Visit.forward, operation] using forward
    simp only [Bind.bind, Except.bind, ahead, if_false] at rest
    cases rest
    refine forwardBranch_covers modelsLeft allowed ?_
    cases outcome <;> simp at next ⊢ <;> omega
  | switch table =>
    simp only [Machine.advance, operation] at advanced
    split at advanced
    · rename_i selector _ words shape
      simp only [Option.some.injEq, Prod.mk.injEq, ← table.offsetFor_eq] at advanced
      obtain ⟨next, rfl⟩ := advanced
      obtain ⟨left, yields, modelsLeft, taken, listed, _⟩ := models.evaluateSwitch shape
      simp only [step, operation, World.evaluateSwitch, after_eq yields] at stepped
      obtain ⟨_, moved, rest⟩ := bind_eq_ok.mp stepped
      cases moved
      obtain ⟨targets, found, same⟩ := bind_eq_ok.mp rest
      cases same
      exact ⟨modelsLeft, switchTargets_mem taken listed found next.symm⟩
    · cases advanced
  | jsr | ret | terminate | unsupported => simp [Machine.advance, operation] at advanced

end Models

namespace Frame

/-- The frame returns a value of which the word is a member. -/
def Returns (word : Word) (frame : Frame Interval) : Prop :=
  ∃ value, frame.returnValue = some value ∧ value.Has word

def start (seeds : Seeds) (exhaustive looping : Bool) : Frame Interval :=
  { initial seeds.factory with evaluateAll := exhaustive, loopingValid := looping }

theorem joinResult_has {word : Word} {a b joined : Option Interval}
    (made : joinResult a b = .ok joined)
    (has : (∃ value, a = some value ∧ value.Has word) ∨ ∃ value, b = some value ∧ value.Has word) :
    ∃ value, joined = some value ∧ value.Has word := by
  cases a with
  | none =>
    cases b with
    | none => rcases has with ⟨_, none, _⟩ | ⟨_, none, _⟩ <;> cases none
    | some right =>
      cases made
      rcases has with ⟨_, none, _⟩ | has
      · cases none
      · exact has
  | some left =>
    cases b with
    | none =>
      cases made
      rcases has with has | ⟨_, none, _⟩
      · exact has
      · cases none
    | some right =>
      cases unioned : Interval.union left right with
      | error reason =>
        simp only [joinResult, AbstractValue.union, unioned] at made
        cases made
      | ok value =>
        simp only [joinResult, AbstractValue.union, unioned] at made
        cases made
        refine ⟨value, rfl, Interval.has_iff.mpr (Interval.denotes_union unioned ?_)⟩
        rcases has with ⟨_, same, member⟩ | ⟨_, same, member⟩
        · cases same
          exact Or.inl (Interval.has_iff.mp member)
        · cases same
          exact Or.inr (Interval.has_iff.mp member)

theorem combine_returns {word : Word} {a b joined : Frame Interval}
    (made : combine a b = .ok joined) (returns : a.Returns word ∨ b.Returns word) :
    joined.Returns word := by
  unfold combine at made
  split at made
  · split at made
    · rename_i result joinedWith
      cases made
      obtain ⟨_, _, joinedWith⟩ := bind_eq_ok.mp joinedWith
      obtain ⟨_, _, joinedWith⟩ := bind_eq_ok.mp joinedWith
      obtain ⟨_, _, joinedWith⟩ := bind_eq_ok.mp joinedWith
      obtain ⟨_, _, joinedWith⟩ := bind_eq_ok.mp joinedWith
      obtain ⟨value, result, joinedWith⟩ := bind_eq_ok.mp joinedWith
      obtain ⟨_, _, same⟩ := bind_eq_ok.mp joinedWith
      cases same
      exact joinResult_has result returns
    · cases made
  · cases made

theorem foldlM_combine_returns {word : Word} {frames : List (Frame Interval)}
    {first joined : Frame Interval} (made : frames.foldlM World.combine first = .ok joined)
    (returns : first.Returns word ∨ ∃ frame ∈ frames, frame.Returns word) :
    joined.Returns word := by
  induction frames generalizing first with
  | nil =>
    cases made
    rcases returns with returns | ⟨_, none, _⟩
    · exact returns
    · cases none
  | cons frame rest ih =>
    rw [List.foldlM_cons] at made
    obtain ⟨between, combined, others⟩ := bind_eq_ok.mp made
    refine ih others ?_
    rcases returns with returns | ⟨other, member, returns⟩
    · exact Or.inl (combine_returns combined (Or.inl returns))
    · rcases List.mem_cons.mp member with rfl | inRest
      · exact Or.inl (combine_returns combined (Or.inr returns))
      · exact Or.inr ⟨other, inRest, returns⟩

theorem joinTerminals_returns {word : Word} {frames : List (Frame Interval)}
    {joined : Option (Frame Interval)} (made : joinTerminals frames = .ok joined)
    (returns : ∃ frame ∈ frames, frame.Returns word) :
    ∃ frame, joined = some frame ∧ frame.Returns word := by
  obtain ⟨frame, member, returns⟩ := returns
  cases frames with
  | nil => cases member
  | cons first rest =>
    simp only [joinTerminals] at made
    cases folded : rest.foldlM World.combine first with
    | error reason =>
      rw [folded] at made
      cases made
    | ok result =>
      rw [folded] at made
      cases made
      refine ⟨result, rfl, foldlM_combine_returns folded ?_⟩
      rcases List.mem_cons.mp member with rfl | inRest
      · exact Or.inl returns
      · exact Or.inr ⟨frame, inRest, returns⟩

end Frame

theorem Machine.advance_known {machine after : Machine} {instruction : Instruction} {target : Int}
    (advanced : machine.advance instruction = some (target, after)) :
    instruction.operation ≠ .unsupported := by
  intro unknown
  simp [Machine.advance, unknown] at advanced

theorem Machine.returned_known {machine : Machine} {instruction : Instruction} {word : Word}
    (returned : machine.returned instruction = some word) :
    instruction.operation ≠ .unsupported := by
  intro unknown
  simp [Machine.returned, unknown] at returned

theorem Models.step_returns {exact : Prop} {seeds : Seeds} {machine : Machine}
    {frame : Frame Interval} {instruction : Instruction} {word : Word}
    (models : Models exact seeds machine frame)
    (returned : machine.returned instruction = some word) (body : MethodBody) (returns : List Nat) :
    ∃ left value, step body instruction frame returns = .ok (.finish left) ∧
      left.returnValue = some value ∧ Interval.Denotes exact word value := by
  unfold Machine.returned at returned
  split at returned
  · rename_i kind operation
    obtain ⟨left, value, yields, result, denotes⟩ := models.terminate returned
    refine ⟨left, value, ?_, result, denotes⟩
    simp only [step, operation, World.terminate, after_eq yields]
    rfl
  · cases returned

theorem Interval.Denotes.has {exact : Prop} {word : Word} {value : Interval}
    (denotes : Denotes exact word value) : value.Has word := by
  obtain ⟨category, member, _⟩ := denotes
  exact has_iff.mpr (.intro category member False.elim)

/-- A finished exploration from a frame that models the start of a run has collected a state in
which the run returns. -/
theorem explore_returns {body : MethodBody} {offset : Nat} {machine : Machine} {visits : List Visit}
    {word : Word} (run : Run body offset machine visits word)
    (forward : ∀ visit ∈ visits, visit.forward = true) {seeds : Seeds} {frame : Frame Interval}
    (models : Models False seeds machine frame) {fuel : Nat} {ending : PathEnd}
    {explorer left : Explorer (Frame Interval)}
    (finished : Explorer.explore body fuel frame offset explorer = (.finished ending, left)) :
    ∃ terminal ∈ left.findings.terminals.toList, terminal.Returns word := by
  induction run generalizing frame fuel ending explorer left with
  | ends decoded returned =>
    obtain ⟨opcode, known⟩ := MethodBody.decode_known decoded (Machine.returned_known returned)
    cases fuel with
    | zero => cases finished
    | succ fuel =>
      obtain ⟨terminal, value, stepped, result, denotes⟩ :=
        models.step_returns returned body explorer.returns
      rw [Explorer.explore_visit decoded known, stepped] at finished
      cases finished
      refine ⟨terminal, ?_, value, result, denotes.has⟩
      exact Array.mem_toList_iff.mpr (Array.mem_push_self ..)
  | moves decoded advanced rest ih =>
    obtain ⟨opcode, known⟩ := MethodBody.decode_known decoded (Machine.advance_known advanced)
    cases fuel with
    | zero => cases finished
    | succ fuel =>
      rw [Explorer.explore_visit decoded known] at finished
      generalize stepped : step body _ frame explorer.returns = result at finished
      cases result with
      | error reason => cases finished
      | ok move =>
        -- The path that covers the run's next state was explored to its end, and what it collected
        -- is still there.
        have covers := models.step_covers advanced (forward _ List.mem_cons_self) stepped
        obtain ⟨next, start, ending, inner, modelsNext, ran, kept⟩ :=
          Explorer.follow_finished finished covers
        obtain ⟨terminal, member, returns⟩ :=
          ih (fun visit later => forward visit (List.mem_cons_of_mem _ later)) modelsNext ran
        exact ⟨terminal, kept.terminals.subset member, returns⟩

theorem Models.start {seeds : Seeds} {locals : Nat → Option Word} (exhaustive looping : Bool)
    (held : ∀ index word, locals index = some word →
      (seeds.factory.localValue index word.kind).concretize.contains (.int word.value) = true) :
    Models False seeds ⟨[], locals⟩ (Frame.start seeds exhaustive looping) := by
  refine ⟨rfl, .nil, ?_, False.elim⟩
  intro index word present
  exact Interval.has_iff.mp
    ⟨Interval.localValue_compatible seeds index word, held index word present⟩

/-- Whatever integer code runs and whatever its locals are, within what the seeds allow: if the run
returns a word and takes no conditional branch backward, every exploration that ends without an
error has collected a state with the word in its return value, and the joined state has it too. -/
theorem interpret_sound (body : MethodBody) (seeds : Seeds) (exhaustive looping : Bool)
    (config : Config) (fuel : Nat) (locals : Nat → Option Word) (visits : List Visit) (word : Word)
    (exploration : Exploration (Frame Interval))
    (held : ∀ index word, locals index = some word →
      (seeds.factory.localValue index word.kind).concretize.contains (.int word.value) = true)
    (run : Run body 0 ⟨[], locals⟩ visits word) (forward : ∀ visit ∈ visits, visit.forward = true)
    (finished : interpret body config fuel (Frame.start seeds exhaustive looping) =
      .finished exploration) :
    (∃ ending explorer, Explorer.explore body fuel (Frame.start seeds exhaustive looping) 0
        (.new config) = (.finished ending, explorer) ∧
      ∃ terminal ∈ explorer.findings.terminals.toList, terminal.Returns word) ∧
    ∃ world, exploration.world = some world ∧ world.Returns word := by
  unfold interpret Explorer.interpret at finished
  split at finished
  · cases finished
  · cases finished
  · rename_i ending explorer explored
    have returns := explore_returns run forward (Models.start exhaustive looping held) explored
    refine ⟨⟨ending, explorer, explored, returns⟩, ?_⟩
    simp only at finished
    split at finished
    · cases finished
    · rename_i joined made
      cases finished
      exact Frame.joinTerminals_returns made returns

/-- Returns the successor of local 0, negated if it is negative:
`iload_0; iconst_1; iadd; dup; ifge +5; ineg; ireturn; ireturn`. -/
def successorBody : MethodBody :=
  ⟨#[0x1a, 0x04, 0x60, 0x59, 0x9c, 0x00, 0x05, 0x74, 0xac, 0xac], .empty⟩

/-- For the greatest int both the sum and the negation wrap around to the least int, which is not
lost although nothing is known of the local. -/
theorem interpret_sound_wrapped : ∃ exploration world,
    interpret successorBody .default 9 (Frame.start .empty false false) = .finished exploration ∧
      exploration.world = some world ∧ world.Returns (.wrap .int (-2147483648)) := by
  have executed : ∃ visits word, execute successorBody 9 0
      ⟨[], fun index => if index = 0 then some (.wrap .int 2147483647) else none⟩ =
        some (visits, word) ∧ word = .wrap .int (-2147483648) ∧ visits.all Visit.forward = true :=
    ⟨_, _, rfl, by decide, by decide⟩
  obtain ⟨visits, _, ran, rfl, forward⟩ := executed
  have explored : ∃ exploration,
      interpret successorBody .default 9 (Frame.start .empty false false) = .finished exploration :=
    ⟨_, rfl⟩
  obtain ⟨exploration, finished⟩ := explored
  have held : ∀ index word, (if index = 0 then some (Word.wrap .int 2147483647) else none) =
      some word →
        (Seeds.empty.factory.localValue index word.kind).concretize.contains (.int word.value) =
          true := by
    intro index word present
    split at present
    · cases present
      rfl
    · cases present
  obtain ⟨_, world, joined, returns⟩ := interpret_sound successorBody .empty false false .default 9
    _ visits _ exploration held (.of_execute ran) (List.all_eq_true.mp forward) finished
  exact ⟨exploration, world, finished, joined, returns⟩

end MethodFlow

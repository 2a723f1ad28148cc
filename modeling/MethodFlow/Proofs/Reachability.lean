import MethodFlow.Proofs.FrameJoin
import MethodFlow.Proofs.Lockstep
import MethodFlow.Proofs.Simulation

/-! The frames that a machine can get into: from the start of a method, by transitions that succeed
or fail and by joins. What the values of a factory have in common, all values of such frames
have. -/
namespace MethodFlow

inductive Action
  | perform (effect : Effect)
  | evaluateBranch (test : BranchTest)
  | evaluateSwitch
  | enterSubroutine (returnTo : Nat)
  | exitSubroutine (index : Nat)
  | terminate (terminal : Terminal)

def Action.transition {W : Type} [World W] : Action → Transition W Unit
  | perform effect => World.perform effect
  | evaluateBranch test => World.evaluateBranch test
  | evaluateSwitch => World.evaluateSwitch
  | enterSubroutine returnTo => World.enterSubroutine returnTo
  | exitSubroutine index => World.exitSubroutine index
  | terminate terminal => World.terminate terminal

/-- The state an action leaves, whether it succeeds or fails. -/
def Action.left {W : Type} [World W] (action : Action) (state : W) : W :=
  match action.transition.run state with
  | .ok _ left | .error _ left => left

theorem Action.left_of_yields {W : Type} [World W] {action : Action} {state left : W}
    (yields : Yields action.transition state () left) : action.left state = left := by
  unfold Action.left
  rw [yields]

theorem Action.left_of_fails {W : Type} [World W] {action : Action} {state left : W}
    (fails : Fails action.transition state left) : action.left state = left := by
  obtain ⟨error, ran⟩ := fails
  unfold Action.left
  rw [ran]

def Action.Touches : Action → Frame.Part → Prop
  | perform effect, part => effect.Touches part
  | evaluateBranch _, part => part = .flags
  | evaluateSwitch, part => part = .flags ∨ part = .candidates
  | enterSubroutine _, _ | exitSubroutine _, _ => False
  | terminate terminal, part => terminal.Touches part

theorem SortedMap.insert_sort {κ V : Type} [Ord κ] [Std.TransOrd κ] [Std.LawfulEqOrd κ]
    [DecidableEq κ] {P : V → Prop} {map : SortedMap κ V} {key : κ} {value : V}
    (sort : ∀ {key value}, map.get? key = some value → P value) (new : P value) {other : κ}
    {held : V} (found : (map.insert key value).get? other = some held) : P held := by
  rw [get?_insert] at found
  split at found
  · cases found
    exact new
  · exact sort found

variable {V : Type} [AbstractValue V] {factory : ValueFactory V} {P : V → Prop}

theorem JoinedStack.sort (closed : factory.Closed P) {left right joined : OperandStack V}
    (stack : JoinedStack left right joined) (sortLeft : ∀ v ∈ left, P v)
    (sortRight : ∀ v ∈ right, P v) : ∀ v ∈ joined, P v := by
  induction stack with
  | nil => exact nofun
  | cons made _ ih =>
    rw [List.forall_mem_cons] at *
    exact ⟨closed.union sortLeft.1 sortRight.1 made, ih sortLeft.2 sortRight.2⟩

theorem JoinedSlot.sort (closed : factory.Closed P) {absent : Kind → V}
    (sortAbsent : ∀ kind, P (absent kind)) {left right joined : Option V}
    (slot : JoinedSlot absent left right joined) (sortLeft : ∀ {v}, left = some v → P v)
    (sortRight : ∀ {v}, right = some v → P v) {value : V} (found : joined = some value) :
    P value := by
  cases slot with
  | both _ made => cases found; exact closed.union (sortLeft rfl) (sortRight rfl) made
  | left made => cases found; exact closed.union (sortLeft rfl) (sortAbsent _) made
  | right made => cases found; exact closed.union (sortRight rfl) (sortAbsent _) made
  | clash | neither => cases found

theorem JoinedResult.sort (closed : factory.Closed P) {left right joined : Option V}
    (result : JoinedResult left right joined) (sortLeft : ∀ {v}, left = some v → P v)
    (sortRight : ∀ {v}, right = some v → P v) {value : V} (found : joined = some value) :
    P value := by
  cases result with
  | both made => cases found; exact closed.union (sortLeft rfl) (sortRight rfl) made
  | left => exact sortLeft found
  | right => exact sortRight found
  | neither => cases found

theorem Lockstep.left {W : Type} [World W] {R : W → W → Prop} {action : Action}
    (together : Lockstep R (fun _ => True) (action.transition : Transition W Unit)) {a b : W}
    (related : R a b) : R (action.left a) (action.left b) := by
  have ended := together a b related
  unfold Action.left
  generalize action.transition.run a = left, action.transition.run b = right at ended
  cases ended with
  | ok _ related => exact related
  | error related => exact related

namespace Frame

theorem Coupling.action {touches : Part → Prop} {R : Frame V → Frame V → Prop}
    (coupling : Coupling touches factory P R) (closed : factory.Closed P) (action : Action)
    (touched : ∀ part, action.Touches part → touches part) :
    Lockstep R (fun _ => True) (action.transition : Transition (Frame V) Unit) := by
  cases action with
  | perform effect => exact coupling.perform closed effect touched
  | evaluateBranch test => exact coupling.evaluateBranch (touched _ rfl) test
  | evaluateSwitch => exact coupling.evaluateSwitch (touched _ (.inl rfl)) (touched _ (.inr rfl))
  | enterSubroutine returnTo => exact coupling.enterSubroutine closed returnTo
  | exitSubroutine index => exact coupling.exitSubroutine index
  | terminate terminal => exact coupling.terminate terminal touched

structure Untouched (touches : Part → Prop) (before left : Frame V) : Prop where
  factory : left.factory = before.factory
  locals : ¬touches .locals → left.locals = before.locals
  fields : ¬touches .fields → left.fields = before.fields
  statics : ¬touches .statics → left.statics = before.statics
  flags : ¬touches .flags → left.flags = before.flags
  evaluateAll : left.evaluateAll = before.evaluateAll
  loopingValid : left.loopingValid = before.loopingValid
  candidates : ¬touches .candidates → left.candidates = before.candidates
  returnValue : ¬touches .returnValue → left.returnValue = before.returnValue
  thrown : ¬touches .thrown → left.thrown = before.thrown

omit [AbstractValue V] in
theorem Untouched.refl (touches : Part → Prop) (frame : Frame V) :
    Untouched touches frame frame := by
  constructor <;> intros <;> rfl

theorem Untouched.coupling (touches : Part → Prop) (before : Frame V) :
    Coupling touches before.factory (fun _ => True) fun left right =>
      left = right ∧ Untouched touches before left where
  alike := by
    rintro left _ ⟨rfl, kept⟩
    exact ⟨kept.factory, kept.factory, rfl, rfl, rfl, rfl⟩
  holds _ := by constructor <;> intros <;> trivial
  stack := by
    rintro left _ stack ⟨rfl, kept⟩ _
    exact ⟨rfl, { kept with }⟩
  setLocal := by
    rintro left _ index kind touched ⟨rfl, kept⟩ _
    exact ⟨rfl, { kept with locals := absurd touched }⟩
  locals := by
    rintro left _ value index touched ⟨rfl, kept⟩ _
    exact ⟨rfl, { kept with locals := absurd touched }⟩
  fields := by
    rintro left _ value key touched ⟨rfl, kept⟩ _
    exact ⟨rfl, { kept with fields := absurd touched }⟩
  statics := by
    rintro left _ value key touched ⟨rfl, kept⟩ _
    exact ⟨rfl, { kept with statics := absurd touched }⟩
  flags := by
    rintro left _ flags touched ⟨rfl, kept⟩
    exact ⟨rfl, { kept with flags := absurd touched }⟩
  candidates := by
    rintro left _ candidates touched ⟨rfl, kept⟩
    exact ⟨rfl, { kept with candidates := absurd touched }⟩
  returnValue := by
    rintro left _ value touched ⟨rfl, kept⟩ _
    exact ⟨rfl, { kept with returnValue := absurd touched }⟩
  thrown := by
    rintro left _ value touched ⟨rfl, kept⟩ _
    exact ⟨rfl, { kept with thrown := absurd touched }⟩

/-- An action changes nothing but the stack and the parts it touches. -/
theorem untouched (action : Action) (frame : Frame V) :
    Untouched action.Touches frame (action.left frame) := by
  have together := (Untouched.coupling action.Touches frame).action frame.factory.closed_true action
    fun _ touched => touched
  exact (together.left ⟨rfl, .refl _ frame⟩).2

/-- What a machine is permitted to do: the methods it may enter, the actions it may take and the
frames it may join. -/
structure Permit (V : Type) where
  enter (descriptor : MethodDescriptor) (isStatic : Bool) : Prop := True
  step (frame : Frame V) (action : Action) : Prop := True
  join (left right : Frame V) : Prop := True

/-- The frames of a machine over a factory that does what it is permitted. A transition that fails
leaves a frame, too. -/
inductive ReachedBy (permit : Permit V) (factory : ValueFactory V) : Frame V → Prop
  | initial : ReachedBy permit factory (.initial factory)
  | forMethod {descriptor : MethodDescriptor} {isStatic : Bool}
      (entered : permit.enter descriptor isStatic) :
      ReachedBy permit factory (.forMethod factory descriptor isStatic)
  | exhaustive {frame : Frame V} (before : ReachedBy permit factory frame) :
      ReachedBy permit factory frame.exhaustive
  | withLooping {frame : Frame V} (valid : Bool) (before : ReachedBy permit factory frame) :
      ReachedBy permit factory (frame.withLooping valid)
  | step {frame : Frame V} {action : Action} (before : ReachedBy permit factory frame)
      (taken : permit.step frame action) : ReachedBy permit factory (action.left frame)
  | combine {a b joined : Frame V} (left : ReachedBy permit factory a)
      (right : ReachedBy permit factory b) (met : permit.join a b)
      (made : a.combine b = .ok joined) : ReachedBy permit factory joined

abbrev Reachable (factory : ValueFactory V) : Frame V → Prop := ReachedBy {} factory

theorem Reachable.step {frame : Frame V} (action : Action) (before : Reachable factory frame) :
    Reachable factory (action.left frame) := ReachedBy.step before trivial

theorem Reachable.combine {a b joined : Frame V} (left : Reachable factory a)
    (right : Reachable factory b) (made : a.combine b = .ok joined) : Reachable factory joined :=
  ReachedBy.combine left right trivial made

theorem ReachedBy.reachable {permit : Permit V} {frame : Frame V}
    (reached : ReachedBy permit factory frame) : Reachable factory frame := by
  induction reached with
  | initial => exact .initial
  | forMethod _ => exact .forMethod trivial
  | exhaustive _ ih => exact .exhaustive ih
  | withLooping valid _ ih => exact .withLooping valid ih
  | step _ _ ih => exact .step _ ih
  | combine _ _ _ made left right => exact .combine left right made

def Sound (factory : ValueFactory V) (P : V → Prop) (frame : Frame V) : Prop :=
  frame.factory = factory ∧ frame.Holds P

omit [AbstractValue V] in
theorem Holds.setLocal {frame : Frame V} (holds : frame.Holds P) (index : Nat) {value : V}
    (sort : P value) : (frame.setLocal index value).Holds P :=
  { holds with locals := SortedMap.insert_sort holds.locals sort }

theorem Holds.writeLocals {frame : Frame V} (holds : frame.Holds P) (index : Nat) {value : V}
    (sort : P value) :
    ({ frame with locals := Frame.writeLocals index value frame.locals } : Frame V).Holds P := by
  refine { holds with locals := fun {slot other} found => ?_ }
  simp only [get?_writeLocals] at found
  split at found
  · cases found
    exact sort
  · split at found
    · cases found
    · split at found
      · cases found
      · exact holds.locals found

/-- A frame goes in step with itself, so transitions keep the sort of its values. -/
theorem Sound.coupling (closed : factory.Closed P) :
    Coupling (fun _ => True) factory P fun left right =>
      left = right ∧ left.Sound factory P where
  alike := by
    rintro left _ ⟨rfl, made, _⟩
    exact ⟨made, made, rfl, rfl, rfl, rfl⟩
  holds related := related.2.2
  stack := by
    rintro left _ stack ⟨rfl, made, holds⟩ sort
    exact ⟨rfl, made, { holds with stack := sort }⟩
  setLocal := by
    rintro left _ index kind _ ⟨rfl, made, holds⟩ _
    exact ⟨rfl, made, holds.setLocal index (closed.localValue index kind)⟩
  locals := by
    rintro left _ value index _ ⟨rfl, made, holds⟩ sort
    exact ⟨rfl, made, holds.writeLocals index sort⟩
  fields := by
    rintro left _ value key _ ⟨rfl, made, holds⟩ sort
    exact ⟨rfl, made, { holds with fields := SortedMap.insert_sort holds.fields sort }⟩
  statics := by
    rintro left _ value key _ ⟨rfl, made, holds⟩ sort
    exact ⟨rfl, made, { holds with statics := SortedMap.insert_sort holds.statics sort }⟩
  flags := by
    rintro left _ flags _ ⟨rfl, made, holds⟩
    exact ⟨rfl, made, { holds with }⟩
  candidates := by
    rintro left _ candidates _ ⟨rfl, made, holds⟩
    exact ⟨rfl, made, { holds with }⟩
  returnValue := by
    rintro left _ value _ ⟨rfl, made, holds⟩ sort
    exact ⟨rfl, made, { holds with returnValue := fun found => Option.some.inj found ▸ sort }⟩
  thrown := by
    rintro left _ value _ ⟨rfl, made, holds⟩ sort
    exact ⟨rfl, made, { holds with thrown := fun found => Option.some.inj found ▸ sort }⟩

theorem Sound.withParameters (closed : factory.Closed P) {frame : Frame V}
    (sound : frame.Sound factory P) (slot : UInt16) (kinds : List Kind) :
    (frame.withParameters slot kinds).1.Sound factory P := by
  induction kinds generalizing frame slot with
  | nil => exact sound
  | cons kind rest ih =>
    obtain ⟨rfl, holds⟩ := sound
    have kept : (frame.setLocal slot.toNat _).Sound frame.factory P :=
      ⟨rfl, holds.setLocal slot.toNat (closed.localValue slot.toNat kind)⟩
    exact ih kept (slot + UInt16.ofNat kind.slots)

omit [AbstractValue V] in
theorem Sound.initial (factory : ValueFactory V) (P : V → Prop) :
    (Frame.initial factory).Sound factory P := by
  refine ⟨rfl, ?_⟩
  constructor <;> exact nofun

theorem Sound.forMethod (closed : factory.Closed P) (descriptor : MethodDescriptor)
    (isStatic : Bool) : (Frame.forMethod factory descriptor isStatic).Sound factory P := by
  have start := Sound.initial factory P
  cases isStatic with
  | true => exact start.withParameters closed 0 descriptor.parameters
  | false =>
    have receiver := start.2.setLocal 0 (closed.localValue 0 .reference)
    exact Sound.withParameters closed ⟨rfl, receiver⟩ 1 descriptor.parameters

theorem Sound.combine (closed : factory.Closed P) {a b joined : Frame V}
    (left : a.Sound factory P) (right : b.Sound factory P) (made : a.combine b = .ok joined) :
    joined.Sound factory P := by
  obtain ⟨rfl, left⟩ := left
  obtain ⟨_, right⟩ := right
  have parts := joined_of_combine made
  refine ⟨parts.factory, ?_⟩
  exact {
    stack := parts.stack.sort closed left.stack right.stack
    locals := fun {index _} =>
      (parts.locals index).sort closed (closed.localValue index) left.locals right.locals
    fields := fun {key _} =>
      (parts.fields key).sort closed closed.unconstrained left.fields right.fields
    statics := fun {key _} =>
      (parts.statics key).sort closed (closed.staticValue key) left.statics right.statics
    returnValue := parts.returnValue.sort closed left.returnValue right.returnValue
    thrown := parts.thrown.sort closed left.thrown right.thrown }

/-- All values of a frame of a machine are of a sort that operations on values do not leave. -/
theorem ReachedBy.sound (closed : factory.Closed P) {permit : Permit V} {frame : Frame V}
    (reached : ReachedBy permit factory frame) : frame.Sound factory P := by
  induction reached with
  | initial => exact .initial factory P
  | forMethod _ => exact .forMethod closed _ _
  | exhaustive _ ih => exact ⟨ih.1, { ih.2 with }⟩
  | withLooping _ _ ih => exact ⟨ih.1, { ih.2 with }⟩
  | @step _ action _ _ ih =>
    have together := (Sound.coupling closed).action closed action fun _ _ => trivial
    exact (together.left ⟨rfl, ih⟩).2
  | combine _ _ _ made left right => exact left.combine closed right made

theorem ReachedBy.factory_eq {permit : Permit V} {frame : Frame V}
    (reached : ReachedBy permit factory frame) : frame.factory = factory :=
  (reached.sound factory.closed_true).1

def stored (factory : ValueFactory V) (value : V) : Frame V :=
  { initial factory with locals := SortedMap.empty.insert 0 value }

theorem reachable_stored {literal : Literal} {value : V} (kind : Kind)
    (made : literalValue factory literal = .ok value)
    (category : HasKind.category value = kind.category) :
    Reachable factory (stored factory value) := by
  have pushed : Yields (perform (.push literal)) (initial factory) ()
      { initial factory with stack := [value] } := by
    refine (Yields.get _).bind ?_
    exact (compute_yields _ made).bind (push_yields _ value)
  have written : Yields (perform (.store kind 0)) { initial factory with stack := [value] } ()
      (stored factory value) := by
    refine (pop_yields rfl).bind ?_
    refine (checkCategory_yields _ "store" category).bind ?_
    have locals : writeLocals 0 value .empty = SortedMap.empty.insert 0 value := by
      unfold writeLocals
      split <;> rfl
    simp only [stored, ← locals]
    rfl
  have after : Action.left (.perform (.push literal)) (initial factory) = _ :=
    Action.left_of_yields pushed
  have final : Action.left (.perform (.store kind 0)) _ = stored factory value :=
    Action.left_of_yields written
  rw [← final, ← after]
  exact .step _ (.step _ .initial)

end Frame

end MethodFlow

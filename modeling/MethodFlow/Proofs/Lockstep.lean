import Mathlib.Data.List.Forall2
import MethodFlow.Frame.Join
import MethodFlow.Proofs.Failure
import MethodFlow.Proofs.SortedContainers
import MethodFlow.Proofs.StackShuffles

/-! Transitions on two frames at once. If two frames differ only in what no transition looks at, and
their values are of a sort that the operations on values stay in, then a transition goes the same
way on both, and leaves them so. Taken with itself, a frame gives invariants. -/
namespace MethodFlow

section Transitions

variable {W α β : Type} {R : W → W → Prop} {S : α → Prop} {T : β → Prop}

/-- Both ways end with the same result or the same error, in related states. -/
inductive Ends (R : W → W → Prop) (S : α → Prop) :
    EStateM.Result WorldError W α → EStateM.Result WorldError W α → Prop
  | ok {result : α} {left right : W} (holds : S result) (related : R left right) :
      Ends R S (.ok result left) (.ok result right)
  | error {error : WorldError} {left right : W} (related : R left right) :
      Ends R S (.error error left) (.error error right)

/-- From related states a transition takes the same way to related states. -/
def Lockstep (R : W → W → Prop) (S : α → Prop) (transition : Transition W α) : Prop :=
  ∀ left right, R left right → Ends R S (transition.run left) (transition.run right)

namespace Lockstep

theorem pure {result : α} (holds : S result) : Lockstep R S (Pure.pure result) :=
  fun _ _ related => .ok holds related

theorem throw (error : WorldError) : Lockstep R S (MonadExcept.throw error) :=
  fun _ _ related => .error related

theorem bind {transition : Transition W α} {next : α → Transition W β}
    (first : Lockstep R S transition) (second : ∀ result, S result → Lockstep R T (next result)) :
    Lockstep R T (transition >>= next) := by
  intro left right related
  have ended := first left right related
  rw [EStateM.run_bind, EStateM.run_bind]
  generalize transition.run left = ran, transition.run right = ran' at ended
  cases ended with
  | ok holds related => exact second _ holds _ _ related
  | error related => exact .error related

theorem get {next : W → Transition W β}
    (each : ∀ left right, R left right → Ends R T ((next left).run left) ((next right).run right)) :
    Lockstep R T (MonadState.get >>= next) := each

theorem modify {change : W → W}
    (kept : ∀ left right, R left right → R (change left) (change right)) :
    Lockstep R (fun _ => True) (modifyThe W change : Transition W Unit) :=
  fun left right related => .ok trivial (kept left right related)

end Lockstep

end Transitions

variable {V : Type} [AbstractValue V]

open AbstractValue

/-! ## Values and frames -/

/-- Values of one sort: the factory makes no others, and operations on such values give such
values. -/
structure ValueFactory.Closed (factory : ValueFactory V) (P : V → Prop) : Prop where
  null : P factory.null
  int (value : Int32) : P (factory.int value)
  long (value : Int64) : P (factory.long value)
  float (value : Float32) : P (factory.float value)
  double (value : Float) : P (factory.double value)
  short (value : Int16) : P (factory.short value)
  string (text : String) : P (factory.string text)
  returnAddress (target : Nat) : P (factory.returnAddress target)
  unconstrained (kind : Kind) : P (factory.unconstrained kind)
  localValue (index : Nat) (kind : Kind) : P (factory.localValue index kind)
  staticValue (key : String) (kind : Kind) : P (factory.staticValue key kind)
  union {a b c : V} : P a → P b → union a b = .ok c → P c
  arithmetic {op : ArithmeticOp} {kind : NumericKind} {a b c : V} :
    P a → P b → arithmetic op kind a b = .ok c → P c
  negate {kind : NumericKind} {a b : V} : P a → negate kind a = .ok b → P b
  convert {conversion : Conversion} {a b : V} : P a → convert conversion a = .ok b → P b
  compare {comparison : Comparison} {a b c : V} : P a → P b → compare comparison a b = .ok c → P c
  loadFromArray {array index value : V} {element : Kind} :
    P array → P index → loadFromArray array index element = .ok value → P value

theorem ValueFactory.closed_true (factory : ValueFactory V) : factory.Closed fun _ => True := by
  constructor <;> intros <;> trivial

theorem ValueFactory.Closed.literal {factory : ValueFactory V} {P : V → Prop}
    (closed : factory.Closed P) {literal : Literal} {value : V}
    (made : Frame.literalValue factory literal = .ok value) : P value := by
  cases literal with
  | null => cases made; exact closed.null
  | int value => cases made; exact closed.int value
  | short value => cases made; exact closed.short value
  | long value => cases made; exact closed.long value
  | float value => cases made; exact closed.float value
  | double value => cases made; exact closed.double value
  | pooled constant wide =>
    cases wide with
    | false =>
      cases constant with
      | integer value => cases made; exact closed.int value
      | float value => cases made; exact closed.float value
      | string text => cases made; exact closed.string text
      | classRef name => cases made; exact closed.unconstrained .reference
      | _ => cases made
    | true =>
      cases constant with
      | long value => cases made; exact closed.long value
      | double value => cases made; exact closed.double value
      | _ => cases made

inductive Frame.Part
  | locals
  | fields
  | statics
  | flags
  | candidates
  | returnValue
  | thrown

def Effect.Touches : Effect → Frame.Part → Prop
  | load _ _, part | store _ _, part | increment _ _, part => part = .locals
  | getStatic _, part | putStatic _, part => part = .statics
  | getField _, part | putField _, part => part = .fields
  | _, _ => False

def Terminal.Touches : Terminal → Frame.Part → Prop
  | value _, part => part = .returnValue
  | void, _ => False
  | throw, part => part = .thrown

namespace Frame

structure Alike (factory : ValueFactory V) (left right : Frame V) : Prop where
  factory_left : left.factory = factory
  factory_right : right.factory = factory
  stack : left.stack = right.stack
  locals : left.locals = right.locals
  fields : left.fields = right.fields
  statics : left.statics = right.statics

structure Holds (P : V → Prop) (frame : Frame V) : Prop where
  stack : ∀ value ∈ frame.stack, P value
  locals {index : Nat} {value : V} : frame.locals.get? index = some value → P value
  fields {key : String} {value : V} : frame.fields.get? key = some value → P value
  statics {key : String} {value : V} : frame.statics.get? key = some value → P value
  returnValue {value : V} : frame.returnValue = some value → P value
  thrown {value : V} : frame.thrown = some value → P value

/-- A relation that is kept by transitions which change, beside the stack, the touched parts only:
related frames hold the same values, and it is left by none of the changes that such a transition
makes to both frames. -/
structure Coupling (touches : Part → Prop) (factory : ValueFactory V) (P : V → Prop)
    (R : Frame V → Frame V → Prop) : Prop where
  alike {left right : Frame V} : R left right → Alike factory left right
  holds {left right : Frame V} : R left right → Holds P left
  stack {left right : Frame V} {stack : OperandStack V} : R left right → (∀ v ∈ stack, P v) →
    R { left with stack := stack } { right with stack := stack }
  setLocal {left right : Frame V} {index : Nat} (kind : Kind) : touches .locals → R left right →
    left.locals.get? index = none →
    R (left.setLocal index (factory.localValue index kind))
      (right.setLocal index (factory.localValue index kind))
  locals {left right : Frame V} {value : V} (index : Nat) : touches .locals → R left right →
    P value →
    R { left with locals := writeLocals index value left.locals }
      { right with locals := writeLocals index value right.locals }
  fields {left right : Frame V} {value : V} (key : String) : touches .fields → R left right →
    P value →
    R { left with fields := left.fields.insert key value }
      { right with fields := right.fields.insert key value }
  statics {left right : Frame V} {value : V} (key : String) : touches .statics → R left right →
    P value →
    R { left with statics := left.statics.insert key value }
      { right with statics := right.statics.insert key value }
  flags {left right : Frame V} (flags : BranchFlags) : touches .flags → R left right →
    R { left with flags := flags } { right with flags := flags }
  candidates {left right : Frame V} (candidates : List Int) : touches .candidates → R left right →
    R { left with candidates := candidates } { right with candidates := candidates }
  returnValue {left right : Frame V} {value : V} : touches .returnValue → R left right → P value →
    R { left with returnValue := some value } { right with returnValue := some value }
  thrown {left right : Frame V} {value : V} : touches .thrown → R left right → P value →
    R { left with thrown := some value } { right with thrown := some value }

variable {factory : ValueFactory V} {P : V → Prop} {R : Frame V → Frame V → Prop}

/-! ## Transitions that keep a coupling -/

omit [AbstractValue V] in
theorem compute_lockstep {α : Type} {S : α → Prop} {result : Except ValueError α}
    (each : ∀ value, result = .ok value → S value) :
    Lockstep R S (compute result : Transition (Frame V) α) := by
  cases result with
  | ok value => exact .pure (each value rfl)
  | error error => exact .throw (.value error)

theorem checkCategory_lockstep (operation : String) (expected : Kind) (value : V) :
    Lockstep R (fun _ => True) (checkCategory operation expected value) := by
  unfold checkCategory
  split
  · exact .pure trivial
  · exact .throw _

namespace Coupling

variable {touches : Part → Prop} (coupling : Coupling touches factory P R)

include coupling

theorem onStack {α : Type} {S : α → Prop} {T : α → α → Prop} {action : StackAction V α}
    (kept : OperandStack.Alike (fun v w => v = w ∧ P v) T action action)
    (answers : ∀ answer, T answer answer → S answer) : Lockstep R S (Frame.onStack action) := by
  apply Lockstep.get
  intro left right related
  have values := (coupling.holds related).stack
  have ended := kept left.stack left.stack
    (List.forall₂_same.mpr fun v member => ⟨rfl, values v member⟩)
  rw [← (coupling.alike related).stack]
  cases ran : action.run left.stack with
  | ok answer stack =>
    rw [ran] at ended
    cases ended with
    | ok same sorted =>
      exact .ok (answers answer same) (coupling.stack related fun v member =>
        (List.forall₂_same.mp sorted v member).2)
  | error error stack =>
    rw [ran] at ended
    cases ended with
    | error _ sorted =>
      exact .error (coupling.stack related fun v member =>
        (List.forall₂_same.mp sorted v member).2)

theorem push {value : V} (holds : P value) : Lockstep R (fun _ => True) (Frame.push value) :=
  coupling.onStack (.push ⟨rfl, holds⟩) fun _ _ => trivial

theorem pop : Lockstep R P Frame.pop := coupling.onStack .pop fun _ => And.right

theorem made {α : Type} {T : α → Prop} (next : ValueFactory V → Transition (Frame V) α)
    (each : Lockstep R T (next factory)) :
    Lockstep R T (do next (← get).factory) := by
  apply Lockstep.get
  intro left right related
  rw [(coupling.alike related).factory_left, (coupling.alike related).factory_right]
  exact each left right related

theorem readLocal (closed : factory.Closed P) (touched : touches .locals) (index : Nat)
    (kind : Kind) : Lockstep R P (Frame.readLocal index kind) := by
  apply Lockstep.get
  intro left right related
  have alike := coupling.alike related
  rw [alike.factory_left, alike.factory_right, ← alike.locals]
  cases found : left.locals.get? index with
  | some value =>
    have holds := (coupling.holds related).locals found
    exact (checkCategory_lockstep "load" kind value).bind (fun _ _ => .pure holds) left right
      related
  | none => exact .ok (closed.localValue index kind) (coupling.setLocal kind touched related found)

theorem writeLocal (touched : touches .locals) (index : Nat) {value : V} (holds : P value) :
    Lockstep R (fun _ => True) (Frame.writeLocal index value) :=
  .modify fun _ _ related => coupling.locals index touched related holds

theorem popArguments (kinds : List Kind) :
    Lockstep R (fun _ => True) (Frame.popArguments kinds) := by
  induction kinds with
  | nil => exact .pure trivial
  | cons kind rest ih =>
    refine .bind coupling.pop fun value _ => ?_
    exact .bind (checkCategory_lockstep "invoke" kind value) fun _ _ => ih

theorem readStatic (closed : factory.Closed P) (touched : touches .statics) (access : FieldAccess) :
    Lockstep R P (Frame.readStatic access) := by
  apply Lockstep.get
  intro left right related
  have alike := coupling.alike related
  have holds := closed.staticValue access.field.identity access.kind
  have kept := coupling.statics access.field.identity touched related holds
  rw [← alike.statics]
  dsimp only
  cases found : left.statics.get? access.field.identity with
  | some value => exact .ok ((coupling.holds related).statics found) related
  | none =>
    obtain rfl := alike.factory_left
    have same : right.factory.staticValue = left.factory.staticValue := by rw [alike.factory_right]
    rw [← alike.statics] at kept
    simp only [same]
    exact .ok holds kept

theorem readField (closed : factory.Closed P) (touched : touches .fields) (access : FieldAccess) :
    Lockstep R P (Frame.readField access) := by
  apply Lockstep.get
  intro left right related
  have alike := coupling.alike related
  have holds := closed.unconstrained access.kind
  have kept := coupling.fields access.field.identity touched related holds
  rw [← alike.fields]
  dsimp only
  cases found : left.fields.get? access.field.identity with
  | some value => exact .ok ((coupling.holds related).fields found) related
  | none =>
    obtain rfl := alike.factory_left
    have same : right.factory.unconstrained = left.factory.unconstrained := by
      rw [alike.factory_right]
    rw [← alike.fields] at kept
    simp only [same]
    exact .ok holds kept

theorem pushUnconstrained (closed : factory.Closed P) (kind : Kind) :
    Lockstep R (fun _ => True) (Frame.pushUnconstrained kind : Transition (Frame V) Unit) :=
  coupling.made (fun factory => Frame.push (factory.unconstrained kind))
    (coupling.push (closed.unconstrained kind))

theorem allocate (closed : factory.Closed P) (allocation : Allocation) :
    Lockstep R (fun _ => True) (Frame.allocate allocation : Transition (Frame V) Unit) :=
  .bind (coupling.onStack (.popMany _ _) fun _ _ => trivial) fun _ _ =>
    coupling.pushUnconstrained closed .reference

theorem shuffle (op : StackOp) :
    Lockstep R (fun _ => True) (Frame.shuffle op : Transition (Frame V) Unit) := by
  refine coupling.onStack (.apply ?_ op) fun _ _ => trivial
  rintro v _ ⟨rfl, _⟩
  rfl

theorem pushComputed {result : Except ValueError V} (each : ∀ value, result = .ok value → P value) :
    Lockstep R (fun _ => True) (do Frame.push (← compute result)) :=
  .bind (compute_lockstep each) fun _ => coupling.push

theorem replaceOne {operation : V → Except ValueError V}
    (each : ∀ {operand result}, P operand → operation operand = .ok result → P result) :
    Lockstep R (fun _ => True) (do
      let operand ← Frame.pop
      Frame.push (← compute (operation operand))) := by
  refine .bind coupling.pop fun operand holds => ?_
  exact coupling.pushComputed fun _ => each holds

theorem replaceTwo {operation : V → V → Except ValueError V}
    (each : ∀ {left right result}, P left → P right → operation left right = .ok result →
      P result) :
    Lockstep R (fun _ => True) (do
      let right ← Frame.pop
      let left ← Frame.pop
      Frame.push (← compute (operation left right))) := by
  refine .bind coupling.pop fun right holdsRight => ?_
  refine .bind coupling.pop fun left holdsLeft => ?_
  exact coupling.pushComputed fun _ => each holdsLeft holdsRight

theorem invoke (closed : factory.Closed P) (kind : InvokeKind) (method : MemberRef)
    (descriptor : MethodDescriptor) :
    Lockstep R (fun _ => True)
      (Frame.perform (.invoke kind method descriptor) : Transition (Frame V) Unit) := by
  refine .bind (coupling.popArguments _) fun _ _ => ?_
  cases descriptor.returns with
  | none =>
    cases kind.hasReceiver with
    | false => exact .pure trivial
    | true => exact .bind coupling.pop fun _ _ => .pure trivial
  | some result =>
    have returned := coupling.pushUnconstrained closed result
    cases kind.hasReceiver with
    | false => exact returned
    | true => exact .bind coupling.pop fun _ _ => returned

theorem perform (closed : factory.Closed P) (effect : Effect)
    (touched : ∀ part, effect.Touches part → touches part) :
    Lockstep R (fun _ => True) (Frame.perform effect : Transition (Frame V) Unit) := by
  cases effect with
  | push literal =>
    exact coupling.made (fun factory => do Frame.push (← compute (literalValue factory literal)))
      (coupling.pushComputed fun _ => closed.literal)
  | load kind index =>
    exact .bind (coupling.readLocal closed (touched _ rfl) index kind) fun _ => coupling.push
  | store kind index =>
    refine .bind coupling.pop fun value holds => ?_
    refine .bind (checkCategory_lockstep "store" kind value) fun _ _ => ?_
    exact coupling.writeLocal (touched _ rfl) index holds
  | increment index delta =>
    refine .bind (coupling.readLocal closed (touched _ rfl) index .int) fun current holds => ?_
    refine coupling.made (fun factory => do
      Frame.writeLocal index (← compute (arithmetic .add .int current (factory.int delta)))) ?_
    refine .bind (compute_lockstep fun _ => closed.arithmetic holds (closed.int delta)) ?_
    exact fun _ => coupling.writeLocal (touched _ rfl) index
  | loadArray element => exact coupling.replaceTwo closed.loadFromArray
  | storeArray =>
    refine .bind coupling.pop fun value _ => ?_
    refine .bind coupling.pop fun index _ => ?_
    refine .bind coupling.pop fun array _ => ?_
    exact compute_lockstep fun _ _ => trivial
  | shuffle op => exact coupling.shuffle op
  | arithmetic op kind => exact coupling.replaceTwo closed.arithmetic
  | negate kind => exact coupling.replaceOne closed.negate
  | convert conversion => exact coupling.replaceOne closed.convert
  | compare comparison => exact coupling.replaceTwo closed.compare
  | getStatic access =>
    exact .bind (coupling.readStatic closed (touched _ rfl) access) fun _ => coupling.push
  | putStatic access =>
    refine .bind coupling.pop fun value holds => ?_
    exact .modify fun _ _ related => coupling.statics _ (touched _ rfl) related holds
  | getField access =>
    refine .bind coupling.pop fun _ _ => ?_
    exact .bind (coupling.readField closed (touched _ rfl) access) fun _ => coupling.push
  | putField access =>
    refine .bind coupling.pop fun value holds => ?_
    refine .bind coupling.pop fun _ _ => ?_
    exact .modify fun _ _ related => coupling.fields _ (touched _ rfl) related holds
  | invoke kind method descriptor => exact coupling.invoke closed kind method descriptor
  | allocate allocation => exact coupling.allocate closed allocation
  | arrayLength =>
    refine .bind coupling.pop fun _ _ => ?_
    exact coupling.pushUnconstrained closed .int
  | typeCheck check =>
    cases check with
    | cast => exact .bind coupling.pop fun _ => coupling.push
    | instanceOf =>
      refine .bind coupling.pop fun _ _ => ?_
      exact coupling.made (fun factory => do
        Frame.push (← compute (union (factory.int 0) (factory.int 1))))
        (coupling.pushComputed fun _ => closed.union (closed.int 0) (closed.int 1))
  | monitor => exact .bind coupling.pop fun _ _ => .pure trivial

theorem setFlags (touched : touches .flags) {result : Except ValueError BranchFlags} :
    Lockstep R (fun _ => True) (do Frame.setFlags (← compute result) : Transition (Frame V) Unit) :=
  .bind (compute_lockstep fun _ _ => trivial) fun flags _ =>
    .modify fun _ _ related => coupling.flags flags touched related

theorem evaluateBranch (touched : touches .flags) (test : BranchTest) :
    Lockstep R (fun _ => True) (Frame.evaluateBranch test : Transition (Frame V) Unit) := by
  cases test with
  | zero condition =>
    refine .bind coupling.pop fun value _ => ?_
    exact coupling.made (fun factory => do
      Frame.setFlags (← compute (Feasibility.againstZero (factory.int 0) condition value)))
      (coupling.setFlags touched)
  | intCompare | refCompare =>
    refine .bind coupling.pop fun right _ => ?_
    exact .bind coupling.pop fun left _ => coupling.setFlags touched
  | null isNull =>
    refine .bind coupling.pop fun value _ => ?_
    exact coupling.made (fun factory => do
      Frame.setFlags (← compute (Feasibility.againstValue isNull value factory.null)))
      (coupling.setFlags touched)

theorem evaluateSwitch (flags : touches .flags) (listed : touches .candidates) :
    Lockstep R (fun _ => True) (Frame.evaluateSwitch : Transition (Frame V) Unit) := by
  refine .bind coupling.pop fun selector _ => ?_
  cases (concretize selector).integers? maxCandidates with
  | some candidates =>
    exact .modify fun _ _ related =>
      coupling.flags _ flags (coupling.candidates candidates listed related)
  | none =>
    exact .modify fun _ _ related => coupling.flags _ flags (coupling.candidates [] listed related)

theorem enterSubroutine (closed : factory.Closed P) (returnTo : Nat) :
    Lockstep R (fun _ => True) (Frame.enterSubroutine returnTo : Transition (Frame V) Unit) :=
  coupling.made (fun factory => Frame.push (factory.returnAddress returnTo))
    (coupling.push (closed.returnAddress returnTo))

theorem exitSubroutine (index : Nat) :
    Lockstep R (fun _ => True) (Frame.exitSubroutine index : Transition (Frame V) Unit) := by
  apply Lockstep.get
  intro left right related
  rw [← (coupling.alike related).locals]
  cases left.locals.get? index with
  | none => exact .ok trivial related
  | some value =>
    by_cases address : HasKind.kind value = .returnAddress
    · simp only [if_pos address]
      exact .ok trivial related
    · simp only [if_neg address]
      exact .error related

theorem clearStack : Lockstep R (fun _ => True) (Frame.clearStack : Transition (Frame V) Unit) :=
  .modify fun _ _ related => coupling.stack related nofun

theorem terminate (terminal : Terminal) (touched : ∀ part, terminal.Touches part → touches part) :
    Lockstep R (fun _ => True) (Frame.terminate terminal : Transition (Frame V) Unit) := by
  cases terminal with
  | value kind =>
    refine .bind coupling.pop fun value holds => ?_
    refine .bind (checkCategory_lockstep "return" kind value) fun _ _ => ?_
    refine .bind (.modify fun _ _ related => ?_) fun _ _ => coupling.clearStack
    exact coupling.returnValue (touched _ rfl) related holds
  | void => exact coupling.clearStack
  | throw =>
    refine .bind coupling.pop fun value holds => ?_
    refine .bind (.modify fun _ _ related => ?_) fun _ _ => coupling.clearStack
    exact coupling.thrown (touched _ rfl) related holds

end Coupling

end Frame

end MethodFlow

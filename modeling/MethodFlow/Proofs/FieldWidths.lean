import MethodFlow.Proofs.Decoding
import MethodFlow.Proofs.Exploration
import MethodFlow.Proofs.JoinCovers
import MethodFlow.Proofs.Reachability

/-! The width of values that are read from fields. Fields are told apart by a text that ends in
their descriptor, so fields of one identity are of one kind. First reads and joins respect that
kind. Writes do not look at it: a value of the other width is stored as it is and read back, and
this is the only way in which a read can give a value of another width than its field has. -/
namespace MethodFlow

/-! ## Fields and their descriptors -/

section Descriptors

variable {chars others between front ahead : List Char} {kind other : Kind}

theorem fieldKind_eq_ok {text : String} :
    fieldKind text = .ok kind ↔ splitType text.toList = some (kind, []) := by
  unfold fieldKind wholeType
  generalize splitType text.toList = split
  rcases split with _ | ⟨_, _ | _⟩ <;> simp

/-- A type that ends in a semicolon is a class or an array of it, and only there is a colon. -/
theorem splitType_last (split : splitType chars = some (kind, [])) :
    (chars.getLast? = some ';' → kind = .reference) ∧
      (':' ∈ chars → chars.getLast? = some ';') := by
  fun_induction splitType chars generalizing kind with
  | case9 tail name more after dropped =>
    cases split
    have ends : ∃ front, tail = front ++ [';'] :=
      ⟨_, by rw [← dropped, List.takeWhile_append_dropWhile]⟩
    obtain ⟨front, rfl⟩ := ends
    exact ⟨fun _ => rfl, fun _ => by simp [List.getLast?_cons]⟩
  | case11 tail inner after found ih =>
    cases split
    refine ⟨fun _ => rfl, fun colon => ?_⟩
    have last := (ih found).2 (by simpa using colon)
    simp [List.getLast?_cons, last]
  | _ => simp_all

theorem kind_eq_of_suffix (split : splitType chars = some (kind, []))
    (splitOther : splitType others = some (other, []))
    (same : ':' :: chars = between ++ ':' :: others) : kind = other := by
  cases between with
  | nil =>
    cases same
    exact congrArg Prod.fst (Option.some.inj (split.symm.trans splitOther))
  | cons first between =>
    -- the longer type holds the colon before the shorter one, so both end in a semicolon
    have longer : chars = between ++ ':' :: others := (List.cons.inj same).2
    have last := (splitType_last split).2 (by simp [longer])
    refine ((splitType_last split).1 last).trans ((splitType_last splitOther).1 ?_).symm
    cases others with
    | nil => cases splitOther
    | cons next rest => simpa [longer, List.getLast?_cons] using last

theorem kind_eq_of_append (split : splitType chars = some (kind, []))
    (splitOther : splitType others = some (other, []))
    (same : front ++ ':' :: chars = ahead ++ ':' :: others) : kind = other := by
  rcases List.append_eq_append_iff.mp same with ⟨between, _, rest⟩ | ⟨between, _, rest⟩
  · exact kind_eq_of_suffix split splitOther rest
  · exact (kind_eq_of_suffix splitOther split rest).symm

end Descriptors

/-- The access has the kind that the descriptor of its field states. -/
def FieldAccess.Declared (access : FieldAccess) : Prop :=
  fieldKind access.field.descriptor = .ok access.kind

instance (access : FieldAccess) : Decidable access.Declared :=
  inferInstanceAs (Decidable (fieldKind access.field.descriptor = .ok access.kind))

/-- Fields of one identity are of one kind. Their descriptors may still differ, if a class is named
with a colon. -/
theorem FieldAccess.kind_eq {a b : FieldAccess} (left : a.Declared) (right : b.Declared)
    (same : a.field.identity = b.field.identity) : a.kind = b.kind := by
  have ends : ∀ field : MemberRef, ∃ front,
      field.identity.toList = front ++ ':' :: field.descriptor.toList := by
    intro field
    exact ⟨(field.owner ++ "/" ++ field.name).toList, by simp [MemberRef.identity]⟩
  obtain ⟨front, endsLeft⟩ := ends a.field
  obtain ⟨ahead, endsRight⟩ := ends b.field
  have texts := congrArg String.toList same
  rw [endsLeft, endsRight] at texts
  exact kind_eq_of_append (fieldKind_eq_ok.mp left) (fieldKind_eq_ok.mp right) texts

section Slots

variable {slots : SortedMap String Interval} {access : FieldAccess}

def SlotsFit (slots : SortedMap String Interval) : Prop :=
  ∀ access value, FieldAccess.Declared access → slots.get? access.field.identity = some value →
    HasKind.category value = access.kind.category

theorem slotsFit_empty : SlotsFit .empty := by
  intro access value _ found
  cases found

theorem slotsFit_insert_iff (fit : SlotsFit slots) (declared : access.Declared) (value : Interval) :
    SlotsFit (slots.insert access.field.identity value) ↔
      HasKind.category value = access.kind.category := by
  constructor
  · intro after
    exact after access value declared (by simp)
  · intro category other held declaredOther found
    rw [SortedMap.get?_insert] at found
    split at found
    · rename_i same
      cases found
      rw [category, FieldAccess.kind_eq declaredOther declared same]
    · exact fit other held declaredOther found

theorem SlotsFit.join {absent : String → Kind → Interval}
    {left right joined : SortedMap String Interval} (fitLeft : SlotsFit left)
    (fitRight : SlotsFit right)
    (slots : ∀ key, JoinedSlot (absent key) (left.get? key) (right.get? key) (joined.get? key)) :
    SlotsFit joined := by
  intro access value declared found
  have slot := slots access.field.identity
  rw [found] at slot
  generalize heldLeft : left.get? access.field.identity = x,
    heldRight : right.get? access.field.identity = y at slot
  cases slot with
  | both _ made | left made =>
    exact (Interval.category_union made).1.trans (fitLeft access _ declared heldLeft)
  | right made =>
    exact (Interval.category_union made).1.trans (fitRight access _ declared heldRight)

end Slots

/-! ## Declared accesses -/

def Effect.Declared : Effect → Prop
  | .getStatic access | .putStatic access | .getField access | .putField access => access.Declared
  | _ => True

def Action.Declared : Action → Prop
  | .perform effect => effect.Declared
  | _ => True

/-- Instructions that are laid out so have declared effects, if the fields they name are accessed as
declared. -/
def Layout.Declares : Layout → Prop
  | .plain (.effect effect) => effect.Declared
  | .field effect => ∀ access, FieldAccess.Declared access → (effect access).Declared
  | .classOperand effect => ∀ name, (effect name).Declared
  | _ => True

theorem Opcode.layout_declares (opcode : Opcode) : opcode.layout.Declares := by
  cases opcode <;> first | trivial | exact fun _ => id | exact fun _ => trivial

theorem Layout.Reads.declared {layout : Layout} {effect : Effect}
    (reads : layout.Reads (.effect effect)) (declares : layout.Declares) : effect.Declared := by
  cases reads with
  | plain => exact declares
  | field stated => exact declares _ stated
  | classOperand => exact declares _
  | _ => trivial

theorem MethodBody.decode_declared {body : MethodBody} {offset : Nat} {instruction : Instruction}
    {effect : Effect} (decoded : body.decode offset = .ok instruction)
    (operation : instruction.operation = .effect effect) : effect.Declared := by
  obtain ⟨opcode, known⟩ := decode_known decoded (by rw [operation]; exact nofun)
  have reads := decode_reads decoded known
  rw [operation] at reads
  exact reads.declared opcode.layout_declares

/-- The action stores a value whose width is not that of the field. -/
def Action.Misfits (frame : Frame Interval) : Action → Prop
  | .perform (.putStatic access) =>
    ∃ value rest, frame.stack = value :: rest ∧ HasKind.category value ≠ access.kind.category
  | .perform (.putField access) =>
    ∃ value receiver rest, frame.stack = value :: receiver :: rest ∧
      HasKind.category value ≠ access.kind.category
  | _ => False

/-! ## Reads and writes -/

namespace Frame

section Reads

variable {V : Type} {frame : Frame V} {value : V} {access : FieldAccess}

theorem readStatic_yields (held : frame.statics.get? access.field.identity = some value) :
    Yields (readStatic access) frame value frame := by
  refine (Yields.get frame).bind ?_
  simp only [held]
  rfl

theorem readStatic_fills (absent : frame.statics.get? access.field.identity = none) :
    let value := frame.factory.staticValue access.field.identity access.kind
    Yields (readStatic access) frame value
      { frame with statics := frame.statics.insert access.field.identity value } := by
  refine (Yields.get frame).bind ?_
  simp only [absent]
  rfl

theorem readField_yields (held : frame.fields.get? access.field.identity = some value) :
    Yields (readField access) frame value frame := by
  refine (Yields.get frame).bind ?_
  simp only [held]
  rfl

theorem readField_fills (absent : frame.fields.get? access.field.identity = none) :
    let value := frame.factory.unconstrained access.kind
    Yields (readField access) frame value
      { frame with fields := frame.fields.insert access.field.identity value } := by
  refine (Yields.get frame).bind ?_
  simp only [absent]
  rfl

variable [AbstractValue V]

theorem getStatic_yields (held : frame.statics.get? access.field.identity = some value) :
    Yields (World.perform (.getStatic access)) frame ()
      { frame with stack := value :: frame.stack } :=
  (readStatic_yields held).bind (push_yields frame value)

theorem getField_yields {receiver : V} {rest : OperandStack V}
    (stack : frame.stack = receiver :: rest)
    (held : frame.fields.get? access.field.identity = some value) :
    Yields (World.perform (.getField access)) frame () { frame with stack := value :: rest } := by
  let popped : Frame V := { frame with stack := rest }
  have read : Yields (readField access) popped value popped := readField_yields held
  exact (pop_yields stack).bind (read.bind (push_yields popped value))

end Reads

variable {seeds : Seeds} {frame a b joined : Frame Interval} {access : FieldAccess}

structure Fitted (frame : Frame Interval) : Prop where
  statics : SlotsFit frame.statics
  fields : SlotsFit frame.fields

theorem readStatic_fits (made : frame.factory = seeds.factory) (fit : SlotsFit frame.statics)
    (declared : access.Declared) :
    ∃ value slots, Yields (readStatic access) frame value { frame with statics := slots } ∧
      HasKind.category value = access.kind.category ∧ SlotsFit slots := by
  cases held : frame.statics.get? access.field.identity with
  | some value =>
    exact ⟨value, _, readStatic_yields held, fit access value declared held, fit⟩
  | none =>
    have category : HasKind.category
        (frame.factory.staticValue access.field.identity access.kind) = access.kind.category := by
      rw [made]
      exact Seeds.category_value (seeds.statics.get? access.field.identity) access.kind
    exact ⟨_, _, readStatic_fills held, category, (slotsFit_insert_iff fit declared _).mpr category⟩

theorem readField_fits (made : frame.factory = seeds.factory) (fit : SlotsFit frame.fields)
    (declared : access.Declared) :
    ∃ value slots, Yields (readField access) frame value { frame with fields := slots } ∧
      HasKind.category value = access.kind.category ∧ SlotsFit slots := by
  cases held : frame.fields.get? access.field.identity with
  | some value =>
    exact ⟨value, _, readField_yields held, fit access value declared held, fit⟩
  | none =>
    have category : HasKind.category (frame.factory.unconstrained access.kind) =
        access.kind.category := by
      rw [made]
      exact Seeds.category_value none access.kind
    exact ⟨_, _, readField_fills held, category, (slotsFit_insert_iff fit declared _).mpr category⟩

/-- A static field is read as a value of its width, and so is a field of any receiver. -/
def ReadsFit (frame : Frame Interval) : Prop :=
  ∀ access, FieldAccess.Declared access →
    (∃ value left, Yields (World.perform (.getStatic access)) frame () left ∧
      left.stack = value :: frame.stack ∧ HasKind.category value = access.kind.category) ∧
    ∀ receiver rest, ∃ value left,
      Yields (World.perform (.getField access)) { frame with stack := receiver :: rest } () left ∧
      left.stack = value :: rest ∧ HasKind.category value = access.kind.category

theorem Fitted.getStatic (fitted : frame.Fitted) (made : frame.factory = seeds.factory)
    (declared : access.Declared) :
    ∃ value left, Yields (World.perform (.getStatic access)) frame () left ∧ left.Fitted ∧
      left.stack = value :: frame.stack ∧ HasKind.category value = access.kind.category := by
  obtain ⟨value, slots, read, category, fit⟩ := readStatic_fits made fitted.statics declared
  exact ⟨value, _, read.bind (push_yields _ value), ⟨fit, fitted.fields⟩, rfl, category⟩

theorem Fitted.getField (fitted : frame.Fitted) (made : frame.factory = seeds.factory)
    (declared : access.Declared) {receiver : Interval} {rest : OperandStack Interval}
    (stack : frame.stack = receiver :: rest) :
    ∃ value left, Yields (World.perform (.getField access)) frame () left ∧ left.Fitted ∧
      left.stack = value :: rest ∧ HasKind.category value = access.kind.category := by
  let popped : Frame Interval := { frame with stack := rest }
  have kept : popped.factory = seeds.factory := made
  obtain ⟨value, slots, read, category, fit⟩ := readField_fits kept fitted.fields declared
  exact ⟨value, _, (pop_yields stack).bind (read.bind (push_yields _ value)),
    ⟨fitted.statics, fit⟩, rfl, category⟩

/-- What is held is what is read, so nothing less is enough. -/
theorem readsFit_iff (made : frame.factory = seeds.factory) : frame.ReadsFit ↔ frame.Fitted := by
  constructor
  · intro reads
    refine ⟨fun access held declared found => ?_, fun access held declared found => ?_⟩
    · obtain ⟨value, left, ran, stack, category⟩ := (reads access declared).1
      cases ran.symm.trans (getStatic_yields found)
      cases stack
      exact category
    · obtain ⟨value, left, ran, stack, category⟩ := (reads access declared).2 held []
      cases ran.symm.trans (getField_yields rfl found)
      cases stack
      exact category
  · intro fitted access declared
    constructor
    · obtain ⟨value, left, ran, _, read⟩ := fitted.getStatic made declared
      exact ⟨value, left, ran, read⟩
    · intro receiver rest
      let pushed : Frame Interval := { frame with stack := receiver :: rest }
      have kept : pushed.Fitted := ⟨fitted.statics, fitted.fields⟩
      obtain ⟨value, left, ran, _, read⟩ := kept.getField made declared rfl
      exact ⟨value, left, ran, read⟩

theorem fitted_putStatic_iff (fitted : frame.Fitted) (declared : access.Declared) :
    (Action.left (.perform (.putStatic access)) frame).Fitted ↔
      ¬(Action.perform (.putStatic access)).Misfits frame := by
  cases stack : frame.stack with
  | nil =>
    have fails : Fails (Action.perform (.putStatic access)).transition frame frame :=
      (pop_fails stack).bind
    rw [Action.left_of_fails fails]
    simp [fitted, Action.Misfits, stack]
  | cons value rest =>
    have ran : Yields (Action.perform (.putStatic access)).transition frame ()
        { frame with
          stack := rest
          statics := frame.statics.insert access.field.identity value } :=
      (pop_yields stack).bind rfl
    have misfits : (Action.perform (.putStatic access)).Misfits frame ↔
        HasKind.category value ≠ access.kind.category := by simp [Action.Misfits, stack]
    rw [Action.left_of_yields ran, misfits, not_not,
      ← slotsFit_insert_iff fitted.statics declared value]
    exact ⟨Fitted.statics, fun statics => ⟨statics, fitted.fields⟩⟩

theorem fitted_putField_iff (fitted : frame.Fitted) (declared : access.Declared) :
    (Action.left (.perform (.putField access)) frame).Fitted ↔
      ¬(Action.perform (.putField access)).Misfits frame := by
  rcases stack : frame.stack with _ | ⟨value, _ | ⟨receiver, rest⟩⟩
  · have fails : Fails (Action.perform (.putField access)).transition frame frame :=
      (pop_fails stack).bind
    rw [Action.left_of_fails fails]
    simp [fitted, Action.Misfits, stack]
  · have fails : Fails (Action.perform (.putField access)).transition frame
        { frame with stack := [] } := (pop_yields stack).fails (pop_fails rfl).bind
    rw [Action.left_of_fails fails]
    refine iff_of_true ⟨fitted.statics, fitted.fields⟩ ?_
    simp [Action.Misfits, stack]
  · have ran : Yields (Action.perform (.putField access)).transition frame ()
        { frame with
          stack := rest
          fields := frame.fields.insert access.field.identity value } :=
      pop_two_yields stack rfl
    have misfits : (Action.perform (.putField access)).Misfits frame ↔
        HasKind.category value ≠ access.kind.category := by simp [Action.Misfits, stack]
    rw [Action.left_of_yields ran, misfits, not_not,
      ← slotsFit_insert_iff fitted.fields declared value]
    exact ⟨Fitted.fields, fun fields => ⟨fitted.statics, fields⟩⟩

theorem fitted_left_iff (made : frame.factory = seeds.factory) (fitted : frame.Fitted)
    {action : Action} (declared : action.Declared) :
    (action.left frame).Fitted ↔ ¬action.Misfits frame := by
  by_cases touched : action.Touches .statics ∨ action.Touches .fields
  · cases action with
    | perform effect =>
      cases effect with
      | getStatic access =>
        obtain ⟨value, left, ran, fits, _⟩ := fitted.getStatic made declared
        have same : Action.left (.perform (.getStatic access)) frame = left :=
          Action.left_of_yields ran
        exact iff_of_true (same ▸ fits) id
      | putStatic access => exact fitted_putStatic_iff fitted declared
      | getField access =>
        refine iff_of_true ?_ id
        cases stack : frame.stack with
        | nil =>
          have fails : Fails (Action.perform (.getField access)).transition frame frame :=
            (pop_fails stack).bind
          exact (Action.left_of_fails fails).symm ▸ fitted
        | cons receiver rest =>
          obtain ⟨value, left, ran, fits, _⟩ := fitted.getField made declared stack
          have same : Action.left (.perform (.getField access)) frame = left :=
            Action.left_of_yields ran
          exact same ▸ fits
      | putField access => exact fitted_putField_iff fitted declared
      | _ => simp [Action.Touches, Effect.Touches] at touched
    | terminate terminal => cases terminal <;> simp [Action.Touches, Terminal.Touches] at touched
    | _ => simp [Action.Touches] at touched
  · obtain ⟨statics, fields⟩ := not_or.mp touched
    have kept := frame.untouched action
    refine iff_of_true ⟨?_, ?_⟩ fun misfits => ?_
    · rw [kept.statics statics]
      exact fitted.statics
    · rw [kept.fields fields]
      exact fitted.fields
    · cases action with
      | perform effect =>
        cases effect with
        | putStatic access => exact statics rfl
        | putField access => exact fields rfl
        | _ => exact misfits
      | _ => exact misfits

theorem Fitted.combine (left : a.Fitted) (right : b.Fitted) (made : a.combine b = .ok joined) :
    joined.Fitted :=
  have parts := joined_of_combine made
  ⟨left.statics.join right.statics parts.statics, left.fields.join right.fields parts.fields⟩

/-! ## Machines -/

/-- A machine that accesses fields as declared, and stores only what fits. -/
def fitting : Permit Interval where
  step frame action := action.Declared ∧ ¬action.Misfits frame

theorem Fitted.setLocal (fitted : frame.Fitted) (index : Nat) (value : Interval) :
    (frame.setLocal index value).Fitted := ⟨fitted.statics, fitted.fields⟩

theorem Fitted.withParameters (fitted : frame.Fitted) (slot : UInt16) (kinds : List Kind) :
    (frame.withParameters slot kinds).1.Fitted := by
  induction kinds generalizing frame slot with
  | nil => exact fitted
  | cons kind rest ih => exact ih (fitted.setLocal slot.toNat _) (slot + UInt16.ofNat kind.slots)

theorem fitted_initial (factory : ValueFactory Interval) : (initial factory).Fitted :=
  ⟨slotsFit_empty, slotsFit_empty⟩

theorem ReachedBy.fitted (reached : ReachedBy fitting seeds.factory frame) : frame.Fitted := by
  induction reached with
  | initial => exact fitted_initial seeds.factory
  | @forMethod descriptor isStatic _ =>
    have start := fitted_initial seeds.factory
    cases isStatic with
    | true => exact start.withParameters 0 descriptor.parameters
    | false => exact (start.setLocal 0 _).withParameters 1 descriptor.parameters
  | exhaustive _ ih => exact ⟨ih.statics, ih.fields⟩
  | withLooping _ _ ih => exact ⟨ih.statics, ih.fields⟩
  | step before fits ih => exact (fitted_left_iff before.factory_eq ih fits.1).mpr fits.2
  | combine _ _ _ made left right => exact left.combine right made

/-- Reads of fields give values of the width that the fields are declared with, as all decoded
accesses are, as long as only such values are stored. They do so no longer after the very step that
stores another one, and joins do not matter. -/
theorem field_reads_fit_unless_misfit (seeds : Seeds) :
    (∀ frame, ReachedBy fitting seeds.factory frame → frame.ReadsFit) ∧
    (∀ frame (action : Action), Reachable seeds.factory frame → frame.ReadsFit → action.Declared →
      ((action.left frame).ReadsFit ↔ ¬action.Misfits frame)) ∧
    (∀ a b joined : Frame Interval, Reachable seeds.factory a → Reachable seeds.factory b →
      a.ReadsFit → b.ReadsFit → a.combine b = .ok joined → joined.ReadsFit) ∧
    ∀ (body : MethodBody) (offset : Nat) (instruction : Instruction) (effect : Effect),
      body.decode offset = .ok instruction → instruction.operation = .effect effect →
      (Action.perform effect).Declared := by
  refine ⟨?_, ?_, ?_, fun _ _ _ _ => MethodBody.decode_declared⟩
  · intro frame reached
    exact (readsFit_iff reached.factory_eq).mpr reached.fitted
  · intro frame action reachable reads declared
    have made := reachable.factory_eq
    rw [readsFit_iff (reachable.step action).factory_eq]
    exact fitted_left_iff made ((readsFit_iff made).mp reads) declared
  · intro a b joined left right readsLeft readsRight made
    refine (readsFit_iff (left.combine right made).factory_eq).mpr ?_
    exact ((readsFit_iff left.factory_eq).mp readsLeft).combine
      ((readsFit_iff right.factory_eq).mp readsRight) made

/-- A long is stored in a field of longs, and then an int. -/
theorem field_reads_fit_unless_misfit_stored :
    let factory := Seeds.empty.factory
    let access : FieldAccess := ⟨⟨"A", "x", "J"⟩, .long⟩
    let long := Action.left (.perform (.push (.long 9))) (initial factory)
    let stored := Action.left (.perform (.putStatic access)) long
    let int := Action.left (.perform (.push (.int 7))) stored
    ReachedBy fitting factory int ∧ int.ReadsFit ∧
      ¬(Action.left (.perform (.putStatic access)) int).ReadsFit := by
  intro factory access long stored int
  obtain ⟨reads, steps, _⟩ := field_reads_fit_unless_misfit .empty
  have declared : access.Declared := by decide
  have fits : ¬(Action.perform (.putStatic access)).Misfits long := by
    rintro ⟨value, rest, held, wide⟩
    cases held
    exact wide rfl
  have reached : ReachedBy fitting factory int :=
    .step (.step (.step .initial ⟨trivial, id⟩) ⟨declared, fits⟩) ⟨trivial, id⟩
  refine ⟨reached, reads int reached, fun after => ?_⟩
  exact (steps int (.perform (.putStatic access)) reached.reachable (reads int reached)
    declared).mp after ⟨_, _, rfl, by decide⟩

/-- A long that was stored in a field of ints is read back from it. -/
theorem long_read_from_int_field :
    let factory := Seeds.empty.factory
    let access : FieldAccess := ⟨⟨"A", "x", "I"⟩, .int⟩
    let nine : Interval := .integral .long (.singleton 9)
    let reached := ReachedBy { step := fun _ action => action.Declared } factory
    access.Declared ∧ ∃ static object : Frame Interval, reached static ∧ reached object ∧
      (Action.left (.perform (.getStatic access)) static).stack = [nine] ∧
      (Action.left (.perform (.getField access)) object).stack = [nine] ∧
      ¬static.ReadsFit ∧ ¬object.ReadsFit := by
  intro factory access nine reached
  have declared : access.Declared := by decide
  have wide : HasKind.category nine ≠ access.kind.category := by decide
  let start : Frame Interval := initial factory
  let long := Action.left (.perform (.push (.long 9))) start
  let static := Action.left (.perform (.putStatic access)) long
  let receiver := Action.left (.perform (.push .null)) start
  let stored := Action.left (.perform (.putField access))
    (Action.left (.perform (.push (.long 9))) receiver)
  let object := Action.left (.perform (.push .null)) stored
  have reachedStatic : reached static := .step (.step .initial trivial) declared
  have reachedObject : reached object :=
    .step (.step (.step (.step .initial trivial) trivial) declared) trivial
  have statics : static.statics = SortedMap.empty.insert access.field.identity nine := rfl
  have fields : object.fields = SortedMap.empty.insert access.field.identity nine := rfl
  have heldStatic : static.statics.get? access.field.identity = some nine := by simp [statics]
  have heldObject : object.fields.get? access.field.identity = some nine := by simp [fields]
  have readStatic : Action.left (.perform (.getStatic access)) static =
      { static with stack := [nine] } := Action.left_of_yields (getStatic_yields heldStatic)
  have readField : Action.left (.perform (.getField access)) object =
      { object with stack := [nine] } := Action.left_of_yields (getField_yields rfl heldObject)
  refine ⟨declared, static, object, reachedStatic, reachedObject, congrArg Frame.stack readStatic,
    congrArg Frame.stack readField, ?_, ?_⟩
  · intro reads
    have fitted := (readsFit_iff reachedStatic.factory_eq).mp reads
    exact wide (fitted.statics access nine declared heldStatic)
  · intro reads
    have fitted := (readsFit_iff reachedObject.factory_eq).mp reads
    exact wide (fitted.fields access nine declared heldObject)

end Frame

end MethodFlow

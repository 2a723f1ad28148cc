import Mathlib.Data.List.Forall2
import MethodFlow.Exploration.Step
import MethodFlow.Frame.Join
import MethodFlow.Proofs.Outcomes
import MethodFlow.Proofs.SortedContainers
import MethodFlow.Proofs.StackShuffles

/-! Frames that model a state of the concrete machine. Whatever the machine does in one step, a
frame that models its state can do too, and the frame after it models the state after it. A frame
models a state exactly if each of its values denotes one word only. -/
namespace MethodFlow

def Yields {W α : Type} (transition : Transition W α) (before : W) (value : α) (left : W) : Prop :=
  transition.run before = .ok value left

namespace Yields

variable {W α β : Type}

theorem bind {transition : Transition W α} {next : α → Transition W β} {first second third : W}
    {a : α} {b : β} (start : Yields transition first a second)
    (rest : Yields (next a) second b third) :
    Yields (transition >>= next) first b third := by
  unfold Yields EStateM.run at *
  simp only [Bind.bind, EStateM.bind, start, rest]

theorem exists_of_bind {transition : Transition W α} {next : α → Transition W β} {first third : W}
    {b : β} (ran : Yields (transition >>= next) first b third) :
    ∃ a second, Yields transition first a second ∧ Yields (next a) second b third := by
  unfold Yields EStateM.run at *
  simp only [Bind.bind, EStateM.bind] at ran
  split at ran
  · rename_i a second start
    exact ⟨a, second, start, ran⟩
  · cases ran

theorem get (world : W) : Yields MonadState.get world world world := rfl

end Yields

def Fails {W α : Type} (transition : Transition W α) (before left : W) : Prop :=
  ∃ error, transition.run before = .error error left

section Fails

variable {W α β : Type} {transition : Transition W α} {next : α → Transition W β}
  {first second third : W}

theorem Fails.bind (fails : Fails transition first second) :
    Fails (transition >>= next) first second := by
  obtain ⟨error, ran⟩ := fails
  refine ⟨error, ?_⟩
  unfold EStateM.run at *
  simp only [Bind.bind, EStateM.bind, ran]

theorem Yields.fails {a : α} (start : Yields transition first a second)
    (rest : Fails (next a) second third) : Fails (transition >>= next) first third := by
  obtain ⟨error, ran⟩ := rest
  refine ⟨error, ?_⟩
  unfold Yields EStateM.run at *
  simp only [Bind.bind, EStateM.bind, start, ran]

end Fails

theorem after_eq {W : Type} {transition : Transition W Unit} {world left : W}
    (yields : Yields transition world () left) : after transition world = .ok left := by
  unfold after
  rw [yields]

theorem yields_of_after {W : Type} {transition : Transition W Unit} {world left : W}
    (ran : after transition world = .ok left) : Yields transition world () left := by
  unfold after at ran
  unfold Yields
  generalize transition.run world = result at ran
  cases result with
  | ok _ _ => cases ran; rfl
  | error _ _ => cases ran

/-! ## Transitions of a frame -/

namespace Frame

variable {V : Type}

theorem onStack_yields {α : Type} {action : StackAction V α} {frame : Frame V} {value : α}
    {stack : OperandStack V} (ran : action.run frame.stack = .ok value stack) :
    Yields (onStack action) frame value { frame with stack := stack } := by
  rw [Yields, run_onStack, ran]

theorem push_yields (frame : Frame V) (value : V) :
    Yields (push value) frame () { frame with stack := value :: frame.stack } := rfl

theorem pop_yields {frame : Frame V} {value : V} {rest : List V}
    (top : frame.stack = value :: rest) : Yields pop frame value { frame with stack := rest } := by
  apply onStack_yields
  rw [top]
  rfl

theorem pop_two_yields {α : Type} {frame : Frame V} {top below : V} {rest : List V}
    (stack : frame.stack = top :: below :: rest) {next : V → V → Transition (Frame V) α}
    {result : α} {left : Frame V}
    (onward : Yields (next top below) { frame with stack := rest } result left) :
    Yields (do next (← pop) (← pop)) frame result left := by
  have second : Yields pop { frame with stack := below :: rest } below
      { frame with stack := rest } := pop_yields rfl
  exact (pop_yields stack).bind (second.bind onward)

theorem pop_fails {frame : Frame V} (empty : frame.stack = []) : Fails pop frame frame := by
  refine ⟨.stack (.underflow "pop" 1 0), ?_⟩
  have ran : OperandStack.pop.run frame.stack = .error (.underflow "pop" 1 0) frame.stack := by
    rw [empty]
    rfl
  rw [pop, run_onStack, ran]

theorem evaluateSwitch_listed [AbstractValue V] {frame : Frame V} {selector : V} {rest : List V}
    {candidates : List Int} (top : frame.stack = selector :: rest)
    (listed : (AbstractValue.concretize selector).integers? maxCandidates = some candidates) :
    Yields evaluateSwitch frame ()
      { frame with stack := rest, candidates := candidates, flags := ⟨true, false⟩ } := by
  refine (pop_yields top).bind ?_
  rw [listed]
  rfl

theorem evaluateSwitch_unlisted [AbstractValue V] {frame : Frame V} {selector : V} {rest : List V}
    (top : frame.stack = selector :: rest)
    (unlisted : (AbstractValue.concretize selector).integers? maxCandidates = none) :
    Yields evaluateSwitch frame ()
      { frame with stack := rest, candidates := [], flags := ⟨true, true⟩ } := by
  refine (pop_yields top).bind ?_
  rw [unlisted]
  rfl

theorem compute_yields {α : Type} {result : Except ValueError α} {value : α} (frame : Frame V)
    (succeeds : result = .ok value) : Yields (compute result) frame value frame := by
  rw [succeeds]
  rfl

theorem compute_fails {α : Type} {result : Except ValueError α} {error : ValueError}
    (frame : Frame V) (fails : result = .error error) : Fails (compute result) frame frame := by
  rw [fails]
  exact ⟨_, rfl⟩

theorem checkCategory_yields [AbstractValue V] {expected : Kind} {value : V} (frame : Frame V)
    (operation : String) (category : HasKind.category value = expected.category) :
    Yields (checkCategory operation expected value) frame () frame := by
  rw [checkCategory, if_pos category]
  rfl

theorem checkCategory_fails [AbstractValue V] {expected : Kind} {value : V} (frame : Frame V)
    (operation : String) (category : HasKind.category value ≠ expected.category) :
    Fails (checkCategory operation expected value) frame frame := by
  rw [checkCategory, if_neg category]
  exact ⟨_, rfl⟩

theorem readLocal_yields [AbstractValue V] {frame : Frame V} {index : Nat} {kind : Kind}
    {value : V} (held : frame.locals.get? index = some value)
    (category : HasKind.category value = kind.category) :
    Yields (readLocal index kind) frame value frame := by
  refine (Yields.get frame).bind ?_
  rw [held]
  exact (checkCategory_yields frame "load" category).bind rfl

theorem readLocal_fails [AbstractValue V] {frame : Frame V} {index : Nat} {kind : Kind} {value : V}
    (held : frame.locals.get? index = some value)
    (category : HasKind.category value ≠ kind.category) :
    Fails (readLocal index kind) frame frame := by
  refine (Yields.get frame).fails ?_
  rw [held]
  exact (checkCategory_fails frame "load" category).bind

theorem readLocal_fills [AbstractValue V] {frame : Frame V} {index : Nat}
    (absent : frame.locals.get? index = none) (kind : Kind) :
    Yields (readLocal index kind) frame (frame.factory.localValue index kind)
      (frame.setLocal index (frame.factory.localValue index kind)) := by
  refine (Yields.get frame).bind ?_
  rw [absent]
  rfl

theorem get?_writeLocals [AbstractValue V] (index slot : Nat) (value : V)
    (locals : SortedMap Nat V) :
    (writeLocals index value locals).get? slot =
      if slot = index then some value
      else if slot = index + 1 ∧ HasKind.category value = Category.two then none
      else if slot + 1 = index ∧ (locals.get? slot).any (HasKind.category · = Category.two) then
        none
      else locals.get? slot := by
  have next : ∀ slot, (if HasKind.category value = Category.two then locals.erase (index + 1)
      else locals).get? slot =
        if slot = index + 1 ∧ HasKind.category value = Category.two then none
        else locals.get? slot := by
    intro slot
    by_cases wide : HasKind.category value = Category.two <;> simp [wide]
  unfold writeLocals
  cases index with
  | zero =>
    rw [SortedMap.get?_insert, next]
    simp
  | succ before =>
    -- Only the slot before the written one can hold a value that reaches into it.
    simp only [SortedMap.get?_insert, next]
    have apart : ¬before = before + 1 + 1 := by omega
    simp only [apart, false_and, if_false]
    cases stored : locals.get? before with
    | none =>
      by_cases same : slot = before
      · simp [next, same, stored]
      · simp [next, same]
    | some covering =>
      by_cases covers : HasKind.category covering = Category.two
      · by_cases same : slot = before
        · simp [same, stored, covers]
        · simp [next, same, covers]
      · by_cases same : slot = before
        · simp [next, same, stored, covers]
        · simp [next, same, covers]

end Frame

/-! ## Frames that model a machine -/

/-- The frame models a state: it starts from the seeds, its stack denotes the words of the stack,
and what it gives for a local that may be read denotes the word of the local. A frame that models a
state exactly does not explore outcomes that are impossible. -/
structure Models (exact : Prop) (seeds : Seeds) (machine : Machine) (frame : Frame Interval) :
    Prop where
  factory : frame.factory = seeds.factory
  stack : List.Forall₂ (Interval.Denotes exact) machine.stack frame.stack
  locals : ∀ index word, machine.locals index = some word → Interval.Denotes exact word
    ((frame.locals.get? index).getD (seeds.factory.localValue index word.kind))
  decided : exact → frame.evaluateAll = false

namespace Models

variable {exact : Prop} {seeds : Seeds} {machine : Machine} {frame : Frame Interval}

theorem withStack (models : Models exact seeds machine frame) {words : List Word}
    {values : List Interval} (denote : List.Forall₂ (Interval.Denotes exact) words values) :
    Models exact seeds { machine with stack := words } { frame with stack := values } :=
  ⟨models.factory, denote, models.locals, models.decided⟩

theorem top (models : Models exact seeds machine frame) {word : Word} {words : List Word}
    (shape : machine.stack = word :: words) :
    ∃ value values, frame.stack = value :: values ∧ Interval.Denotes exact word value ∧
      List.Forall₂ (Interval.Denotes exact) words values := by
  have stack := models.stack
  rw [shape] at stack
  obtain ⟨value, values, denotes, rest, same⟩ := List.forall₂_cons_left_iff.mp stack
  exact ⟨value, values, same, denotes, rest⟩

theorem topTwo (models : Models exact seeds machine frame) {first second : Word} {words : List Word}
    (shape : machine.stack = first :: second :: words) :
    ∃ a b values, frame.stack = a :: b :: values ∧ Interval.Denotes exact first a ∧
      Interval.Denotes exact second b ∧ List.Forall₂ (Interval.Denotes exact) words values := by
  obtain ⟨a, rest, same, denotesFirst, below⟩ := models.top shape
  obtain ⟨b, values, denotesSecond, denote, rfl⟩ := List.forall₂_cons_left_iff.mp below
  exact ⟨a, b, values, same, denotesFirst, denotesSecond, denote⟩

theorem category_eq {word : Word} {value : Interval} (denotes : Interval.Denotes exact word value) :
    HasKind.category value = word.kind.category := by
  obtain ⟨category, _, _⟩ := denotes
  exact category

theorem setLocal (models : Models exact seeds machine frame) {index : Nat} {word : Word}
    {value : Interval} (holds : machine.locals index = some word)
    (denotes : Interval.Denotes exact word value) :
    Models exact seeds machine (frame.setLocal index value) := by
  refine ⟨models.factory, models.stack, ?_, models.decided⟩
  intro slot other present
  simp only [Frame.setLocal, SortedMap.get?_insert]
  split
  · rename_i same
    subst same
    cases holds.symm.trans present
    exact denotes
  · exact models.locals slot other present

theorem readLocal (models : Models exact seeds machine frame) {kind : Kind} {index : Nat}
    {word : Word} (read : machine.read kind index = some word) :
    ∃ value left, Yields (Frame.readLocal index kind) frame value left ∧
      Interval.Denotes exact word value ∧ Models exact seeds machine left ∧
      left.stack = frame.stack := by
  obtain ⟨holds, asKind⟩ := Option.filter_eq_some_iff.mp read
  obtain rfl : kind = word.kind := by simpa using asKind
  have denotes := models.locals index word holds
  cases stored : frame.locals.get? index with
  | some value =>
    rw [stored] at denotes
    exact ⟨value, frame, Frame.readLocal_yields stored (category_eq denotes), denotes, models, rfl⟩
  | none =>
    rw [stored] at denotes
    refine ⟨_, _, ?_, denotes, models.setLocal holds denotes, rfl⟩
    exact models.factory ▸ Frame.readLocal_fills stored word.kind

theorem category_two {word : Word} {value : Interval}
    (denotes : Interval.Denotes exact word value) :
    HasKind.category value = Category.two ↔ word.width = .long := by
  rw [category_eq denotes, Word.kind]
  cases word.width <;> simp [Kind.category, Width.kind, IntKind.category]

theorem writeLocal (models : Models exact seeds machine frame) {index : Nat} {word : Word}
    {value : Interval} (denotes : Interval.Denotes exact word value) :
    Models exact seeds { machine with locals := Machine.write index word machine.locals }
      { frame with locals := Frame.writeLocals index value frame.locals } := by
  refine ⟨models.factory, models.stack, ?_, models.decided⟩
  intro slot other present
  simp only [Frame.get?_writeLocals]
  simp only [Machine.write] at present
  split at present
  · cases present
    rw [if_pos ‹slot = index›]
    exact denotes
  · rename_i elsewhere
    rw [if_neg elsewhere]
    simp only [Option.ite_none_left_eq_some] at present
    obtain ⟨notNext, notBefore, present⟩ := present
    have unchanged := models.locals slot other present
    rw [if_neg (by rwa [category_two denotes]), if_neg]
    · exact unchanged
    · rintro ⟨before, covering⟩
      apply notBefore
      refine ⟨before, ?_⟩
      cases stored : frame.locals.get? slot with
      | none => simp [stored] at covering
      | some covered =>
        rw [stored] at covering unchanged
        simpa [present] using (category_two unchanged).mp (by simpa using covering)

theorem push (models : Models exact seeds machine frame) {word : Word} {value : Interval}
    (denotes : Interval.Denotes exact word value) :
    Models exact seeds (machine.push word) { frame with stack := value :: frame.stack } :=
  models.withStack (.cons denotes models.stack)

theorem replaceOne (models : Models exact seeds machine frame) {word result : Word}
    {words : List Word} (shape : machine.stack = word :: words)
    {operation : Interval → Except ValueError Interval}
    (computes : ∀ a, Interval.Denotes exact word a →
      ∃ value, operation a = .ok value ∧ Interval.Denotes exact result value) :
    ∃ left, Yields (do
        let value ← Frame.pop
        Frame.push (← Frame.compute (operation value))) frame () left ∧
      Models exact seeds { machine with stack := result :: words } left := by
  obtain ⟨a, values, same, denotes, rest⟩ := models.top shape
  obtain ⟨value, made, isResult⟩ := computes a denotes
  exact ⟨_, (Frame.pop_yields same).bind ((Frame.compute_yields _ made).bind
    (Frame.push_yields _ value)), models.withStack (.cons isResult rest)⟩

theorem replaceTwo (models : Models exact seeds machine frame) {left right result : Word}
    {words : List Word} (shape : machine.stack = right :: left :: words)
    {operation : Interval → Interval → Except ValueError Interval}
    (computes : ∀ a b, Interval.Denotes exact left a → Interval.Denotes exact right b →
      ∃ value, operation a b = .ok value ∧ Interval.Denotes exact result value) :
    ∃ after, Yields (do
        let right ← Frame.pop
        let left ← Frame.pop
        Frame.push (← Frame.compute (operation left right))) frame () after ∧
      Models exact seeds { machine with stack := result :: words } after := by
  obtain ⟨b, a, values, same, denotesRight, denotesLeft, rest⟩ := models.topTwo shape
  obtain ⟨value, made, isResult⟩ := computes a b denotesLeft denotesRight
  exact ⟨_, Frame.pop_two_yields same ((Frame.compute_yields _ made).bind
    (Frame.push_yields _ value)), models.withStack (.cons isResult rest)⟩

/-! ## Effects -/

def Follows (exact : Prop) (seeds : Seeds) (frame : Frame Interval) (effect : Effect)
    (after : Machine) : Prop :=
  ∃ left, Yields (Frame.perform effect) frame () left ∧ Models exact seeds after left

section Effects

variable {after : Machine} (models : Models exact seeds machine frame)

include models

theorem follows_store {kind : Kind} {index : Nat}
    (performed : machine.perform (.store kind index) = some after) :
    Follows exact seeds frame (.store kind index) after := by
  cases shape : machine.stack with
  | nil => simp [Machine.perform, shape] at performed
  | cons word words =>
    simp only [Machine.perform, shape, Option.ite_none_right_eq_some, Option.some.injEq]
      at performed
    obtain ⟨rfl, rfl⟩ := performed
    obtain ⟨value, values, same, denotes, rest⟩ := models.top shape
    exact ⟨_, (Frame.pop_yields same).bind ((Frame.checkCategory_yields _ "store"
      (category_eq denotes)).bind rfl), (models.withStack rest).writeLocal denotes⟩

theorem follows_increment {index : Nat} {delta : Int32}
    (performed : machine.perform (.increment index delta) = some after)
    (uncut : exact → machine.uncut (.increment index delta) = true) :
    Follows exact seeds frame (.increment index delta) after := by
  simp only [Machine.perform, Option.bind_eq_bind, Option.bind_eq_some_iff, Option.pure_def,
    Option.some.injEq] at performed
  obtain ⟨word, read, sum, added, rfl⟩ := performed
  obtain ⟨current, left, yields, denotes, modelsLeft, _⟩ := models.readLocal read
  have present := (Option.filter_eq_some_iff.mp read).1
  have fits : exact → ∀ value,
      Width.int.result .add word.value (Word.ofInt32 delta).value = some value →
        Width.int.Fits value := by
    intro holds value result
    cases result
    have whole := uncut holds
    rw [Machine.uncut, present] at whole
    exact of_decide_eq_true whole
  obtain ⟨value, made, isSum⟩ := Interval.denotes_arithmetic denotes
    (Interval.denotes_singleton rfl) added (fun holds _ => fits holds)
  refine ⟨_, yields.bind ((Yields.get left).bind ((Frame.compute_yields left ?_).bind rfl)),
    modelsLeft.writeLocal isSum⟩
  rw [modelsLeft.factory]
  exact made

theorem follows_shuffle {op : StackOp} (performed : machine.perform (.shuffle op) = some after) :
    Follows exact seeds frame (.shuffle op) after := by
  obtain ⟨moved, shuffled, rfl⟩ := Option.map_eq_some_iff.mp performed
  have same : ∀ word value, Interval.Denotes exact word value →
      HasKind.category word = HasKind.category value :=
    fun _ _ denotes => (category_eq denotes).symm
  have agree := OperandStack.Alike.apply same op _ _ models.stack
  rw [Word.shuffle_eq_apply shuffled] at agree
  generalize applied : (OperandStack.apply op).run frame.stack = result at agree
  cases agree with
  | ok _ denote => exact ⟨_, Frame.onStack_yields applied, models.withStack denote⟩

theorem follows_arithmetic {op : ArithmeticOp} {kind : NumericKind}
    (performed : machine.perform (.arithmetic op kind) = some after)
    (uncut : exact → machine.uncut (.arithmetic op kind) = true) :
    Follows exact seeds frame (.arithmetic op kind) after := by
  cases kind with
  | floating => cases performed
  | integral width =>
    simp only [Machine.perform] at performed
    split at performed
    · rename_i right left rest shape
      obtain ⟨word, computed, rfl⟩ := Option.map_eq_some_iff.mp performed
      refine models.replaceTwo shape fun a b inLeft inRight =>
        Interval.denotes_arithmetic inLeft inRight computed ?_
      intro holds overflows value result
      have whole := uncut holds
      simpa [Machine.uncut, shape, overflows, result] using whole
    · cases performed

theorem follows_negate {kind : NumericKind}
    (performed : machine.perform (.negate kind) = some after)
    (uncut : exact → machine.uncut (.negate kind) = true) :
    Follows exact seeds frame (.negate kind) after := by
  cases kind with
  | floating => cases performed
  | integral width =>
    simp only [Machine.perform] at performed
    split at performed
    · rename_i word rest shape
      obtain ⟨negated, computed, rfl⟩ := Option.map_eq_some_iff.mp performed
      refine models.replaceOne shape fun a inside =>
        Interval.denotes_negate inside computed ?_
      intro holds
      have whole := uncut holds
      simpa [Machine.uncut, shape] using whole
    · cases performed

theorem follows_convert {conversion : Conversion}
    (performed : machine.perform (.convert conversion) = some after)
    (uncut : exact → machine.uncut (.convert conversion) = true) :
    Follows exact seeds frame (.convert conversion) after := by
  simp only [Machine.perform] at performed
  split at performed
  · rename_i word rest shape
    obtain ⟨converted, computed, rfl⟩ := Option.map_eq_some_iff.mp performed
    refine models.replaceOne shape fun a inside =>
      Interval.denotes_convert inside computed ?_
    intro holds
    have whole := uncut holds
    simpa [Machine.uncut, shape, computed] using whole
  · cases performed

theorem follows_compare {comparison : Comparison}
    (performed : machine.perform (.compare comparison) = some after) :
    Follows exact seeds frame (.compare comparison) after := by
  cases comparison with
  | lcmp =>
    simp only [Machine.perform] at performed
    split at performed
    · rename_i right left rest shape
      obtain ⟨word, computed, rfl⟩ := Option.map_eq_some_iff.mp performed
      exact models.replaceTwo shape fun a b inLeft inRight =>
        Interval.denotes_compare inLeft inRight computed
    · cases performed
  | _ => cases performed

/-- What the machine does at an instruction that falls through, the frame does too. -/
theorem perform {effect : Effect} (performed : machine.perform effect = some after)
    (uncut : exact → machine.uncut effect = true) : Follows exact seeds frame effect after := by
  cases effect with
  | push literal =>
    obtain ⟨word, stands, rfl⟩ := Option.map_eq_some_iff.mp performed
    obtain ⟨value, made, denotes⟩ := Interval.denotes_literal seeds stands
    rw [← models.factory] at made
    exact ⟨_, (Yields.get frame).bind ((Frame.compute_yields _ made).bind
      (Frame.push_yields _ value)), models.push denotes⟩
  | load kind index =>
    obtain ⟨word, read, rfl⟩ := Option.map_eq_some_iff.mp performed
    obtain ⟨value, left, yields, denotes, modelsLeft, _⟩ := models.readLocal read
    exact ⟨_, yields.bind (Frame.push_yields _ value), modelsLeft.push denotes⟩
  | store kind index => exact models.follows_store performed
  | increment index delta => exact models.follows_increment performed uncut
  | shuffle op => exact models.follows_shuffle performed
  | arithmetic op kind => exact models.follows_arithmetic performed uncut
  | negate kind => exact models.follows_negate performed uncut
  | convert conversion => exact models.follows_convert performed uncut
  | compare comparison => exact models.follows_compare performed
  | _ => cases performed

end Effects

/-- After a test the frame allows the outcome the machine has and, if it is exact, no other. -/
theorem evaluateBranch (models : Models exact seeds machine frame) {test : BranchTest}
    {outcome : Bool} {after : Machine} (tested : machine.test test = some (outcome, after)) :
    ∃ left, Yields (Frame.evaluateBranch test) frame () left ∧ Models exact seeds after left ∧
      left.flags.allows outcome = true ∧ (exact → left.flags.allows (!outcome) = false) := by
  cases test with
  | zero condition =>
    simp only [Machine.test] at tested
    split at tested
    · rename_i number fits rest shape
      cases tested
      obtain ⟨a, values, same, denotes, denote⟩ := models.top shape
      obtain ⟨flags, made, allowed, only⟩ := Interval.denotes_againstZero condition denotes rfl
      refine ⟨_, (Frame.pop_yields same).bind ((Yields.get _).bind
        ((Frame.compute_yields _ ?_).bind rfl)),
        ⟨models.factory, denote, models.locals, models.decided⟩, allowed, only⟩
      rw [models.factory]
      exact made
    · cases tested
  | intCompare condition =>
    simp only [Machine.test] at tested
    split at tested
    · rename_i right _ left _ rest shape
      cases tested
      obtain ⟨b, a, values, same, inRight, inLeft, denote⟩ := models.topTwo shape
      obtain ⟨flags, made, allowed, only⟩ :=
        Interval.denotes_betweenInts condition inLeft inRight rfl
      exact ⟨_, Frame.pop_two_yields same ((Frame.compute_yields _ made).bind rfl),
        ⟨models.factory, denote, models.locals, models.decided⟩, allowed, only⟩
    · cases tested
  | refCompare => cases tested
  | null => cases tested

theorem evaluateSwitch (models : Models exact seeds machine frame) {selector : Word}
    {words : List Word} (shape : machine.stack = selector :: words) :
    ∃ left, Yields Frame.evaluateSwitch frame () left ∧
      Models exact seeds { machine with stack := words } left ∧ left.flags.taken = true ∧
      (left.flags.passed = true ∨ selector.value ∈ left.candidates) ∧
      (exact → left.flags.passed = false ∧ left.candidates = [selector.value]) := by
  obtain ⟨a, values, same, denotes, denote⟩ := models.top shape
  obtain ⟨member, only⟩ := Interval.denotes_candidates denotes Frame.maxCandidates (by decide)
  cases listed : a.concretize.integers? Frame.maxCandidates with
  | some candidates =>
    refine ⟨_, Frame.evaluateSwitch_listed same listed,
      ⟨models.factory, denote, models.locals, models.decided⟩, rfl,
      Or.inr (member candidates listed), ?_⟩
    intro holds
    exact ⟨rfl, Option.some.inj (listed.symm.trans (only holds))⟩
  | none =>
    refine ⟨_, Frame.evaluateSwitch_unlisted same listed,
      ⟨models.factory, denote, models.locals, models.decided⟩, rfl, Or.inl rfl, ?_⟩
    intro holds
    cases listed.symm.trans (only holds)

theorem terminate (models : Models exact seeds machine frame) {kind : Kind} {word : Word}
    (returned : machine.stack.head?.filter (kind = ·.kind) = some word) :
    ∃ left value, Yields (Frame.terminate (.value kind)) frame () left ∧
      left.returnValue = some value ∧ Interval.Denotes exact word value := by
  obtain ⟨isTop, asKind⟩ := Option.filter_eq_some_iff.mp returned
  obtain rfl : kind = word.kind := by simpa using asKind
  obtain ⟨words, shape⟩ := List.head?_eq_some_iff.mp isTop
  obtain ⟨value, values, same, denotes, _⟩ := models.top shape
  exact ⟨_, value, (Frame.pop_yields same).bind ((Frame.checkCategory_yields _ "return"
    (category_eq denotes)).bind rfl), rfl, denotes⟩

end Models

end MethodFlow

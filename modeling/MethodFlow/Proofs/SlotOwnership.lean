import MethodFlow.Proofs.JoinCovers
import MethodFlow.Proofs.MethodEntry
import MethodFlow.Proofs.Reachability

/-! A two-slot local owns the slot after it. A write keeps this so, because it clears what it
overlaps. A local that is filled in does not: the first read of a local and the join of two frames
leave its neighbours alone. A machine in which these never overlap another local keeps ownership,
and every such overlap breaks it. -/
namespace MethodFlow

theorem Seeds.category_localValue (seeds : Seeds) (index : Nat) (kind : Kind) :
    HasKind.category (seeds.factory.localValue index kind) = kind.category :=
  category_value (seeds.locals.get? index) kind

theorem Seeds.increment_ok (seeds : Seeds) (index : Nat) (delta : Int32) :
    ∃ sum, Interval.arithmetic .add .int (seeds.factory.localValue index .int)
      (seeds.factory.int delta) = .ok sum := by
  have compatible := Seeds.kind_value (seeds.locals.get? index) .int
  change ∃ sum, Interval.arithmetic .add .int (value (seeds.locals.get? index) .int)
    (.integral .int (.singleton delta.toInt)) = .ok sum
  generalize value (seeds.locals.get? index) .int = held at compatible
  cases held with
  | integral kind range =>
    exact ⟨_, Interval.arithmetic_integral range _ (Kind.category_congr compatible) rfl⟩
  | floating | reference | returnAddress => cases compatible

/-! ## Locals -/

section Locals

variable {V : Type} [AbstractValue V] {locals : SortedMap Nat V} {index limit : Nat} {value : V}

/-- No local stands in the second slot of another. -/
def SlotsOwned (locals : SortedMap Nat V) : Prop :=
  ∀ index value, locals.get? index = some value → HasKind.category value = Category.two →
    locals.get? (index + 1) = none

/-- A new local of the category would share a slot with its neighbour on either side. -/
def Overlaps (category : Category) (index : Nat) (locals : SortedMap Nat V) : Prop :=
  (category = .two ∧ ∃ next, locals.get? (index + 1) = some next) ∨
    ∃ before covering, before + 1 = index ∧ locals.get? before = some covering ∧
      HasKind.category covering = Category.two

/-- The first locals hold a two-slot value where the second hold nothing, and the second hold
something in its second slot. -/
def Crosses (locals others : SortedMap Nat V) : Prop :=
  ∃ index value next, locals.get? index = some value ∧ HasKind.category value = Category.two ∧
    others.get? index = none ∧ others.get? (index + 1) = some next

theorem get?_next_of_not_crosses {others : SortedMap Nat V} (apart : ¬Crosses locals others)
    (held : locals.get? index = some value) (wide : HasKind.category value = Category.two)
    (absent : others.get? index = none) : others.get? (index + 1) = none := by
  by_contra next
  obtain ⟨next, beyond⟩ := Option.ne_none_iff_exists'.mp next
  exact apart ⟨index, value, next, held, wide, absent, beyond⟩

theorem slotsOwned_empty : SlotsOwned (.empty : SortedMap Nat V) := nofun

theorem SlotsOwned.write (owned : SlotsOwned locals) (index : Nat) (value : V) :
    SlotsOwned (Frame.writeLocals index value locals) := by
  intro slot held found wide
  rw [Frame.get?_writeLocals] at found ⊢
  by_cases here : slot = index
  · rw [if_pos here] at found
    cases found
    simp [here, wide]
  · simp only [if_neg here, Option.ite_none_left_eq_some] at found
    obtain ⟨_, uncovered, found⟩ := found
    -- a two-slot value right before the written local was cleared
    have elsewhere : slot + 1 ≠ index := by
      intro before
      exact uncovered ⟨before, by simpa [found] using wide⟩
    simp [elsewhere, here, owned slot held found wide]

theorem slotsOwned_insert_iff (owned : SlotsOwned locals) (absent : locals.get? index = none)
    (value : V) : SlotsOwned (locals.insert index value) ↔
      ¬Overlaps (HasKind.category value) index locals := by
  constructor
  · rintro after (⟨wide, next, held⟩ | ⟨before, covering, rfl, held, wide⟩)
    · have cleared := after index value (by simp) wide
      simp [held] at cleared
    · have cleared := after before covering (by simp [held]) wide
      simp at cleared
  · intro apart slot held found wide
    rw [SortedMap.get?_insert] at found ⊢
    split at found
    · rename_i here
      cases found
      rw [here, if_neg (Nat.succ_ne_self index)]
      by_contra next
      exact apart (.inl ⟨wide, Option.ne_none_iff_exists'.mp next⟩)
    · split
      · rename_i next
        exact absurd (.inr ⟨slot, held, next, found, wide⟩) apart
      · exact owned slot held found wide

structure Packed (limit : Nat) (locals : SortedMap Nat V) : Prop where
  owned : SlotsOwned locals
  ends : ∀ index value, locals.get? index = some value →
    index + (HasKind.category value).slots ≤ limit

theorem Packed.insert (packed : Packed limit locals) (value : V) :
    Packed (limit + (HasKind.category value).slots) (locals.insert limit value) := by
  have free : ∀ index, limit ≤ index → locals.get? index = none := by
    intro index above
    by_contra held
    obtain ⟨value, held⟩ := Option.ne_none_iff_exists'.mp held
    have ends := packed.ends index value held
    have positive := (HasKind.category value).slots_pos
    omega
  constructor
  · rw [slotsOwned_insert_iff packed.owned (free limit (Nat.le_refl limit))]
    rintro (⟨_, next, held⟩ | ⟨before, covering, rfl, held, wide⟩)
    · rw [free (limit + 1) (Nat.le_succ limit)] at held
      cases held
    · have ends := packed.ends before covering held
      rw [wide, Category.slots] at ends
      omega
  · intro index held found
    rw [SortedMap.get?_insert] at found
    split at found
    · rename_i here
      cases found
      rw [here]
    · exact Nat.le_trans (packed.ends index held found) (Nat.le_add_right ..)

inductive Rewritten (locals : SortedMap Nat V) : SortedMap Nat V → Prop
  | kept : Rewritten locals locals
  | written (index : Nat) (value : V) : Rewritten locals (Frame.writeLocals index value locals)

theorem Rewritten.owned {after : SortedMap Nat V} (rewritten : Rewritten locals after)
    (owned : SlotsOwned locals) : SlotsOwned after := by
  cases rewritten with
  | kept => exact owned
  | written index value => exact owned.write index value

theorem writeLocals_insert (index : Nat) (value held : V) (locals : SortedMap Nat V) :
    Frame.writeLocals index value (locals.insert index held) =
      Frame.writeLocals index value locals := by
  apply SortedMap.ext
  intro slot
  rw [Frame.get?_writeLocals, Frame.get?_writeLocals, SortedMap.get?_insert]
  by_cases here : slot = index
  · rw [if_pos here, if_pos here]
  · simp only [if_neg here]

end Locals

def Filled (held : Interval) (slot : Option Interval) : Prop :=
  ∃ value, slot = some value ∧ HasKind.category value = HasKind.category held

theorem JoinedSlot.filled {absent : Kind → Interval} {left right joined : Option Interval}
    (slot : JoinedSlot absent left right joined) {held : Interval}
    (one : left = some held ∨ right = some held) (other : left = none ∨ right = none) :
    Filled held joined := by
  cases slot with
  | both | clash => simp at other
  | left made | right made =>
    obtain rfl : _ = held := by simpa using one
    exact ⟨_, rfl, (Interval.category_union made).1⟩
  | neither => simp at one

/-! ## Steps and joins -/

/-- The action is the first read of a local that overlaps another. -/
def Action.Collides {V : Type} [AbstractValue V] (frame : Frame V) : Action → Prop
  | .perform (.load kind index) =>
    frame.locals.get? index = none ∧ Overlaps kind.category index frame.locals
  | _ => False

namespace Frame

section Steps

variable {V : Type} [AbstractValue V] {frame : Frame V} {index : Nat} {value : V}

theorem locals_load_held (held : frame.locals.get? index = some value) (kind : Kind) :
    (Action.left (.perform (.load kind index)) frame).locals = frame.locals := by
  by_cases category : HasKind.category value = kind.category
  · have ran : Yields (Action.perform (.load kind index)).transition frame () _ :=
      (readLocal_yields held category).bind (push_yields frame value)
    rw [Action.left_of_yields ran]
  · have fails : Fails (Action.perform (.load kind index)).transition frame frame :=
      (readLocal_fails held category).bind
    rw [Action.left_of_fails fails]

theorem locals_load_absent (absent : frame.locals.get? index = none) (kind : Kind) :
    (Action.left (.perform (.load kind index)) frame).locals =
      frame.locals.insert index (frame.factory.localValue index kind) := by
  have ran : Yields (Action.perform (.load kind index)).transition frame () _ :=
    (readLocal_fills absent kind).bind (push_yields _ _)
  rw [Action.left_of_yields ran]
  rfl

theorem rewritten_store (frame : Frame V) (kind : Kind) (index : Nat) :
    Rewritten frame.locals (Action.left (.perform (.store kind index)) frame).locals := by
  cases stack : frame.stack with
  | nil =>
    have fails : Fails (Action.perform (.store kind index)).transition frame frame :=
      (pop_fails stack).bind
    rw [Action.left_of_fails fails]
    exact .kept
  | cons value rest =>
    have popped := pop_yields stack
    by_cases category : HasKind.category value = kind.category
    · have ran : Yields (Action.perform (.store kind index)).transition frame ()
          { frame with stack := rest, locals := writeLocals index value frame.locals } :=
        popped.bind ((checkCategory_yields _ "store" category).bind rfl)
      rw [Action.left_of_yields ran]
      exact .written index value
    · have fails : Fails (Action.perform (.store kind index)).transition frame
          { frame with stack := rest } :=
        popped.fails (checkCategory_fails _ "store" category).bind
      rw [Action.left_of_fails fails]
      exact .kept

theorem rewritten_increment_held (held : frame.locals.get? index = some value) (delta : Int32) :
    Rewritten frame.locals (Action.left (.perform (.increment index delta)) frame).locals := by
  by_cases category : HasKind.category value = Kind.int.category
  · have read := readLocal_yields held category
    cases added : AbstractValue.arithmetic .add .int value (frame.factory.int delta) with
    | ok sum =>
      have ran : Yields (Action.perform (.increment index delta)).transition frame ()
          { frame with locals := writeLocals index sum frame.locals } :=
        read.bind ((Yields.get frame).bind ((compute_yields frame added).bind rfl))
      rw [Action.left_of_yields ran]
      exact .written index sum
    | error error =>
      have fails : Fails (Action.perform (.increment index delta)).transition frame frame :=
        read.fails ((Yields.get frame).fails (compute_fails frame added).bind)
      rw [Action.left_of_fails fails]
      exact .kept
  · have fails : Fails (Action.perform (.increment index delta)).transition frame frame :=
      (readLocal_fails held category).bind
    rw [Action.left_of_fails fails]
    exact .kept

end Steps

variable {seeds : Seeds} {frame a b joined : Frame Interval}

/-- A local that an increment fills in is written at once. -/
theorem rewritten_increment (made : frame.factory = seeds.factory) (index : Nat) (delta : Int32) :
    Rewritten frame.locals (Action.left (.perform (.increment index delta)) frame).locals := by
  cases held : frame.locals.get? index with
  | some value => exact rewritten_increment_held held delta
  | none =>
    have read := readLocal_fills held .int
    rw [made] at read
    obtain ⟨sum, added⟩ := seeds.increment_ok index delta
    let filled := frame.setLocal index (seeds.factory.localValue index .int)
    have step : filled.factory.int delta = seeds.factory.int delta := by rw [← made]; rfl
    have ran : Yields (Action.perform (.increment index delta)).transition frame ()
        { filled with locals := writeLocals index sum filled.locals } :=
      read.bind ((Yields.get filled).bind ((compute_yields filled (step ▸ added)).bind rfl))
    have overwritten : writeLocals index sum filled.locals = writeLocals index sum frame.locals :=
      writeLocals_insert index sum _ frame.locals
    rw [Action.left_of_yields ran]
    exact overwritten ▸ .written index sum

theorem slotsOwned_left_iff (made : frame.factory = seeds.factory)
    (owned : SlotsOwned frame.locals) (action : Action) :
    SlotsOwned (action.left frame).locals ↔ ¬action.Collides frame := by
  by_cases touched : action.Touches .locals
  · cases action with
    | perform effect =>
      cases effect with
      | load kind index =>
        cases held : frame.locals.get? index with
        | some value =>
          rw [locals_load_held held]
          simp [owned, Action.Collides, held]
        | none =>
          rw [locals_load_absent held, slotsOwned_insert_iff owned held, made,
            seeds.category_localValue]
          simp [Action.Collides, held]
      | store kind index => exact iff_of_true ((rewritten_store frame kind index).owned owned) id
      | increment index delta =>
        exact iff_of_true ((rewritten_increment made index delta).owned owned) id
      | _ => cases touched
    | evaluateSwitch => simp [Action.Touches] at touched
    | terminate terminal => cases terminal <;> cases touched
    | _ => cases touched
  · rw [(frame.untouched action).locals touched]
    refine iff_of_true owned fun collides => ?_
    cases action with
    | perform effect =>
      cases effect with
      | load kind index => exact touched rfl
      | _ => exact collides
    | _ => exact collides

theorem slotsOwned_withParameters (made : frame.factory = seeds.factory) {slot : UInt16}
    {kinds : List Kind} (fits : slotAt slot.toNat kinds kinds.length ≤ 65535)
    (packed : Packed slot.toNat frame.locals) :
    SlotsOwned (frame.withParameters slot kinds).1.locals := by
  induction kinds generalizing frame slot with
  | nil => exact packed.owned
  | cons kind rest ih =>
    obtain ⟨next, counted, remaining, placed⟩ := withParameters_cons frame fits
    let value := seeds.factory.localValue slot.toNat kind
    have kept : (frame.setLocal slot.toNat value).factory = seeds.factory := made
    have inserted := packed.insert value
    rw [seeds.category_localValue] at inserted
    rw [placed, made]
    exact ih kept remaining (counted ▸ inserted)

theorem slotsOwned_forMethod (seeds : Seeds) {descriptor : MethodDescriptor} {isStatic : Bool}
    (fits : Enterable descriptor isStatic) :
    SlotsOwned (Frame.forMethod seeds.factory descriptor isStatic).locals := by
  have start : Packed 0 (initial seeds.factory).locals := ⟨slotsOwned_empty, nofun⟩
  have counted := slotAt_length_le fits
  rw [forMethod_eq]
  cases isStatic with
  | true => exact slotsOwned_withParameters rfl counted start
  | false =>
    have receiver := start.insert (seeds.factory.localValue 0 .reference)
    rw [seeds.category_localValue] at receiver
    exact slotsOwned_withParameters rfl counted receiver

theorem slotsOwned_combine_iff (made : a.combine b = .ok joined) (left : SlotsOwned a.locals)
    (right : SlotsOwned b.locals) : SlotsOwned joined.locals ↔
      ¬Crosses a.locals b.locals ∧ ¬Crosses b.locals a.locals := by
  have parts := (joined_of_combine made).locals
  constructor
  · intro owned
    have alone : ∀ {index : Nat} {value next : Interval}, HasKind.category value = Category.two →
        Filled value (joined.locals.get? index) →
        ¬Filled next (joined.locals.get? (index + 1)) := by
      rintro index value next wide ⟨kept, found, category⟩ ⟨_, neighbour, _⟩
      rw [owned index kept found (category.trans wide)] at neighbour
      cases neighbour
    constructor
    · rintro ⟨index, value, next, held, wide, absent, beyond⟩
      exact alone wide ((parts index).filled (.inl held) (.inr absent))
        ((parts (index + 1)).filled (.inr beyond) (.inl (left index value held wide)))
    · rintro ⟨index, value, next, held, wide, absent, beyond⟩
      exact alone wide ((parts index).filled (.inr held) (.inl absent))
        ((parts (index + 1)).filled (.inl beyond) (.inr (right index value held wide)))
  · rintro ⟨apartLeft, apartRight⟩ index value found wide
    have free : a.locals.get? (index + 1) = none ∧ b.locals.get? (index + 1) = none := by
      have here := parts index
      rw [found] at here
      generalize heldLeft : a.locals.get? index = x, heldRight : b.locals.get? index = y at here
      cases here with
      | both _ made =>
        obtain ⟨first, second⟩ := Interval.category_union made
        exact ⟨left index _ heldLeft (first.symm.trans wide),
          right index _ heldRight (second.symm.trans wide)⟩
      | left made =>
        have wide := (Interval.category_union made).1.symm.trans wide
        exact ⟨left index _ heldLeft wide,
          get?_next_of_not_crosses apartLeft heldLeft wide heldRight⟩
      | right made =>
        have wide := (Interval.category_union made).1.symm.trans wide
        exact ⟨get?_next_of_not_crosses apartRight heldRight wide heldLeft,
          right index _ heldRight wide⟩
    have next := parts (index + 1)
    rw [free.1, free.2] at next
    generalize joined.locals.get? (index + 1) = slot at next
    cases next with
    | neither => rfl

/-! ## Machines -/

/-- A machine that enters methods whose slots can be counted, and in which no filled-in local
overlaps another. -/
def undisturbed : Permit Interval where
  enter := Enterable
  step frame action := ¬action.Collides frame
  join left right := ¬Crosses left.locals right.locals ∧ ¬Crosses right.locals left.locals

theorem ReachedBy.owned (reached : ReachedBy undisturbed seeds.factory frame) :
    SlotsOwned frame.locals := by
  induction reached with
  | initial => exact slotsOwned_empty
  | forMethod fits => exact slotsOwned_forMethod seeds fits
  | exhaustive _ ih => exact ih
  | withLooping _ _ ih => exact ih
  | step before apart ih => exact (slotsOwned_left_iff before.factory_eq ih _).mpr apart
  | combine _ _ apart made left right => exact (slotsOwned_combine_iff made left right).mpr apart

/-- A two-slot local owns its second slot as long as no filled-in local overlaps another, and it is
lost in the very step or join where one does. -/
theorem slots_owned_unless_filled (seeds : Seeds) :
    (∀ frame, ReachedBy undisturbed seeds.factory frame → SlotsOwned frame.locals) ∧
    (∀ frame (action : Action), Reachable seeds.factory frame → SlotsOwned frame.locals →
      (SlotsOwned (action.left frame).locals ↔ ¬action.Collides frame)) ∧
    ∀ a b joined : Frame Interval, SlotsOwned a.locals → SlotsOwned b.locals →
      a.combine b = .ok joined →
      (SlotsOwned joined.locals ↔ ¬Crosses a.locals b.locals ∧ ¬Crosses b.locals a.locals) := by
  refine ⟨fun _ => ReachedBy.owned, ?_, ?_⟩
  · intro frame action reachable owned
    exact slotsOwned_left_iff reachable.factory_eq owned action
  · intro a b joined left right made
    exact slotsOwned_combine_iff made left right

/-- A method is entered with a long and an int, and the second slot of the long is written. The long
is lost, and it must not be read again. -/
theorem slots_owned_unless_filled_entered :
    let factory := Seeds.empty.factory
    let entered := Frame.forMethod factory ⟨[.long, .int], none⟩ true
    let pushed := Action.left (.perform (.push (.int 7))) entered
    let written := Action.left (.perform (.store .int 1)) pushed
    entered.locals = .ofList [(0, .top .long), (2, .top .int)] ∧
      written.locals = .ofList [(1, .integral .int (.singleton 7)), (2, .top .int)] ∧
      ReachedBy undisturbed factory written ∧ SlotsOwned written.locals ∧
      SlotsOwned (Action.left (.perform (.load .int 0)) written).locals ∧
      ¬SlotsOwned (Action.left (.perform (.load .long 0)) written).locals := by
  intro factory entered pushed written
  obtain ⟨owned, steps, _⟩ := slots_owned_unless_filled .empty
  have fits : Enterable ⟨[.long, .int], none⟩ true := by decide
  have reached : ReachedBy undisturbed factory written := .step (.step (.forMethod fits) id) id
  have reachable := reached.reachable
  have start := owned written reached
  refine ⟨rfl, rfl, reached, start, ?_, ?_⟩
  · refine (steps written _ reachable start).mpr ?_
    rintro ⟨_, ⟨wide, _⟩ | ⟨before, _, none, _⟩⟩
    · cases wide
    · cases none
  · intro after
    refine (steps written _ reachable start).mp after ⟨rfl, .inl ⟨rfl, _, rfl⟩⟩

/-- The second slot of a long is taken by the first read of an int there, and by a join with a frame
that holds an int there. -/
theorem second_slot_taken :
    let factory := Seeds.empty.factory
    ∃ loaded joined : Frame Interval, Reachable factory loaded ∧ Reachable factory joined ∧
      loaded.locals = .ofList [(0, .integral .long (.singleton 9)), (1, .top .int)] ∧
      joined.locals = .ofList [(0, .top .long), (1, .top .int)] ∧
      ¬SlotsOwned loaded.locals ∧ ¬SlotsOwned joined.locals := by
  intro factory
  let long : Frame Interval := stored factory (.integral .long (.singleton 9))
  have reachable : Reachable factory long :=
    reachable_stored .long (rfl : literalValue factory (.long 9) = _) rfl
  let pushed := Action.left (.perform (.push (.int 7))) (initial factory)
  let int := Action.left (.perform (.store .int 1)) pushed
  have beside : Reachable factory int := .step _ (.step _ .initial)
  have made : long.combine int = .ok { initial factory with
      locals := .ofList [(0, .top .long), (1, .top .int)] } := rfl
  refine ⟨_, _, .step (.perform (.load .int 1)) reachable, .combine reachable beside made, rfl, rfl,
    ?_, ?_⟩
  · intro owned
    cases owned 0 _ rfl rfl
  · intro owned
    cases owned 0 _ rfl rfl

end Frame

end MethodFlow

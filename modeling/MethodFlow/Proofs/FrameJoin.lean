import MethodFlow.Frame.Join
import MethodFlow.Proofs.Failure
import MethodFlow.Proofs.SortedContainers

/-! What a joined frame is made of: every part of it comes from the same parts of the frames that
were joined, slot by slot. Nothing here depends on what a value is. -/
namespace MethodFlow

variable {V : Type}

def SortedMap.keep {κ : Type} [Ord κ] [Std.TransOrd κ] (map : SortedMap κ V) (key : κ) :
    Option V → SortedMap κ V
  | some value => map.insert key value
  | none => map

theorem SortedMap.get?_keep {κ : Type} [Ord κ] [Std.TransOrd κ] [Std.LawfulEqOrd κ] [DecidableEq κ]
    (map : SortedMap κ V) (key other : κ) (value : Option V) :
    (map.keep key value).get? other = if other = key then value.or (map.get? key)
      else map.get? other := by
  cases value with
  | none =>
    by_cases same : other = key
    · simp [keep, same]
    · simp [keep, same]
  | some value => simp [keep]

section Slots

variable {κ : Type} [Ord κ] [Std.TransOrd κ]

theorem get?_foldlM_keep [Std.LawfulEqOrd κ] [DecidableEq κ] {ε : Type}
    {slot : κ → Except ε (Option V)} {keys : List κ} {start joined : SortedMap κ V}
    (made : keys.foldlM (fun map key => map.keep key <$> slot key) start = .ok joined) (key : κ)
    (fresh : start.get? key = none ∨ slot key = .ok (start.get? key)) :
    if key ∈ keys then slot key = .ok (joined.get? key) else joined.get? key = start.get? key := by
  induction keys generalizing start with
  | nil =>
    cases made
    simp
  | cons head rest ih =>
    rw [List.foldlM_cons, bind_eq_ok] at made
    obtain ⟨next, kept, made⟩ := made
    obtain ⟨value, computed, rfl⟩ := map_eq_ok.mp kept
    have found := start.get?_keep head key value
    by_cases same : key = head
    · -- a key that is listed again finds its slot as it was computed before
      have settled : slot key = .ok ((start.keep head value).get? key) := by
        rw [found, if_pos same, same, computed]
        rcases same ▸ fresh with none | before
        · rw [none, Option.or_none]
        · rw [computed, Except.ok.injEq] at before
          rw [← before, Option.or_self]
      have later := ih made (.inr settled)
      rw [if_pos (by simp [same])]
      by_cases again : key ∈ rest
      · rwa [if_pos again] at later
      · rw [if_neg again] at later
        rw [settled, later]
    · rw [if_neg same] at found
      have later := ih made (found ▸ fresh)
      simpa [same, found] using later

theorem foldlM_keep_ok {ε : Type} {slot : κ → Except ε (Option V)} {keys : List κ}
    (computed : ∀ key ∈ keys, ∃ value, slot key = .ok value) (start : SortedMap κ V) :
    ∃ joined, keys.foldlM (fun map key => map.keep key <$> slot key) start = .ok joined := by
  induction keys generalizing start with
  | nil => exact ⟨start, rfl⟩
  | cons head rest ih =>
    obtain ⟨value, here⟩ := computed head List.mem_cons_self
    obtain ⟨joined, made⟩ := ih (fun key member => computed key (List.mem_cons_of_mem _ member))
      (start.keep head value)
    refine ⟨joined, ?_⟩
    rw [List.foldlM_cons, here]
    exact made

variable [AbstractValue V]

theorem joinSlots_eq (absent : κ → Kind → V) (left right : SortedMap κ V) :
    joinSlots absent left right =
      (SortedSet.ofList (left.keys ++ right.keys)).toList.foldlM
        (fun map key => map.keep key <$> joinSlot (absent key) (left.get? key) (right.get? key))
        .empty := by
  unfold joinSlots
  congr
  funext map key
  generalize joinSlot (absent key) (left.get? key) (right.get? key) = slot
  cases slot with
  | error => rfl
  | ok value => cases value <;> rfl

/-- Joined maps hold at every key the join of what the two maps hold there. -/
theorem get?_joinSlots [Std.LawfulEqOrd κ] [DecidableEq κ] {absent : κ → Kind → V}
    {left right joined : SortedMap κ V}
    (made : joinSlots absent left right = .ok joined) (key : κ) :
    joinSlot (absent key) (left.get? key) (right.get? key) = .ok (joined.get? key) := by
  rw [joinSlots_eq] at made
  have slot := get?_foldlM_keep made key (.inl rfl)
  by_cases member : key ∈ (SortedSet.ofList (left.keys ++ right.keys)).toList
  · rwa [if_pos member] at slot
  · -- a key of neither map is in no slot of the join
    rw [if_neg member] at slot
    simp only [SortedSet.mem_ofList, List.mem_append, SortedMap.mem_keys_iff, not_or,
      not_exists] at member
    rw [slot, Option.eq_none_iff_forall_ne_some.mpr member.1,
      Option.eq_none_iff_forall_ne_some.mpr member.2]
    rfl

theorem joinSlots_ok {absent : κ → Kind → V} {left right : SortedMap κ V}
    (joins : ∀ key, ∃ value,
      joinSlot (absent key) (left.get? key) (right.get? key) = .ok value) :
    ∃ joined, joinSlots absent left right = .ok joined := by
  rw [joinSlots_eq]
  exact foldlM_keep_ok (fun key _ => joins key) .empty

end Slots

variable [AbstractValue V]

open AbstractValue

/-- How the values of one slot are joined: both of them, one with what the factory makes of its
kind, or none if they do not go together. -/
inductive JoinedSlot (absent : Kind → V) : Option V → Option V → Option V → Prop
  | both {a b joined : V}
      (compatible : (HasKind.kind a).compatible (HasKind.kind b) = true)
      (made : union a b = .ok joined) : JoinedSlot absent (some a) (some b) (some joined)
  | clash {a b : V} (clash : (HasKind.kind a).compatible (HasKind.kind b) = false) :
      JoinedSlot absent (some a) (some b) none
  | left {a joined : V} (made : union a (absent (HasKind.kind a)) = .ok joined) :
      JoinedSlot absent (some a) none (some joined)
  | right {b joined : V} (made : union b (absent (HasKind.kind b)) = .ok joined) :
      JoinedSlot absent none (some b) (some joined)
  | neither : JoinedSlot absent none none none

theorem joinSlot_eq_ok {absent : Kind → V} {left right joined : Option V} :
    joinSlot absent left right = .ok joined ↔ JoinedSlot absent left right joined := by
  constructor
  · intro made
    cases left with
    | none =>
      cases right with
      | none => cases made; exact .neither
      | some b =>
        obtain ⟨value, united, rfl⟩ := map_eq_ok.mp made
        exact .right united
    | some a =>
      cases right with
      | none =>
        obtain ⟨value, united, rfl⟩ := map_eq_ok.mp made
        exact .left united
      | some b =>
        by_cases compatible : (HasKind.kind a).compatible (HasKind.kind b) = true
        · rw [joinSlot, if_pos compatible] at made
          obtain ⟨value, united, rfl⟩ := map_eq_ok.mp made
          exact .both compatible united
        · rw [joinSlot, if_neg compatible] at made
          cases made
          exact .clash (Bool.eq_false_iff.mpr compatible)
  · intro slot
    cases slot with
    | both compatible made =>
      rw [joinSlot, if_pos compatible, made]
      rfl
    | clash clash => simp [joinSlot, clash]
    | left made | right made =>
      rw [joinSlot, made]
      rfl
    | neither => rfl

theorem JoinedSlot.unique {absent : Kind → V} {left right x y : Option V}
    (first : JoinedSlot absent left right x) (second : JoinedSlot absent left right y) : x = y :=
  Except.ok.inj ((joinSlot_eq_ok.mpr first).symm.trans (joinSlot_eq_ok.mpr second))

inductive JoinedResult : Option V → Option V → Option V → Prop
  | both {a b joined : V} (made : union a b = .ok joined) :
      JoinedResult (some a) (some b) (some joined)
  | left {a : V} : JoinedResult (some a) none (some a)
  | right {b : V} : JoinedResult none (some b) (some b)
  | neither : JoinedResult none none none

theorem joinResult_eq_ok {left right joined : Option V} :
    joinResult left right = .ok joined ↔ JoinedResult left right joined := by
  constructor
  · intro made
    cases left with
    | none =>
      cases right with
      | none => cases made; exact .neither
      | some b => cases made; exact .right
    | some a =>
      cases right with
      | none => cases made; exact .left
      | some b =>
        obtain ⟨value, united, rfl⟩ := map_eq_ok.mp made
        exact .both united
  · intro result
    cases result with
    | both made =>
      rw [joinResult, made]
      rfl
    | left | right | neither => rfl

theorem JoinedResult.unique {left right x y : Option V} (first : JoinedResult left right x)
    (second : JoinedResult left right y) : x = y :=
  Except.ok.inj ((joinResult_eq_ok.mpr first).symm.trans (joinResult_eq_ok.mpr second))

inductive JoinedStack : OperandStack V → OperandStack V → OperandStack V → Prop
  | nil : JoinedStack [] [] []
  | cons {a b value : V} {left right joined : OperandStack V} (made : union a b = .ok value)
      (rest : JoinedStack left right joined) :
      JoinedStack (a :: left) (b :: right) (value :: joined)

theorem JoinedStack.depth {left right joined : OperandStack V}
    (stack : JoinedStack left right joined) : left.length = right.length := by
  induction stack with
  | nil => rfl
  | cons _ _ ih => exact congrArg Nat.succ ih

theorem joinedStack_iff {left right joined : OperandStack V} (depth : left.length = right.length) :
    List.Forall₂ (fun (pair : V × V) value => union pair.1 pair.2 = .ok value)
      (left.zip right) joined ↔ JoinedStack left right joined := by
  constructor
  · intro related
    induction left generalizing right joined with
    | nil =>
      obtain rfl : right = [] := List.length_eq_zero_iff.mp depth.symm
      cases related
      exact .nil
    | cons a left ih =>
      cases right with
      | nil => cases depth
      | cons b right =>
        cases related with
        | cons made rest => exact .cons made (ih (Nat.succ.inj depth) rest)
  · intro stack
    clear depth
    induction stack with
    | nil => exact .nil
    | cons made _ ih => exact .cons made ih

theorem joinStacks_eq_ok {left right joined : OperandStack V} (depth : left.length = right.length) :
    joinStacks left right = .ok joined ↔ JoinedStack left right joined := by
  have zipped : left.reverse.zip right.reverse = (left.zip right).reverse :=
    (List.reverse_zipWith depth).symm
  rw [joinStacks, bind_eq_ok, zipped, ← joinedStack_iff depth, ← List.forall₂_reverse_iff]
  simp only [mapM_eq_ok]
  constructor
  · rintro ⟨reversed, related, same⟩
    cases same
    rwa [List.reverse_reverse]
  · intro related
    exact ⟨joined.reverse, related, by rw [List.reverse_reverse]; rfl⟩

namespace Frame

/-- What the join of two frames is, part by part. -/
structure Joined (a b joined : Frame V) : Prop where
  factory : joined.factory = a.factory
  stack : JoinedStack a.stack b.stack joined.stack
  locals (index : Nat) : JoinedSlot (a.factory.localValue index) (a.locals.get? index)
    (b.locals.get? index) (joined.locals.get? index)
  statics (key : String) : JoinedSlot (a.factory.staticValue key) (a.statics.get? key)
    (b.statics.get? key) (joined.statics.get? key)
  fields (key : String) : JoinedSlot a.factory.unconstrained (a.fields.get? key)
    (b.fields.get? key) (joined.fields.get? key)
  flags : joined.flags = a.flags.join b.flags
  evaluateAll : joined.evaluateAll = (a.evaluateAll || b.evaluateAll)
  loopingValid : joined.loopingValid = (a.loopingValid || b.loopingValid)
  candidates : joined.candidates = (SortedSet.ofList (a.candidates ++ b.candidates)).toList
  returnValue : JoinedResult a.returnValue b.returnValue joined.returnValue
  thrown : JoinedResult a.thrown b.thrown joined.thrown

theorem combine_depth {a b joined : Frame V} (made : a.combine b = .ok joined) :
    a.stack.length = b.stack.length := by
  by_contra deeper
  rw [combine, if_neg deeper] at made
  cases made

theorem joined_of_combine {a b joined : Frame V} (made : a.combine b = .ok joined) :
    Joined a b joined := by
  have depth := combine_depth made
  rw [combine, if_pos depth] at made
  split at made
  · rename_i frame joins
    cases made
    obtain ⟨stack, joinedStack, joins⟩ := bind_eq_ok.mp joins
    obtain ⟨locals, joinedLocals, joins⟩ := bind_eq_ok.mp joins
    obtain ⟨statics, joinedStatics, joins⟩ := bind_eq_ok.mp joins
    obtain ⟨fields, joinedFields, joins⟩ := bind_eq_ok.mp joins
    obtain ⟨returnValue, joinedReturn, joins⟩ := bind_eq_ok.mp joins
    obtain ⟨thrown, joinedThrown, joins⟩ := bind_eq_ok.mp joins
    cases joins
    exact {
      factory := rfl
      stack := (joinStacks_eq_ok depth).mp joinedStack
      locals := fun index => joinSlot_eq_ok.mp (get?_joinSlots joinedLocals index)
      statics := fun key => joinSlot_eq_ok.mp (get?_joinSlots joinedStatics key)
      fields := fun key => joinSlot_eq_ok.mp (get?_joinSlots joinedFields key)
      flags := rfl
      evaluateAll := rfl
      loopingValid := rfl
      candidates := rfl
      returnValue := joinResult_eq_ok.mp joinedReturn
      thrown := joinResult_eq_ok.mp joinedThrown }
  · cases made

theorem combine_ok {a b : Frame V} {stack : OperandStack V} {returnValue thrown : Option V}
    (joinedStack : JoinedStack a.stack b.stack stack)
    (locals : ∀ index, ∃ value, JoinedSlot (a.factory.localValue index) (a.locals.get? index)
      (b.locals.get? index) value)
    (statics : ∀ key, ∃ value, JoinedSlot (a.factory.staticValue key) (a.statics.get? key)
      (b.statics.get? key) value)
    (fields : ∀ key, ∃ value, JoinedSlot a.factory.unconstrained (a.fields.get? key)
      (b.fields.get? key) value)
    (joinedReturn : JoinedResult a.returnValue b.returnValue returnValue)
    (joinedThrown : JoinedResult a.thrown b.thrown thrown) :
    ∃ joined, a.combine b = .ok joined := by
  have depth := joinedStack.depth
  simp only [← joinSlot_eq_ok] at locals statics fields
  obtain ⟨newLocals, madeLocals⟩ := joinSlots_ok locals
  obtain ⟨newStatics, madeStatics⟩ := joinSlots_ok statics
  obtain ⟨newFields, madeFields⟩ := joinSlots_ok fields
  rw [combine, if_pos depth, joinWith, (joinStacks_eq_ok depth).mpr joinedStack, madeLocals,
    madeStatics, madeFields, joinResult_eq_ok.mpr joinedReturn, joinResult_eq_ok.mpr joinedThrown]
  exact ⟨_, rfl⟩

theorem Joined.unique {a b x y : Frame V} (first : Joined a b x) (second : Joined a b y) :
    x = y := by
  have depth := first.stack.depth
  have stack : x.stack = y.stack := Except.ok.inj <|
    ((joinStacks_eq_ok depth).mpr first.stack).symm.trans
      ((joinStacks_eq_ok depth).mpr second.stack)
  have locals : x.locals = y.locals :=
    SortedMap.ext fun index => (first.locals index).unique (second.locals index)
  have statics : x.statics = y.statics :=
    SortedMap.ext fun key => (first.statics key).unique (second.statics key)
  have fields : x.fields = y.fields :=
    SortedMap.ext fun key => (first.fields key).unique (second.fields key)
  have factory := first.factory.trans second.factory.symm
  have flags := first.flags.trans second.flags.symm
  have evaluateAll := first.evaluateAll.trans second.evaluateAll.symm
  have loopingValid := first.loopingValid.trans second.loopingValid.symm
  have candidates := first.candidates.trans second.candidates.symm
  have returnValue := first.returnValue.unique second.returnValue
  have thrown := first.thrown.unique second.thrown
  cases x
  cases y
  simp only [Frame.mk.injEq]
  exact ⟨factory, stack, locals, fields, statics, flags, evaluateAll, loopingValid, candidates,
    returnValue, thrown⟩

theorem combine_eq_ok {a b joined : Frame V} : a.combine b = .ok joined ↔ Joined a b joined := by
  refine ⟨joined_of_combine, fun parts => ?_⟩
  obtain ⟨other, made⟩ := combine_ok parts.stack (fun index => ⟨_, parts.locals index⟩)
    (fun key => ⟨_, parts.statics key⟩) (fun key => ⟨_, parts.fields key⟩) parts.returnValue
    parts.thrown
  rw [made, (joined_of_combine made).unique parts]

end Frame

end MethodFlow

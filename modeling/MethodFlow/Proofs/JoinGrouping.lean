import MethodFlow.Proofs.JoinCovers

/-! Joins of three frames, grouped from the left or from the right. A join is determined by the set
of values that went into it. Grouping matters only for a slot that is forgotten or filled in, since
then the two ways may fill in different values. -/
namespace MethodFlow

/-! ## Joins of several values -/

namespace Interval

/-- The join of several values is their least upper bound, and it is of a kind other than int only
if all of them are. -/
structure JoinOf (members : List Interval) (joined : Interval) : Prop where
  bound (c : Interval) : c.Covers joined ↔ ∀ m ∈ members, c.Covers m
  kind {kind : Kind} (other : kind ≠ .int) : joined.kind = kind ↔ ∀ m ∈ members, m.kind = kind

variable {ms ns : List Interval} {a b joined : Interval}

theorem joinOf_singleton (a : Interval) : JoinOf [a] a := by
  constructor <;> simp

theorem JoinOf.union (left : JoinOf ms a) (right : JoinOf ns b) (made : a.union b = .ok joined) :
    JoinOf (ms ++ ns) joined where
  bound c := by rw [covers_union made, left.bound, right.bound, List.forall_mem_append]
  kind := by
    intro kind other
    rw [List.forall_mem_append, ← left.kind other, ← right.kind other, kind_union made]
    by_cases same : a.kind = b.kind
    · simp [same]
    · rw [if_neg same]
      constructor
      · intro int
        exact absurd int.symm other
      · rintro ⟨first, second⟩
        exact absurd (first.trans second.symm) same

theorem JoinOf.beq (left : JoinOf ms a) (right : JoinOf ns b) (same : ∀ m, m ∈ ms ↔ m ∈ ns) :
    (a == b) = true := by
  have bounds : ∀ c : Interval, c.Covers a ↔ c.Covers b := by
    intro c
    simp only [left.bound, right.bound, same]
  have kinds : ∀ kind : Kind, kind ≠ .int → (a.kind = kind ↔ b.kind = kind) := by
    intro kind other
    simp only [left.kind other, right.kind other, same]
  refine beq_iff_covers.mpr ⟨?_, (bounds a).mp (covers_refl a), (bounds b).mpr (covers_refl b)⟩
  by_cases int : a.kind = .int
  · by_contra different
    have other : b.kind ≠ .int := fun int' => different (int.trans int'.symm)
    exact different ((kinds b.kind other).mpr rfl)
  · exact ((kinds a.kind int).mp rfl).symm

theorem union_assoc {c ab bc left right : Interval} (first : a.union b = .ok ab)
    (leftward : ab.union c = .ok left) (second : b.union c = .ok bc)
    (rightward : a.union bc = .ok right) : (left == right) = true := by
  have ha := joinOf_singleton a
  have hb := joinOf_singleton b
  have hc := joinOf_singleton c
  refine ((ha.union hb first).union hc leftward).beq (ha.union (hb.union hc second) rightward) ?_
  intro m
  rw [List.append_assoc]

theorem beq_refl (a : Interval) : (a == a) = true :=
  (joinOf_singleton a).beq (joinOf_singleton a) fun _ => Iff.rfl

def HeldJoin (ms : List Interval) : Option Interval → Prop
  | none => ms = []
  | some joined => ms ≠ [] ∧ JoinOf ms joined

theorem heldJoin_toList (x : Option Interval) : HeldJoin x.toList x := by
  cases x with
  | none => rfl
  | some a => exact ⟨List.cons_ne_nil a [], joinOf_singleton a⟩

theorem HeldJoin.rel {x y : Option Interval} (left : HeldJoin ms x) (right : HeldJoin ns y)
    (same : ∀ m, m ∈ ms ↔ m ∈ ns) : Option.Rel (fun a b => (a == b) = true) x y := by
  have empty : ms = [] ↔ ns = [] := by
    simp only [List.eq_nil_iff_forall_not_mem, same]
  cases x with
  | none =>
    cases y with
    | none => exact .none
    | some b => exact absurd (empty.mp left) right.1
  | some a =>
    cases y with
    | none => exact absurd (empty.mpr right) left.1
    | some b => exact .some (left.2.beq right.2 same)

theorem HeldJoin.covers {y : Option Interval} (left : HeldJoin ms (some a)) (right : HeldJoin ns y)
    (subset : ∀ m ∈ ms, m ∈ ns) : ∃ b ∈ y, b.Covers a := by
  obtain ⟨nonempty, joinLeft⟩ := left
  cases y with
  | none =>
    obtain rfl : ns = [] := right
    exact absurd (List.eq_nil_iff_forall_not_mem.mpr fun m member => nomatch subset m member)
      nonempty
  | some b =>
    have above := (right.2.bound b).mp (covers_refl b)
    exact ⟨b, rfl, (joinLeft.bound b).mpr fun m member => above m (subset m member)⟩

end Interval

open MethodFlow.Interval

section Results

variable {ms ns : List Interval} {a b c ab bc left right : Option Interval}

theorem JoinedResult.heldJoin (result : JoinedResult a b ab) (holdsLeft : HeldJoin ms a)
    (holdsRight : HeldJoin ns b) : HeldJoin (ms ++ ns) ab := by
  cases result with
  | both made =>
    exact ⟨List.append_ne_nil_of_left_ne_nil holdsLeft.1 ns, holdsLeft.2.union holdsRight.2 made⟩
  | left =>
    obtain rfl : ns = [] := holdsRight
    rwa [List.append_nil]
  | right =>
    obtain rfl : ms = [] := holdsLeft
    exact holdsRight
  | neither =>
    obtain rfl : ms = [] := holdsLeft
    exact holdsRight

theorem JoinedResult.assoc (first : JoinedResult a b ab) (leftward : JoinedResult ab c left)
    (second : JoinedResult b c bc) (rightward : JoinedResult a bc right) :
    Option.Rel (fun x y => (x == y) = true) left right := by
  have ha := heldJoin_toList a
  have hb := heldJoin_toList b
  have hc := heldJoin_toList c
  refine (leftward.heldJoin (first.heldJoin ha hb) hc).rel
    (rightward.heldJoin ha (second.heldJoin hb hc)) ?_
  intro m
  rw [List.append_assoc]

end Results

theorem JoinedStack.assoc {a b c ab bc left right : OperandStack Interval}
    (first : JoinedStack a b ab) (leftward : JoinedStack ab c left) (second : JoinedStack b c bc)
    (rightward : JoinedStack a bc right) :
    List.Forall₂ (fun x y => (x == y) = true) left right := by
  induction first generalizing c bc left right with
  | nil =>
    cases leftward
    cases rightward
    exact .nil
  | @cons a b ab _ _ _ made _ ih =>
    cases leftward with
    | @cons _ c left _ _ _ madeLeft leftward =>
      cases second with
      | @cons _ _ bc _ _ _ madeSecond second =>
        cases rightward with
        | @cons _ _ right _ _ _ madeRight rightward =>
          refine .cons ?_ (ih leftward second rightward)
          exact union_assoc made madeLeft madeSecond madeRight

/-! ## Slots that are filled in alike -/

namespace Seeds

/-- The value is joined with the given one where it is missing on the other side, and so are all
joins of such values. -/
inductive Settles (seed : Option Interval) (filler : Interval) : Interval → Prop
  | seeded {value : Interval} (found : seed = some filler)
      (fits : filler.kind.compatible value.kind = true) : Settles seed filler value
  | unseeded {value : Interval} (unfit : ¬Fits seed value.kind) (all : filler = .top value.kind) :
      Settles seed filler value

variable {seed : Option Interval} {filler a b joined : Interval}

theorem settles_value (seed : Option Interval) (a : Interval) :
    Settles seed (value seed a.kind) a := by
  by_cases fits : Fits seed a.kind
  · obtain ⟨filler, rfl, fits⟩ := fits
    rw [value, if_pos fits]
    exact .seeded rfl fits
  · exact .unseeded fits (value_of_not_fits fits)

namespace Settles

theorem value_eq (settles : Settles seed filler a) : value seed a.kind = filler := by
  cases settles with
  | seeded found fits => rw [found]; exact if_pos fits
  | unseeded unfit all => rw [value_of_not_fits unfit, all]

theorem compatible (settles : Settles seed filler a) : filler.kind.compatible a.kind = true := by
  cases settles with
  | seeded _ fits => exact fits
  | unseeded _ all =>
    rw [all, kind_top]
    exact Kind.compatible_refl _

theorem self (settles : Settles seed filler a) : Settles seed filler filler := by
  cases settles with
  | seeded found _ => exact .seeded found (Kind.compatible_refl _)
  | unseeded unfit all =>
    have kind : filler.kind = a.kind := by rw [all, kind_top]
    exact .unseeded (kind ▸ unfit) (kind ▸ all)

theorem union (left : Settles seed filler a) (right : Settles seed filler b)
    (made : a.union b = .ok joined) : Settles seed filler joined := by
  cases left with
  | seeded found fits =>
    exact .seeded found
      (Kind.compatible_trans fits (Kind.compatible_symm (union_covers made).1.compatible))
  | unseeded unfit all =>
    have kind : filler.kind = a.kind := by rw [all, kind_top]
    cases right with
    | seeded found fits => exact absurd ⟨filler, found, kind ▸ Kind.compatible_refl _⟩ unfit
    | unseeded _ all' =>
      have same : a.kind = b.kind := by rw [← kind, all', kind_top]
      have result : joined.kind = a.kind := by rw [kind_union made, if_pos same]
      exact .unseeded (result ▸ unfit) (result ▸ all)

end Settles

end Seeds

/-- The values that go into the join of a slot: one that is missing is filled in, if the other side
holds one. -/
def slotMembers (filler : Interval) : List Interval → List Interval → List Interval
  | [], [] => []
  | [], ns => ns ++ [filler]
  | ms, [] => ms ++ [filler]
  | ms, ns => ms ++ ns

theorem mem_slotMembers_assoc (filler : Interval) (ms ns os : List Interval) (m : Interval) :
    m ∈ slotMembers filler (slotMembers filler ms ns) os ↔
      m ∈ slotMembers filler ms (slotMembers filler ns os) := by
  cases ms <;> cases ns <;> cases os <;> simp [slotMembers, or_comm, or_left_comm]

structure SlotJoin (seed : Option Interval) (filler : Interval) (ms : List Interval)
    (held : Option Interval) : Prop where
  join : HeldJoin ms held
  settles {value : Interval} : held = some value → Seeds.Settles seed filler value

section Slots

variable {seed : Option Interval} {filler : Interval} {ms ns : List Interval}
  {a b c ab bc left right : Option Interval}

theorem slotJoin_toList (settles : ∀ {value}, a = some value → Seeds.Settles seed filler value) :
    SlotJoin seed filler a.toList a := ⟨heldJoin_toList a, settles⟩

theorem SlotJoin.filled {only joined : Interval} (holds : SlotJoin seed filler ms (some only))
    (made : only.union (Seeds.value seed only.kind) = .ok joined) :
    SlotJoin seed filler (ms ++ [filler]) (some joined) := by
  obtain ⟨⟨nonempty, join⟩, settles⟩ := holds
  have settles := settles rfl
  rw [settles.value_eq] at made
  constructor
  · exact ⟨List.append_ne_nil_of_left_ne_nil nonempty _, join.union (joinOf_singleton filler) made⟩
  · rintro _ ⟨⟩
    exact settles.union settles.self made

theorem JoinedSlot.slotJoin (slot : JoinedSlot (Seeds.value seed) a b ab)
    (holdsLeft : SlotJoin seed filler ms a) (holdsRight : SlotJoin seed filler ns b) :
    SlotJoin seed filler (slotMembers filler ms ns) ab := by
  cases slot with
  | both _ made =>
    obtain ⟨⟨nonempty, joinLeft⟩, settlesLeft⟩ := holdsLeft
    obtain ⟨⟨nonempty', joinRight⟩, settlesRight⟩ := holdsRight
    have members : slotMembers filler ms ns = ms ++ ns := by
      cases ms <;> cases ns <;> first | rfl | contradiction
    rw [members]
    constructor
    · exact ⟨List.append_ne_nil_of_left_ne_nil nonempty ns, joinLeft.union joinRight made⟩
    · rintro _ ⟨⟩
      exact (settlesLeft rfl).union (settlesRight rfl) made
  | clash clash =>
    have first := (holdsLeft.settles rfl).compatible
    have second := (holdsRight.settles rfl).compatible
    cases clash.symm.trans (Kind.compatible_trans (Kind.compatible_symm first) second)
  | left made =>
    obtain rfl : ns = [] := holdsRight.join
    have members : slotMembers filler ms [] = ms ++ [filler] := by
      have nonempty := holdsLeft.join.1
      cases ms <;> first | rfl | contradiction
    exact members ▸ holdsLeft.filled made
  | right made =>
    obtain rfl : ms = [] := holdsLeft.join
    have members : slotMembers filler [] ns = ns ++ [filler] := by
      have nonempty := holdsRight.join.1
      cases ns <;> first | rfl | contradiction
    exact members ▸ holdsRight.filled made
  | neither =>
    obtain rfl : ms = [] := holdsLeft.join
    obtain rfl : ns = [] := holdsRight.join
    exact ⟨rfl, nofun⟩

/-- A slot whose held values are all filled in alike is joined alike in both groupings. -/
theorem JoinedSlot.assoc_of_settles (filler : Interval)
    (settles : ∀ value ∈ a.toList ++ b.toList ++ c.toList, Seeds.Settles seed filler value)
    (first : JoinedSlot (Seeds.value seed) a b ab)
    (leftward : JoinedSlot (Seeds.value seed) ab c left)
    (second : JoinedSlot (Seeds.value seed) b c bc)
    (rightward : JoinedSlot (Seeds.value seed) a bc right) :
    Option.Rel (fun x y => (x == y) = true) left right := by
  have ha : SlotJoin seed filler a.toList a :=
    slotJoin_toList fun found => settles _ (by simp [found])
  have hb : SlotJoin seed filler b.toList b :=
    slotJoin_toList fun found => settles _ (by simp [found])
  have hc : SlotJoin seed filler c.toList c :=
    slotJoin_toList fun found => settles _ (by simp [found])
  exact (leftward.slotJoin (first.slotJoin ha hb) hc).join.rel
    (rightward.slotJoin ha (second.slotJoin hb hc)).join
    (mem_slotMembers_assoc filler a.toList b.toList c.toList)

end Slots

/-! ## Three values for one slot -/

section Clashes

variable {absent : Kind → Interval} {a b : Interval} {joined : Option Interval}

theorem JoinedSlot.united (slot : JoinedSlot absent (some a) (some b) joined)
    (compatible : a.kind.compatible b.kind = true) :
    ∃ value, joined = some value ∧ a.union b = .ok value := by
  cases slot with
  | both _ made => exact ⟨_, rfl, made⟩
  | clash clash => cases clash.symm.trans compatible

theorem JoinedSlot.dropped (slot : JoinedSlot absent (some a) (some b) joined)
    (clash : ¬a.kind.compatible b.kind = true) : joined = none := by
  cases slot with
  | both compatible _ => exact absurd compatible clash
  | clash => rfl

theorem JoinedSlot.kept_left (slot : JoinedSlot absent (some a) none joined) :
    ∃ value, joined = some value ∧ value.kind.compatible a.kind = true := by
  cases slot with
  | left made => exact ⟨_, rfl, (union_covers made).1.compatible⟩

theorem JoinedSlot.kept_right (slot : JoinedSlot absent none (some b) joined) :
    ∃ value, joined = some value ∧ value.kind.compatible b.kind = true := by
  cases slot with
  | right made => exact ⟨_, rfl, (union_covers made).1.compatible⟩

end Clashes

/-- Grouping does not matter for a slot that three frames hold so. If all hold it, nothing may
clash. If one of them lacks it, what is filled in for it must not depend on which of the two values
it meets first, which it does if one of them is of a narrower kind than the other. -/
def Concordant (seed : Option Interval) :
    Option Interval → Option Interval → Option Interval → Prop
  | some a, some b, some c =>
    a.kind.compatible b.kind = true ∧ b.kind.compatible c.kind = true
  | some a, some b, none | some a, none, some b | none, some a, some b =>
    a.kind.compatible b.kind = false ∨ a.kind = b.kind ∨ Seeds.Fits seed a.kind
  | _, _, _ => True

theorem settles_both {seed : Option Interval} {a b : Interval}
    (compatible : a.kind.compatible b.kind = true)
    (alike : a.kind = b.kind ∨ Seeds.Fits seed a.kind) :
    Seeds.Settles seed (Seeds.value seed a.kind) a ∧
      Seeds.Settles seed (Seeds.value seed a.kind) b := by
  refine ⟨Seeds.settles_value seed a, ?_⟩
  have same : Seeds.value seed a.kind = Seeds.value seed b.kind := by
    rcases alike with kinds | fits
    · rw [kinds]
    · exact Seeds.value_of_fits fits compatible
  rw [same]
  exact Seeds.settles_value seed b

section Grouping

variable {seed : Option Interval} {a b c ab bc left right : Option Interval}

theorem JoinedSlot.assoc_of_all {u v w : Interval} (uv : u.kind.compatible v.kind = true)
    (vw : v.kind.compatible w.kind = true)
    (first : JoinedSlot (Seeds.value seed) (some u) (some v) ab)
    (leftward : JoinedSlot (Seeds.value seed) ab (some w) left)
    (second : JoinedSlot (Seeds.value seed) (some v) (some w) bc)
    (rightward : JoinedSlot (Seeds.value seed) (some u) bc right) :
    Option.Rel (fun x y => (x == y) = true) left right := by
  obtain ⟨ab, rfl, madeFirst⟩ := first.united uv
  obtain ⟨bc, rfl, madeSecond⟩ := second.united vw
  have abv := (union_covers madeFirst).2.compatible
  have bcv := (union_covers madeSecond).1.compatible
  obtain ⟨left, rfl, madeLeft⟩ := leftward.united (Kind.compatible_trans abv vw)
  obtain ⟨right, rfl, madeRight⟩ :=
    rightward.united (Kind.compatible_trans uv (Kind.compatible_symm bcv))
  exact .some (union_assoc madeFirst madeLeft madeSecond madeRight)

inductive TwoHeld (u v : Interval) :
    Option Interval → Option Interval → Option Interval → Prop
  | firstMissing : TwoHeld u v none (some u) (some v)
  | secondMissing : TwoHeld u v (some u) none (some v)
  | thirdMissing : TwoHeld u v (some u) (some v) none

/-- Two values that clash are lost in both groupings if the third frame lacks the slot. -/
theorem JoinedSlot.assoc_of_clash {u v : Interval} (held : TwoHeld u v a b c)
    (clash : ¬u.kind.compatible v.kind = true)
    (first : JoinedSlot (Seeds.value seed) a b ab)
    (leftward : JoinedSlot (Seeds.value seed) ab c left)
    (second : JoinedSlot (Seeds.value seed) b c bc)
    (rightward : JoinedSlot (Seeds.value seed) a bc right) :
    Option.Rel (fun x y => (x == y) = true) left right := by
  -- A value that is filled in keeps its kind, so the clash is met later if it is not met at once.
  cases held with
  | thirdMissing =>
    obtain rfl := first.dropped clash
    obtain ⟨filled, rfl, alike⟩ := second.kept_left
    obtain rfl := rightward.dropped fun agree => clash (Kind.compatible_trans agree alike)
    cases leftward
    exact .none
  | secondMissing =>
    obtain ⟨filledLeft, rfl, alikeLeft⟩ := first.kept_left
    obtain ⟨filledRight, rfl, alikeRight⟩ := second.kept_right
    obtain rfl := leftward.dropped fun agree =>
      clash (Kind.compatible_trans (Kind.compatible_symm alikeLeft) agree)
    obtain rfl := rightward.dropped fun agree => clash (Kind.compatible_trans agree alikeRight)
    exact .none
  | firstMissing =>
    obtain ⟨filled, rfl, alike⟩ := first.kept_right
    obtain rfl := second.dropped clash
    obtain rfl := leftward.dropped fun agree =>
      clash (Kind.compatible_trans (Kind.compatible_symm alike) agree)
    cases rightward
    exact .none

theorem JoinedSlot.assoc_of_two {u v : Interval} (held : TwoHeld u v a b c)
    (concordant : u.kind.compatible v.kind = false ∨ u.kind = v.kind ∨ Seeds.Fits seed u.kind)
    (first : JoinedSlot (Seeds.value seed) a b ab)
    (leftward : JoinedSlot (Seeds.value seed) ab c left)
    (second : JoinedSlot (Seeds.value seed) b c bc)
    (rightward : JoinedSlot (Seeds.value seed) a bc right) :
    Option.Rel (fun x y => (x == y) = true) left right := by
  by_cases compatible : u.kind.compatible v.kind = true
  · have alike := concordant.resolve_left (Bool.eq_false_iff.not_left.mpr compatible)
    obtain ⟨fillsLeft, fillsRight⟩ := settles_both compatible alike
    refine assoc_of_settles (Seeds.value seed u.kind) ?_ first leftward second rightward
    have members : a.toList ++ b.toList ++ c.toList = [u, v] := by cases held <;> rfl
    rw [members, List.forall_mem_cons, List.forall_mem_singleton]
    exact ⟨fillsLeft, fillsRight⟩
  · exact assoc_of_clash held compatible first leftward second rightward

theorem JoinedSlot.assoc_of_one {u : Interval} (held : a.toList ++ b.toList ++ c.toList = [u])
    (first : JoinedSlot (Seeds.value seed) a b ab)
    (leftward : JoinedSlot (Seeds.value seed) ab c left)
    (second : JoinedSlot (Seeds.value seed) b c bc)
    (rightward : JoinedSlot (Seeds.value seed) a bc right) :
    Option.Rel (fun x y => (x == y) = true) left right := by
  refine assoc_of_settles (Seeds.value seed u.kind) ?_ first leftward second rightward
  rw [held, List.forall_mem_singleton]
  exact Seeds.settles_value seed u

theorem JoinedSlot.assoc (concordant : Concordant seed a b c)
    (first : JoinedSlot (Seeds.value seed) a b ab)
    (leftward : JoinedSlot (Seeds.value seed) ab c left)
    (second : JoinedSlot (Seeds.value seed) b c bc)
    (rightward : JoinedSlot (Seeds.value seed) a bc right) :
    Option.Rel (fun x y => (x == y) = true) left right := by
  match a, b, c with
  | some _, some _, some _ =>
    exact assoc_of_all concordant.1 concordant.2 first leftward second rightward
  | some _, some _, none =>
    exact assoc_of_two .thirdMissing concordant first leftward second rightward
  | some _, none, some _ =>
    exact assoc_of_two .secondMissing concordant first leftward second rightward
  | none, some _, some _ =>
    exact assoc_of_two .firstMissing concordant first leftward second rightward
  | some _, none, none => exact assoc_of_one rfl first leftward second rightward
  | none, some _, none => exact assoc_of_one rfl first leftward second rightward
  | none, none, some _ => exact assoc_of_one rfl first leftward second rightward
  | none, none, none =>
    cases first
    cases leftward
    cases second
    cases rightward
    exact .none

end Grouping

/-! ## Three frames -/

theorem beq_of_rel {α : Type} [BEq α] {x y : Option α}
    (related : Option.Rel (fun a b => (a == b) = true) x y) : (x == y) = true := by
  cases related with
  | none => rfl
  | some same => exact same

theorem SortedMap.beq_refl {κ : Type} [Ord κ] [Std.TransOrd κ] [Std.LawfulEqOrd κ] [BEq κ]
    [LawfulBEq κ] (map : SortedMap κ Interval) : (map == map) = true := by
  apply beq_of_related
  intro key
  cases map.get? key with
  | none => exact .none
  | some value => exact .some value.beq_refl

namespace Frame

/-- Grouping matters for no slot of the three frames. -/
structure Concordant (seeds : Seeds) (a b c : Frame Interval) : Prop where
  locals (index : Nat) : MethodFlow.Concordant (seeds.locals.get? index) (a.locals.get? index)
    (b.locals.get? index) (c.locals.get? index)
  statics (key : String) : MethodFlow.Concordant (seeds.statics.get? key) (a.statics.get? key)
    (b.statics.get? key) (c.statics.get? key)
  fields (key : String) : MethodFlow.Concordant none (a.fields.get? key) (b.fields.get? key)
    (c.fields.get? key)

/-- The frames are equal in all but their slots. -/
structure EqualRest (left right : Frame Interval) : Prop where
  stack : (left.stack == right.stack) = true
  flags : left.flags = right.flags
  evaluateAll : left.evaluateAll = right.evaluateAll
  loopingValid : left.loopingValid = right.loopingValid
  candidates : left.candidates = right.candidates
  returnValue : (left.returnValue == right.returnValue) = true
  thrown : (left.thrown == right.thrown) = true

theorem EqualRest.beq {left right : Frame Interval} (rest : EqualRest left right)
    (locals : (left.locals == right.locals) = true) (fields : (left.fields == right.fields) = true)
    (statics : (left.statics == right.statics) = true) : (left == right) = true := by
  change left.beq right = true
  simp only [Frame.beq, Bool.and_eq_true, beq_iff_eq]
  exact ⟨⟨⟨⟨⟨⟨⟨⟨⟨rest.stack, locals⟩, fields⟩, statics⟩, rest.flags⟩, rest.evaluateAll⟩,
    rest.loopingValid⟩, rest.candidates⟩, rest.returnValue⟩, rest.thrown⟩

section Grouping

variable {a b c ab bc left right : Frame Interval}

theorem Joined.equalRest (first : Joined a b ab) (leftward : Joined ab c left)
    (second : Joined b c bc) (rightward : Joined a bc right) : EqualRest left right where
  stack := beq_of_forall₂ (first.stack.assoc leftward.stack second.stack rightward.stack)
  flags := by
    simp only [leftward.flags, first.flags, rightward.flags, second.flags, BranchFlags.join,
      Bool.or_assoc]
  evaluateAll := by
    simp only [leftward.evaluateAll, first.evaluateAll, rightward.evaluateAll, second.evaluateAll,
      Bool.or_assoc]
  loopingValid := by
    simp only [leftward.loopingValid, first.loopingValid, rightward.loopingValid,
      second.loopingValid, Bool.or_assoc]
  candidates := by
    rw [leftward.candidates, first.candidates, rightward.candidates, second.candidates]
    apply congrArg SortedSet.toList
    apply SortedSet.ext
    intro x
    simp only [SortedSet.mem_ofList, List.mem_append, or_assoc]
  returnValue := beq_of_rel (first.returnValue.assoc leftward.returnValue second.returnValue
    rightward.returnValue)
  thrown := beq_of_rel (first.thrown.assoc leftward.thrown second.thrown rightward.thrown)

/-- The two groupings of a join of three frames differ at most in their slots, and they are equal if
no slot's kinds stand in the way. -/
theorem combine_assoc (seeds : Seeds) (factories : a.factory = seeds.factory ∧
      b.factory = seeds.factory ∧ c.factory = seeds.factory)
    (madeFirst : a.combine b = .ok ab) (madeLeft : ab.combine c = .ok left)
    (madeSecond : b.combine c = .ok bc) (madeRight : a.combine bc = .ok right) :
    ({ left with
        locals := right.locals, statics := right.statics, fields := right.fields } == right) =
      true ∧
    (Concordant seeds a b c → (left == right) = true) := by
  obtain ⟨fromA, fromB, _⟩ := factories
  have first := joined_of_combine madeFirst
  have leftward := joined_of_combine madeLeft
  have second := joined_of_combine madeSecond
  have rightward := joined_of_combine madeRight
  have fromAB : ab.factory = seeds.factory := first.factory.trans fromA
  have rest := first.equalRest leftward second rightward
  constructor
  · have unchanged : EqualRest { left with
        locals := right.locals, statics := right.statics, fields := right.fields } right :=
      { rest with }
    exact unchanged.beq right.locals.beq_refl right.fields.beq_refl right.statics.beq_refl
  · intro concordant
    refine rest.beq (SortedMap.beq_of_related ?_) (SortedMap.beq_of_related ?_)
      (SortedMap.beq_of_related ?_)
    · intro index
      exact JoinedSlot.assoc (concordant.locals index) (first.seededLocal fromA index)
        (leftward.seededLocal fromAB index) (second.seededLocal fromB index)
        (rightward.seededLocal fromA index)
    · intro key
      exact JoinedSlot.assoc (concordant.fields key) (first.unseededField fromA key)
        (leftward.unseededField fromAB key) (second.unseededField fromB key)
        (rightward.unseededField fromA key)
    · intro key
      exact JoinedSlot.assoc (concordant.statics key) (first.seededStatic fromA key)
        (leftward.seededStatic fromAB key) (second.seededStatic fromB key)
        (rightward.seededStatic fromA key)

end Grouping

theorem combine_assoc_ints : ∃ a b c ab bc left right : Frame Interval,
    a.combine b = .ok ab ∧ ab.combine c = .ok left ∧ b.combine c = .ok bc ∧
      a.combine bc = .ok right ∧ left.locals.get? 0 = some (.top .int) ∧
      Concordant .empty a b c ∧ (left == right) = true := by
  let factory := Seeds.empty.factory
  let one : Frame Interval := stored factory (.int 1)
  let two : Frame Interval := stored factory (.int 2)
  let filled : Frame Interval := stored factory (.top .int)
  have concordant : Concordant .empty one (initial factory) two := by
    constructor
    · intro index
      cases index with
      | zero => exact .inr (.inl rfl)
      | succ index =>
        have absent : ∀ value, (stored factory value).locals.get? (index + 1) = none := by
          intro value
          simp [stored, SortedMap.get?_insert]
          rfl
        rw [absent, absent]
        trivial
    · exact fun _ => trivial
    · exact fun _ => trivial
  have first : one.combine (initial factory) = .ok filled := rfl
  have leftward : filled.combine two = .ok filled := rfl
  have second : (initial factory).combine two = .ok filled := rfl
  have rightward : one.combine filled = .ok filled := rfl
  have grouped := combine_assoc .empty ⟨rfl, rfl, rfl⟩ first leftward second rightward
  exact ⟨_, _, _, _, _, _, _, first, leftward, second, rightward, rfl, concordant,
    grouped.2 concordant⟩

/-- Three frames of a machine whose two groupings are joined to different frames. -/
def Ungrouped (seeds : Seeds) (a b c : Frame Interval) : Prop :=
  Reachable seeds.factory a ∧ Reachable seeds.factory b ∧ Reachable seeds.factory c ∧
    ∃ ab bc left right : Frame Interval, a.combine b = .ok ab ∧ ab.combine c = .ok left ∧
      b.combine c = .ok bc ∧ a.combine bc = .ok right ∧ (left == right) = false

/-- Two ints that meet first are joined and then lost to the reference; but if one of them meets the
reference first, the other is left alone and filled in. Nor does it take a clash: a short that meets
a frame without the slot is filled in with all shorts, but with all ints if it has met an int. -/
theorem combine_not_assoc :
    let factory := Seeds.empty.factory
    let short : Interval := .integral .short (.singleton 1)
    Ungrouped .empty (stored factory (.int 1)) (stored factory (.int 2)) (stored factory .null) ∧
      Ungrouped .empty (stored factory (.int 2)) (stored factory short) (initial factory) := by
  intro factory short
  have int (value : Int32) : Reachable factory (stored factory (.int value)) :=
    reachable_stored .int (rfl : literalValue factory (.int value) = _) rfl
  have null : Reachable factory (stored factory .null) :=
    reachable_stored .reference (rfl : literalValue factory .null = _) rfl
  have narrow : Reachable factory (stored factory short) :=
    reachable_stored .int (rfl : literalValue factory (.short 1) = _) rfl
  let both : Interval := .integral .int (.span 1 2 (by decide))
  constructor
  · exact ⟨int 1, int 2, null, stored factory both, initial factory, initial factory,
      stored factory (.top .int), rfl, rfl, rfl, rfl, rfl⟩
  · let shorts : Interval := .integral .int (.span (-32768) 32767 (by decide))
    exact ⟨int 2, narrow, .initial, stored factory both, stored factory (.top .short),
      stored factory (.top .int), stored factory shorts, rfl, rfl, rfl, rfl, rfl⟩

end Frame

end MethodFlow

import MethodFlow.Proofs.DoublePrecision
import MethodFlow.Proofs.KindRanges
import MethodFlow.Proofs.Reachability

/-! What a joined frame gives for a slot, compared with what the joined frames give. A slot that is
not held is made of the kind it is read as, so what a frame gives depends on the reader. A join
settles a slot that one side lacks before the reader is known, and it forgets a slot whose kinds
clash; it includes a side exactly if neither goes wrong for it. -/
namespace MethodFlow

namespace Interval

@[simp] theorem kind_top (kind : Kind) : (top kind).kind = kind := by
  cases kind <;> rfl

/-- If the values can be compared at all, the first includes the second. -/
def Includes (a b : Interval) : Prop := ∀ answer, a.subsumes b = .ok answer → answer = true

theorem Covers.includes {a b : Interval} (covers : a.Covers b) : a.Includes b := by
  intro answer compared
  rw [covers_iff.mp covers] at compared
  exact (Except.ok.inj compared).symm

theorem includes_of {a b : Interval} (covers : a.kind.compatible b.kind = true → a.Covers b) :
    a.Includes b := by
  intro answer compared
  exact (covers (subsumes_ok_iff.mp ⟨answer, compared⟩)).includes answer compared

theorem includes_iff {a b : Interval} (comparable : a.kind.compatible b.kind = true) :
    a.Includes b ↔ a.Covers b := by
  constructor
  · intro includes
    obtain ⟨answer, compared⟩ := subsumes_ok_iff.mpr comparable
    exact covers_iff.mpr (includes answer compared ▸ compared)
  · exact Covers.includes

/-- All values of a kind that is computed with as it is include every value computed with so. -/
theorem top_covers {kind : Kind} {value : Interval} (whole : kind.computational = kind)
    (compatible : kind.compatible value.kind = true) (inKind : value.InKind) :
    (top kind).Covers value := by
  rw [Kind.compatible_iff, whole] at compatible
  cases value with
  | integral narrow range =>
    subst compatible
    refine .integral ?_ (IntRange.covers_trans ?_ inKind)
    · cases narrow <;> rfl
    · cases narrow <;> decide
  | floating _ range => subst compatible; exact .floating range.full_covers
  | reference nullness => subst compatible; exact .reference (by cases nullness <;> rfl)
  | returnAddress addresses => subst compatible; exact .returnAddress rfl

end Interval

namespace Seeds

/-- The seed stands for a slot that is read as the kind. -/
def Fits (seed : Option Interval) (kind : Kind) : Prop :=
  ∃ value, seed = some value ∧ value.kind.compatible kind = true

theorem value_of_not_fits {seed : Option Interval} {kind : Kind} (unfit : ¬Fits seed kind) :
    value seed kind = .top kind := by
  cases seed with
  | none => rfl
  | some seed => exact if_neg fun fits => unfit ⟨seed, rfl, fits⟩

theorem value_of_fits {seed : Option Interval} {kind other : Kind} (fits : Fits seed kind)
    (compatible : kind.compatible other = true) : value seed kind = value seed other := by
  obtain ⟨seed, rfl, fits⟩ := fits
  exact (if_pos fits).trans (if_pos (Kind.compatible_trans fits compatible)).symm

theorem kind_value (seed : Option Interval) (kind : Kind) :
    (value seed kind).kind.compatible kind = true := by
  by_cases fits : Fits seed kind
  · obtain ⟨seed, rfl, fits⟩ := fits
    rw [value, if_pos fits]
    exact fits
  · rw [value_of_not_fits fits, Interval.kind_top]
    exact kind.compatible_refl

theorem category_value (seed : Option Interval) (kind : Kind) :
    HasKind.category (value seed kind) = kind.category := Kind.category_congr (kind_value seed kind)

end Seeds

theorem Interval.category_union {a b joined : Interval} (made : a.union b = .ok joined) :
    HasKind.category joined = HasKind.category a ∧ HasKind.category joined = HasKind.category b :=
  ⟨Kind.category_congr (union_covers made).1.compatible,
    Kind.category_congr (union_covers made).2.compatible⟩

/-- What a slot gives when it is read as a kind. -/
def readSlot {V : Type} (absent : Kind → V) (held : Option V) (kind : Kind) : V :=
  held.getD (absent kind)

theorem includes_unseeded {seed : Option Interval} {kind : Kind} {value : Interval}
    (unfit : ¬Seeds.Fits seed kind) (whole : kind.computational = kind) (inKind : value.InKind) :
    (Seeds.value seed kind).Includes value := by
  rw [Seeds.value_of_not_fits unfit]
  apply Interval.includes_of
  intro comparable
  rw [Interval.kind_top] at comparable
  exact Interval.top_covers whole comparable inKind

/-- What the first slot gives to a reader of the kind is not lost in a join with the second. Values
that clash are both forgotten, so what is read in their place has to include them. A slot that only
the second side holds is settled for the kind of the value there. That is enough if the seed decides
what is read, if the reader cannot ask for that value, or if the value together with all of its kind
includes all of the reader's kind. -/
def Retained (seed : Option Interval) (kind : Kind) : Option Interval → Option Interval → Prop
  | some own, some other =>
    own.kind.compatible other.kind = true ∨ (Seeds.value seed kind).Includes own
  | none, some other =>
    Seeds.Fits seed kind ∨ kind.compatible other.kind = false ∨
      ∃ widened, other.union (.top other.kind) = .ok widened ∧ widened.Covers (.top kind)
  | _, none => True

theorem includes_absent_iff {seed : Option Interval} {kind : Kind} {other joined : Interval}
    (made : other.union (Seeds.value seed other.kind) = .ok joined) :
    joined.Includes (Seeds.value seed kind) ↔ Retained seed kind none (some other) := by
  obtain ⟨coversOther, coversOwn⟩ := Interval.union_covers made
  have comparable_iff : joined.kind.compatible (Seeds.value seed kind).kind = true ↔
      kind.compatible other.kind = true := by
    have asRead := Seeds.kind_value seed kind
    rw [coversOther.compatible_congr]
    constructor
    · intro comparable
      exact Kind.compatible_symm (Kind.compatible_trans comparable asRead)
    · intro compatible
      exact Kind.compatible_symm (Kind.compatible_trans asRead compatible)
  by_cases compatible : kind.compatible other.kind = true
  · rw [Interval.includes_iff (comparable_iff.mpr compatible)]
    by_cases fits : Seeds.Fits seed kind
    · rw [Seeds.value_of_fits fits compatible]
      exact iff_of_true coversOwn (.inl fits)
    · have unfit : ¬Seeds.Fits seed other.kind := by
        rintro ⟨value, found, fitsOther⟩
        exact fits ⟨value, found,
          Kind.compatible_trans fitsOther (Kind.compatible_symm compatible)⟩
      rw [Seeds.value_of_not_fits unfit] at made
      simp [Retained, Seeds.value_of_not_fits fits, fits, compatible, made]
  · refine iff_of_true (Interval.includes_of fun comparable => ?_) (.inr (.inl ?_))
    · exact absurd (comparable_iff.mp comparable) compatible
    · exact Bool.eq_false_of_not_eq_true compatible

theorem JoinedSlot.includes_iff {seed : Option Interval} {left right joined : Option Interval}
    (slot : JoinedSlot (Seeds.value seed) left right joined) (kind : Kind) :
    ((readSlot (Seeds.value seed) joined kind).Includes (readSlot (Seeds.value seed) left kind) ↔
      Retained seed kind left right) ∧
    ((readSlot (Seeds.value seed) joined kind).Includes (readSlot (Seeds.value seed) right kind) ↔
      Retained seed kind right left) := by
  cases slot with
  | both compatible made =>
    obtain ⟨left, right⟩ := Interval.union_covers made
    exact ⟨iff_of_true left.includes (.inl compatible),
      iff_of_true right.includes (.inl (Kind.compatible_symm compatible))⟩
  | @clash a b clash =>
    have apart : a.kind.compatible b.kind = false := clash
    have apart' : b.kind.compatible a.kind = false := by
      rw [← Bool.not_eq_true] at apart ⊢
      exact fun compatible => apart (Kind.compatible_symm compatible)
    simp [Retained, readSlot, apart, apart']
  | left made =>
    exact ⟨iff_of_true (Interval.union_covers made).1.includes trivial, includes_absent_iff made⟩
  | right made =>
    exact ⟨includes_absent_iff made, iff_of_true (Interval.union_covers made).1.includes trivial⟩
  | neither =>
    have same := (Interval.covers_refl (Seeds.value seed kind)).includes
    exact ⟨iff_of_true same trivial, iff_of_true same trivial⟩

namespace Frame

variable {V : Type}

def localAs (frame : Frame V) (index : Nat) (kind : Kind) : V :=
  readSlot (frame.factory.localValue index) (frame.locals.get? index) kind

def staticAs (frame : Frame V) (key : String) (kind : Kind) : V :=
  readSlot (frame.factory.staticValue key) (frame.statics.get? key) kind

def fieldAs (frame : Frame V) (key : String) (kind : Kind) : V :=
  readSlot frame.factory.unconstrained (frame.fields.get? key) kind

section Seeded

variable {seeds : Seeds} {a b joined : Frame Interval} (parts : Joined a b joined)
  (factory : a.factory = seeds.factory)

include parts factory

theorem Joined.seededLocal (index : Nat) : JoinedSlot (Seeds.value (seeds.locals.get? index))
    (a.locals.get? index) (b.locals.get? index) (joined.locals.get? index) := by
  have slot := parts.locals index
  rw [factory] at slot
  exact slot

theorem Joined.seededStatic (key : String) : JoinedSlot (Seeds.value (seeds.statics.get? key))
    (a.statics.get? key) (b.statics.get? key) (joined.statics.get? key) := by
  have slot := parts.statics key
  rw [factory] at slot
  exact slot

theorem Joined.unseededField (key : String) : JoinedSlot (Seeds.value none)
    (a.fields.get? key) (b.fields.get? key) (joined.fields.get? key) := by
  have slot := parts.fields key
  rw [factory] at slot
  exact slot

end Seeded

/-- The join of two frames of one machine includes what either of them gives for a local, a static
field or a field, whatever kind it is read as, exactly if the join of the slot retains it. -/
theorem combine_includes (seeds : Seeds) {a b joined : Frame Interval}
    (left : Reachable seeds.factory a) (right : Reachable seeds.factory b)
    (made : a.combine b = .ok joined) (kind : Kind) :
    (∀ index,
      ((joined.localAs index kind).Includes (a.localAs index kind) ↔
        Retained (seeds.locals.get? index) kind (a.locals.get? index) (b.locals.get? index)) ∧
      ((joined.localAs index kind).Includes (b.localAs index kind) ↔
        Retained (seeds.locals.get? index) kind (b.locals.get? index) (a.locals.get? index))) ∧
    (∀ key,
      ((joined.staticAs key kind).Includes (a.staticAs key kind) ↔
        Retained (seeds.statics.get? key) kind (a.statics.get? key) (b.statics.get? key)) ∧
      ((joined.staticAs key kind).Includes (b.staticAs key kind) ↔
        Retained (seeds.statics.get? key) kind (b.statics.get? key) (a.statics.get? key))) ∧
    ∀ key,
      ((joined.fieldAs key kind).Includes (a.fieldAs key kind) ↔
        Retained none kind (a.fields.get? key) (b.fields.get? key)) ∧
      ((joined.fieldAs key kind).Includes (b.fieldAs key kind) ↔
        Retained none kind (b.fields.get? key) (a.fields.get? key)) := by
  have parts := joined_of_combine made
  have fromLeft := left.factory_eq
  have fromRight := right.factory_eq
  simp only [localAs, staticAs, fieldAs, parts.factory, fromLeft, fromRight]
  refine ⟨fun index => ?_, fun key => ?_, fun key => ?_⟩
  · exact (parts.seededLocal fromLeft index).includes_iff kind
  · exact (parts.seededStatic fromLeft key).includes_iff kind
  · exact (parts.unseededField fromLeft key).includes_iff kind

/-- An int that only one side has stored is enough for a reader of shorts. A double that clashes
with a reference is forgotten, but a reader of doubles does not miss it. -/
theorem combine_includes_read :
    let factory := Seeds.empty.factory
    let seven : Interval := .floating .double (.singleton 7)
    (∃ a b joined : Frame Interval, Reachable factory a ∧ Reachable factory b ∧
      a.combine b = .ok joined ∧ joined.locals = .ofList [(0, .top .int)] ∧
      (joined.localAs 0 .short).Includes (b.localAs 0 .short)) ∧
    ∃ a b joined : Frame Interval, Reachable factory a ∧ Reachable factory b ∧
      a.combine b = .ok joined ∧ a.locals = .ofList [(0, seven)] ∧ joined.locals = .empty ∧
      (joined.localAs 0 .double).Includes (a.localAs 0 .double) := by
  intro factory seven
  have unseeded : ¬Seeds.Fits none .double := nofun
  constructor
  · have reached : Reachable factory (stored factory (.int 7)) :=
      reachable_stored .int (rfl : literalValue factory (.int 7) = _) rfl
    have made : (stored factory (.int 7)).combine (initial factory) =
        .ok (stored factory (.top .int)) := rfl
    refine ⟨_, _, _, reached, .initial, made, rfl, ?_⟩
    apply ((combine_includes .empty reached .initial made .short).1 0).2.mpr
    exact .inr (.inr ⟨.top .int, rfl, .integral rfl (by decide)⟩)
  · have number : Reachable factory (stored factory seven) :=
      reachable_stored .double (rfl : literalValue factory (.double 7) = _) rfl
    have null : Reachable factory (stored factory .null) :=
      reachable_stored .reference (rfl : literalValue factory .null = _) rfl
    have made : (stored factory seven).combine (stored factory .null) = .ok (initial factory) := rfl
    refine ⟨_, _, _, number, null, made, rfl, rfl, ?_⟩
    apply ((combine_includes .empty number null made .double).1 0).1.mpr
    exact .inr (includes_unseeded unseeded rfl trivial)

/-- A narrow constant that only one side has stored is joined with all shorts, though the other side
gives all ints for it; and a constant that clashes with the other side is read back as its seed. -/
theorem combine_omits :
    (∃ a b joined : Frame Interval, Reachable Seeds.empty.factory a ∧
      Reachable Seeds.empty.factory b ∧ a.combine b = .ok joined ∧
      ¬(joined.localAs 0 .int).Includes (b.localAs 0 .int)) ∧
    ∃ (seeds : Seeds) (a b joined : Frame Interval), seeds.InKind ∧ Reachable seeds.factory a ∧
      Reachable seeds.factory b ∧ a.combine b = .ok joined ∧
      ¬(joined.localAs 0 .int).Includes (a.localAs 0 .int) := by
  constructor
  · let factory := Seeds.empty.factory
    refine ⟨stored factory (.short 300), initial factory, stored factory (.top .short), ?_,
      .initial, rfl, ?_⟩
    · exact reachable_stored .int (rfl : literalValue factory (.short 300) = _) rfl
    · intro includes
      cases includes false rfl
  · let seeds : Seeds := ⟨SortedMap.empty.insert 0 (.int 5), .empty⟩
    have inKind : seeds.InKind := by
      constructor
      · intro index seed found
        have five : (Interval.int 5).InKind := rfl
        refine SortedMap.insert_sort ?_ five found
        exact nofun
      · exact nofun
    refine ⟨seeds, stored seeds.factory (.int 7), stored seeds.factory .null,
      initial seeds.factory, inKind, ?_, ?_, rfl, ?_⟩
    · exact reachable_stored .int (rfl : literalValue seeds.factory (.int 7) = _) rfl
    · exact reachable_stored .reference (rfl : literalValue seeds.factory .null = _) rfl
    · intro includes
      cases includes false rfl

end Frame

end MethodFlow

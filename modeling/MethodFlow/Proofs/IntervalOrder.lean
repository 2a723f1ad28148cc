import MethodFlow.Interval.Domain
import MethodFlow.Proofs.Failure
import MethodFlow.Proofs.RangeOrder

/-! The order by inclusion of interval values. Values can be compared, joined and met exactly if
their kinds are computed with alike; the join is then a least upper bound and the meet a greatest
lower bound, and equality of values is inclusion both ways in one kind. -/
namespace MethodFlow

/-- The width an integral kind is computed in: narrow integers are ints on the stack. -/
def IntKind.widened : IntKind → IntKind
  | .long => .long
  | _ => .int

theorem IntKind.widened_eq_iff {k l : IntKind} :
    k.widened = l.widened ↔ k.category = l.category := by
  cases k <;> cases l <;> decide

theorem IntKind.category_joined {k l : IntKind} (alike : k.category = l.category) :
    (if k = l then k else IntKind.int).category = k.category := by
  by_cases same : k = l
  · rw [if_pos same]
  · rw [if_neg same]
    cases k <;> cases l <;> simp_all [IntKind.category]

namespace Kind

def computational : Kind → Kind
  | .integral kind => .integral kind.widened
  | other => other

theorem compatible_iff {a b : Kind} :
    a.compatible b = true ↔ a.computational = b.computational := by
  cases a with
  | integral k =>
    cases b with
    | integral l =>
      simp only [compatible, computational, isIntegral, category, integral.injEq, Bool.true_and,
        Bool.or_eq_true, beq_iff_eq, IntKind.widened_eq_iff, or_iff_right_iff_imp]
      rintro rfl
      rfl
    | floating | reference | returnAddress => simp [compatible, computational, isIntegral]
  | floating | reference | returnAddress =>
    cases b <;> simp [compatible, computational, isIntegral]

theorem compatible_refl (kind : Kind) : kind.compatible kind = true := compatible_iff.mpr rfl

theorem compatible_symm {a b : Kind} (compatible : a.compatible b = true) :
    b.compatible a = true := compatible_iff.mpr (compatible_iff.mp compatible).symm

theorem compatible_trans {a b c : Kind} (first : a.compatible b = true)
    (second : b.compatible c = true) : a.compatible c = true :=
  compatible_iff.mpr ((compatible_iff.mp first).trans (compatible_iff.mp second))

theorem congr_of_compatible {α : Type} {f : Kind → α}
    (kept : ∀ kind : Kind, f kind.computational = f kind) {a b : Kind}
    (compatible : a.compatible b = true) : f a = f b := by
  rw [← kept a, compatible_iff.mp compatible, kept b]

theorem isFloating_congr {a b : Kind} (compatible : a.compatible b = true) :
    a.isFloating = b.isFloating := by
  refine congr_of_compatible (fun kind => ?_) compatible
  cases kind <;> rfl

theorem category_congr {a b : Kind} (compatible : a.compatible b = true) :
    a.category = b.category := by
  refine congr_of_compatible (fun kind => ?_) compatible
  cases kind with
  | integral kind => cases kind <;> rfl
  | floating | reference | returnAddress => rfl

end Kind

namespace Interval

/-- Two values of kinds that are computed alike, and what is joined or compared of them. -/
inductive Paired : Interval → Interval → Pair → Prop
  | integral {k l : IntKind} {r s : IntRange} (alike : k.category = l.category) :
      Paired (.integral k r) (.integral l s) (.integral (if k = l then k else .int) r s)
  | floating {k : FloatKind} {r s : FloatRange Float} :
      Paired (.floating k r) (.floating k s) (.floating k r s)
  | references {m n : Nullness} : Paired (.reference m) (.reference n) (.references m n)
  | addresses {m n : Addresses} : Paired (.returnAddress m) (.returnAddress n) (.addresses m n)

theorem pair_eq_ok {operation : String} {a b : Interval} {pair : Pair} :
    Interval.pair operation a b = .ok pair ↔ Paired a b pair := by
  constructor
  · intro made
    cases a with
    | integral k r =>
      cases b with
      | integral l s =>
        by_cases alike : k.category = l.category
        · rw [Interval.pair, if_pos alike] at made
          cases made
          exact .integral alike
        · rw [Interval.pair, if_neg alike] at made
          cases made
      | floating | reference | returnAddress => cases made
    | floating k r =>
      cases b with
      | floating l s =>
        by_cases alike : k = l
        · rw [Interval.pair, if_pos alike] at made
          cases made
          exact alike ▸ .floating
        · rw [Interval.pair, if_neg alike] at made
          cases made
      | integral | reference | returnAddress => cases made
    | reference m =>
      cases b with
      | reference n => cases made; exact .references
      | integral | floating | returnAddress => cases made
    | returnAddress m =>
      cases b with
      | returnAddress n => cases made; exact .addresses
      | integral | floating | reference => cases made
  · intro paired
    cases paired with
    | integral alike => exact if_pos alike
    | floating => exact if_pos rfl
    | references => rfl
    | addresses => rfl

theorem exists_paired_iff {a b : Interval} :
    (∃ pair, Paired a b pair) ↔ a.kind.compatible b.kind = true := by
  rw [Kind.compatible_iff]
  constructor
  · rintro ⟨pair, paired⟩
    cases paired with
    | integral alike => exact congrArg Kind.integral (IntKind.widened_eq_iff.mpr alike)
    | floating | references | addresses => rfl
  · intro alike
    cases a with
    | integral k =>
      cases b with
      | integral l => exact ⟨_, .integral (IntKind.widened_eq_iff.mp (Kind.integral.inj alike))⟩
      | floating | reference | returnAddress => cases alike
    | floating k =>
      cases b with
      | floating l => cases alike; exact ⟨_, .floating⟩
      | integral | reference | returnAddress => cases alike
    | reference =>
      cases b with
      | reference => exact ⟨_, .references⟩
      | integral | floating | returnAddress => cases alike
    | returnAddress =>
      cases b with
      | returnAddress => exact ⟨_, .addresses⟩
      | integral | floating | reference => cases alike

def Pair.covers : Pair → Bool
  | .integral _ r s => r.covers s
  | .floating _ r s => r.covers s
  | .references m n => m.covers n
  | .addresses m n => m.covers n

def Pair.join : Pair → Interval
  | .integral kind r s => .integral kind (r.hull s)
  | .floating kind r s => .floating kind (r.hull s)
  | .references m n => .reference (m.join n)
  | .addresses m n => .returnAddress (m.join n)

def Pair.meet : Pair → Interval
  | .integral kind r s => .integral kind (r.meet s)
  | .floating kind r s => .floating kind (r.meet s)
  | .references m n => .reference (m.meet n)
  | .addresses m n => .returnAddress (m.meet n)

theorem subsumes_eq_ok {a b : Interval} {answer : Bool} :
    a.subsumes b = .ok answer ↔ ∃ pair, Paired a b pair ∧ pair.covers = answer := by
  rw [subsumes, bind_eq_ok]
  simp only [pair_eq_ok]
  apply exists_congr
  intro pair
  apply and_congr_right
  intro paired
  cases pair <;> exact (Except.ok.injEq ..).to_iff

theorem union_eq_ok {a b joined : Interval} :
    a.union b = .ok joined ↔ ∃ pair, Paired a b pair ∧ pair.join = joined := by
  rw [union, bind_eq_ok]
  simp only [pair_eq_ok]
  apply exists_congr
  intro pair
  apply and_congr_right
  intro paired
  cases pair <;> exact (Except.ok.injEq ..).to_iff

theorem intersection_eq_ok {a b met : Interval} :
    a.intersection b = .ok met ↔ ∃ pair, Paired a b pair ∧ pair.meet = met := by
  rw [intersection, bind_eq_ok]
  simp only [pair_eq_ok]
  apply exists_congr
  intro pair
  apply and_congr_right
  intro paired
  cases pair <;> exact (Except.ok.injEq ..).to_iff

theorem ok_iff_of_paired {α : Type} {a b : Interval} {result : Except ValueError α} {f : Pair → α}
    (eq_ok : ∀ {value}, result = .ok value ↔ ∃ pair, Paired a b pair ∧ f pair = value) :
    (∃ value, result = .ok value) ↔ a.kind.compatible b.kind = true := by
  rw [← exists_paired_iff]
  constructor
  · rintro ⟨value, made⟩
    obtain ⟨pair, paired, _⟩ := eq_ok.mp made
    exact ⟨pair, paired⟩
  · rintro ⟨pair, paired⟩
    exact ⟨f pair, eq_ok.mpr ⟨pair, paired, rfl⟩⟩

theorem subsumes_ok_iff {a b : Interval} :
    (∃ answer, a.subsumes b = .ok answer) ↔ a.kind.compatible b.kind = true :=
  ok_iff_of_paired subsumes_eq_ok

theorem union_ok_iff {a b : Interval} :
    (∃ joined, a.union b = .ok joined) ↔ a.kind.compatible b.kind = true :=
  ok_iff_of_paired union_eq_ok

theorem intersection_ok_iff {a b : Interval} :
    (∃ met, a.intersection b = .ok met) ↔ a.kind.compatible b.kind = true :=
  ok_iff_of_paired intersection_eq_ok

/-- One value includes another of a kind that is computed alike. -/
inductive Covers : Interval → Interval → Prop
  | integral {k l : IntKind} {r s : IntRange} (alike : k.category = l.category)
      (covers : r.covers s = true) : Covers (.integral k r) (.integral l s)
  | floating {k : FloatKind} {r s : FloatRange Float} (covers : r.covers s = true) :
      Covers (.floating k r) (.floating k s)
  | reference {m n : Nullness} (covers : m.covers n = true) : Covers (.reference m) (.reference n)
  | returnAddress {m n : Addresses} (covers : m.covers n = true) :
      Covers (.returnAddress m) (.returnAddress n)

theorem covers_iff {a b : Interval} : a.Covers b ↔ a.subsumes b = .ok true := by
  rw [subsumes_eq_ok]
  constructor
  · intro covers
    cases covers with
    | integral alike covers => exact ⟨_, .integral alike, covers⟩
    | floating covers => exact ⟨_, .floating, covers⟩
    | reference covers => exact ⟨_, .references, covers⟩
    | returnAddress covers => exact ⟨_, .addresses, covers⟩
  · rintro ⟨pair, paired, covers⟩
    cases paired with
    | integral alike => exact .integral alike covers
    | floating => exact .floating covers
    | references => exact .reference covers
    | addresses => exact .returnAddress covers

theorem Covers.compatible {a b : Interval} (covers : a.Covers b) :
    a.kind.compatible b.kind = true := subsumes_ok_iff.mp ⟨true, covers_iff.mp covers⟩

theorem Covers.compatible_congr {a b : Interval} (covers : a.Covers b) {kind : Kind} :
    a.kind.compatible kind = true ↔ b.kind.compatible kind = true :=
  ⟨Kind.compatible_trans (Kind.compatible_symm covers.compatible),
    Kind.compatible_trans covers.compatible⟩

theorem covers_refl (a : Interval) : a.Covers a := by
  cases a with
  | integral k r => exact .integral rfl r.covers_refl
  | floating k r => exact .floating r.covers_refl
  | reference m => exact .reference m.covers_refl
  | returnAddress m => exact .returnAddress m.covers_refl

theorem Covers.trans {a b c : Interval} (first : a.Covers b) (second : b.Covers c) :
    a.Covers c := by
  cases first with
  | integral alike covers =>
    cases second with
    | integral alike' covers' =>
      exact .integral (alike.trans alike') (IntRange.covers_trans covers covers')
  | floating covers =>
    cases second with
    | floating covers' => exact .floating (FloatRange.covers_trans covers covers')
  | reference covers =>
    cases second with
    | reference covers' => exact .reference (Nullness.covers_trans covers covers')
  | returnAddress covers =>
    cases second with
    | returnAddress covers' => exact .returnAddress (Addresses.covers_trans covers covers')

theorem kind_union {a b joined : Interval} (made : a.union b = .ok joined) :
    joined.kind = if a.kind = b.kind then a.kind else .int := by
  obtain ⟨pair, paired, rfl⟩ := union_eq_ok.mp made
  cases paired with
  | @integral k l _ _ alike =>
    by_cases same : k = l
    · simp [Pair.join, kind, same]
    · simp [Pair.join, kind, same]
  | floating | references | addresses => simp [Pair.join, kind]

theorem covers_integral {k l : IntKind} {r s : IntRange} :
    Covers (.integral k r) (.integral l s) ↔ k.category = l.category ∧ r.covers s = true :=
  ⟨fun (.integral alike covers) => ⟨alike, covers⟩, fun ⟨alike, covers⟩ => .integral alike covers⟩

theorem covers_floating {k l : FloatKind} {r s : FloatRange Float} :
    Covers (.floating k r) (.floating l s) ↔ k = l ∧ r.covers s = true :=
  ⟨fun (.floating covers) => ⟨rfl, covers⟩, fun ⟨same, covers⟩ => same ▸ .floating covers⟩

theorem covers_reference {m n : Nullness} :
    Covers (.reference m) (.reference n) ↔ m.covers n = true :=
  ⟨fun (.reference covers) => covers, .reference⟩

theorem covers_returnAddress {m n : Addresses} :
    Covers (.returnAddress m) (.returnAddress n) ↔ m.covers n = true :=
  ⟨fun (.returnAddress covers) => covers, .returnAddress⟩

/-- A join is a least upper bound. -/
theorem covers_union {a b c joined : Interval} (made : a.union b = .ok joined) :
    c.Covers joined ↔ c.Covers a ∧ c.Covers b := by
  obtain ⟨pair, paired, rfl⟩ := union_eq_ok.mp made
  cases paired with
  | integral alike =>
    cases c with
    | integral =>
      simp only [Pair.join, covers_integral, IntRange.covers_hull, IntKind.category_joined alike,
        ← alike]
      tauto
    | floating | reference | returnAddress => exact ⟨nofun, fun covers => nomatch covers.1⟩
  | floating =>
    cases c with
    | floating =>
      simp only [Pair.join, covers_floating, FloatRange.covers_hull]
      tauto
    | integral | reference | returnAddress => exact ⟨nofun, fun covers => nomatch covers.1⟩
  | references =>
    cases c with
    | reference => simp only [Pair.join, covers_reference, Nullness.covers_join]
    | integral | floating | returnAddress => exact ⟨nofun, fun covers => nomatch covers.1⟩
  | addresses =>
    cases c with
    | returnAddress => simp only [Pair.join, covers_returnAddress, Addresses.covers_join]
    | integral | floating | reference => exact ⟨nofun, fun covers => nomatch covers.1⟩

theorem union_covers {a b joined : Interval} (made : a.union b = .ok joined) :
    joined.Covers a ∧ joined.Covers b := (covers_union made).mp (covers_refl joined)

theorem intersection_covers {a b c met : Interval} (made : a.intersection b = .ok met) :
    met.Covers c ↔ a.Covers c ∧ b.Covers c := by
  obtain ⟨pair, paired, rfl⟩ := intersection_eq_ok.mp made
  cases paired with
  | integral alike =>
    cases c with
    | integral =>
      simp only [Pair.meet, covers_integral, IntRange.meet_covers, IntKind.category_joined alike,
        ← alike]
      tauto
    | floating | reference | returnAddress => exact ⟨nofun, fun covers => nomatch covers.1⟩
  | floating =>
    cases c with
    | floating =>
      simp only [Pair.meet, covers_floating, FloatRange.meet_covers]
      tauto
    | integral | reference | returnAddress => exact ⟨nofun, fun covers => nomatch covers.1⟩
  | references =>
    cases c with
    | reference => simp only [Pair.meet, covers_reference, Nullness.meet_covers]
    | integral | floating | returnAddress => exact ⟨nofun, fun covers => nomatch covers.1⟩
  | addresses =>
    cases c with
    | returnAddress => simp only [Pair.meet, covers_returnAddress, Addresses.meet_covers]
    | integral | floating | reference => exact ⟨nofun, fun covers => nomatch covers.1⟩

theorem beq_iff_covers {a b : Interval} :
    (a == b) = true ↔ a.kind = b.kind ∧ a.Covers b ∧ b.Covers a := by
  change a.beq b = true ↔ _
  constructor
  · intro equal
    cases a with
    | integral k r =>
      cases b with
      | integral l s =>
        simp only [beq, Bool.and_eq_true, beq_iff_eq] at equal
        obtain ⟨rfl, rfl⟩ := equal
        exact ⟨rfl, covers_refl _, covers_refl _⟩
      | floating | reference | returnAddress => cases equal
    | floating k r =>
      cases b with
      | floating l s =>
        simp only [beq, Bool.and_eq_true, beq_iff_eq, FloatRange.beq_iff_covers] at equal
        obtain ⟨rfl, left, right⟩ := equal
        exact ⟨rfl, .floating left, .floating right⟩
      | integral | reference | returnAddress => cases equal
    | reference m =>
      cases b with
      | reference n =>
        obtain rfl : m = n := by simpa [beq] using equal
        exact ⟨rfl, covers_refl _, covers_refl _⟩
      | integral | floating | returnAddress => cases equal
    | returnAddress m =>
      cases b with
      | returnAddress n =>
        obtain rfl : m = n := by simpa [beq] using equal
        exact ⟨rfl, covers_refl _, covers_refl _⟩
      | integral | floating | reference => cases equal
  · rintro ⟨same, left, right⟩
    cases left with
    | integral _ left =>
      cases right with
      | integral _ right =>
        simp [beq, Kind.integral.inj same, IntRange.eq_of_covers left right]
    | floating left =>
      cases right with
      | floating right => simp [beq, FloatRange.beq_iff_covers.mpr ⟨left, right⟩]
    | reference left =>
      cases right with
      | reference right => simp [beq, Nullness.eq_of_covers left right]
    | returnAddress left =>
      cases right with
      | returnAddress right => simp [beq, Addresses.eq_of_covers left right]

end Interval

end MethodFlow

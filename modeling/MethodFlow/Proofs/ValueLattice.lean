import MethodFlow.Laws
import MethodFlow.Proofs.JoinGrouping

/-! Values that are not floating-point numbers form a lattice in each join class. The join of a list
of values is determined by its members, so it does not depend on their order, and a list can be
joined exactly if any two of its values can. -/
namespace MethodFlow

namespace Interval

/-- Values of one join class: integers of equally many slots, references, or return addresses. -/
inductive Joinable : Interval → Interval → Prop
  | integral {k l : IntKind} {r s : IntRange} (alike : k.category = l.category) :
      Joinable (.integral k r) (.integral l s)
  | references {m n : Nullness} : Joinable (.reference m) (.reference n)
  | addresses {m n : Addresses} : Joinable (.returnAddress m) (.returnAddress n)

variable {a b c joined : Interval}

theorem joinable_iff :
    a.Joinable b ↔ a.kind.isFloating = false ∧ a.kind.compatible b.kind = true := by
  rw [← exists_paired_iff]
  constructor
  · intro joinable
    cases joinable with
    | integral alike => exact ⟨rfl, _, .integral alike⟩
    | references => exact ⟨rfl, _, .references⟩
    | addresses => exact ⟨rfl, _, .addresses⟩
  · rintro ⟨number, pair, paired⟩
    cases paired with
    | integral alike => exact .integral alike
    | floating => cases number
    | references => exact .references
    | addresses => exact .addresses

theorem eq_of_beq (discrete : a.kind.isFloating = false) (equal : (a == b) = true) : a = b := by
  obtain ⟨kinds, left, right⟩ := beq_iff_covers.mp equal
  cases left with
  | integral _ left =>
    cases right with
    | integral _ right => rw [Kind.integral.inj kinds, IntRange.eq_of_covers left right]
  | floating => cases discrete
  | reference left =>
    cases right with
    | reference right => rw [Nullness.eq_of_covers left right]
  | returnAddress left =>
    cases right with
    | returnAddress right => rw [Addresses.eq_of_covers left right]

theorem isFloating_union (made : a.union b = .ok joined) :
    joined.kind.isFloating = a.kind.isFloating :=
  Kind.isFloating_congr (union_covers made).1.compatible

theorem union_comm (discrete : a.kind.isFloating = false) (made : a.union b = .ok joined) :
    b.union a = .ok joined := by
  obtain ⟨other, made'⟩ := union_ok_iff.mpr (Kind.compatible_symm (union_ok_iff.mp ⟨_, made⟩))
  have ha := joinOf_singleton a
  have hb := joinOf_singleton b
  have equal : (joined == other) = true :=
    (ha.union hb made).beq (hb.union ha made') fun m => by simp [or_comm]
  rw [made', eq_of_beq ((isFloating_union made).trans discrete) equal]

theorem union_self (discrete : a.kind.isFloating = false) : a.union a = .ok a := by
  obtain ⟨joined, made⟩ := union_ok_iff.mpr a.kind.compatible_refl
  have ha := joinOf_singleton a
  have equal : (joined == a) = true := (ha.union ha made).beq ha fun m => by simp
  rw [made, eq_of_beq ((isFloating_union made).trans discrete) equal]

theorem subsumes_and {d e f : Interval} (both : a.Covers b ↔ c.Covers d ∧ e.Covers f)
    (whole : a.kind.compatible b.kind = true) (first : c.kind.compatible d.kind = true)
    (second : e.kind.compatible f.kind = true) :
    ∃ l r, c.subsumes d = .ok l ∧ e.subsumes f = .ok r ∧ a.subsumes b = .ok (l && r) := by
  obtain ⟨answer, compared⟩ := subsumes_ok_iff.mpr whole
  obtain ⟨l, comparedFirst⟩ := subsumes_ok_iff.mpr first
  obtain ⟨r, comparedSecond⟩ := subsumes_ok_iff.mpr second
  refine ⟨l, r, comparedFirst, comparedSecond, ?_⟩
  rw [covers_iff, covers_iff, covers_iff, compared, comparedFirst, comparedSecond] at both
  simp only [Except.ok.injEq, ← Bool.and_eq_true] at both
  rw [compared, Bool.eq_iff_iff.mpr both]

section Laws

variable (ab : a.Joinable b) (bc : b.Joinable c)

include ab bc

/-- What includes a join is what includes both of its parts, and what a meet includes is what both
of its parts include. -/
theorem Joinable.bounds : ∃ joined met, a.union b = .ok joined ∧ a.intersection b = .ok met ∧
    (∃ l r, c.subsumes a = .ok l ∧ c.subsumes b = .ok r ∧ c.subsumes joined = .ok (l && r)) ∧
    ∃ l r, a.subsumes c = .ok l ∧ b.subsumes c = .ok r ∧ met.subsumes c = .ok (l && r) := by
  obtain ⟨_, ab⟩ := joinable_iff.mp ab
  obtain ⟨_, bc⟩ := joinable_iff.mp bc
  have ac := Kind.compatible_trans ab bc
  obtain ⟨joined, made⟩ := union_ok_iff.mpr ab
  obtain ⟨met, cut⟩ := intersection_ok_iff.mpr ab
  have joinedKind := (union_covers made).1.compatible
  have metKind := ((intersection_covers cut).mp (covers_refl met)).1.compatible
  refine ⟨joined, met, made, cut, subsumes_and (covers_union made) ?_ ?_ ?_,
    subsumes_and (intersection_covers cut) ?_ ac bc⟩
  · exact Kind.compatible_symm (Kind.compatible_trans joinedKind ac)
  · exact Kind.compatible_symm ac
  · exact Kind.compatible_symm bc
  · exact Kind.compatible_trans (Kind.compatible_symm metKind) ac

theorem Joinable.union_assoc : ∃ ab bc abc, a.union b = .ok ab ∧ b.union c = .ok bc ∧
    ab.union c = .ok abc ∧ a.union bc = .ok abc := by
  obtain ⟨discrete, ab⟩ := joinable_iff.mp ab
  obtain ⟨_, bc⟩ := joinable_iff.mp bc
  obtain ⟨first, madeFirst⟩ := union_ok_iff.mpr ab
  obtain ⟨second, madeSecond⟩ := union_ok_iff.mpr bc
  have firstKind := (union_covers madeFirst).2.compatible
  have secondKind := (union_covers madeSecond).1.compatible
  obtain ⟨left, leftward⟩ := union_ok_iff.mpr (Kind.compatible_trans firstKind bc)
  obtain ⟨right, rightward⟩ :=
    union_ok_iff.mpr (Kind.compatible_trans ab (Kind.compatible_symm secondKind))
  have kept : left.kind.isFloating = false :=
    (isFloating_union leftward).trans ((isFloating_union madeFirst).trans discrete)
  have equal := eq_of_beq kept (Interval.union_assoc madeFirst leftward madeSecond rightward)
  exact ⟨first, second, left, madeFirst, madeSecond, leftward, equal ▸ rightward⟩

end Laws

end Interval

namespace Law

open MethodFlow.Interval

variable {values order : List Interval}

def Fits (a b : Interval) : Prop := a.kind.compatible b.kind = true

instance : Std.Symm Fits := ⟨fun _ _ => Kind.compatible_symm⟩

theorem fits_union_iff {a b joined c : Interval} (made : a.union b = .ok joined) :
    Fits joined c ↔ Fits a c ∧ Fits b c := by
  obtain ⟨first, second⟩ := union_covers made
  rw [Fits, Fits, Fits, ← first.compatible_congr, ← second.compatible_congr, and_self]

/-- Values can be joined exactly if the kinds of any two of them go together. -/
theorem join_ok_iff : (∃ joined, join values = .ok joined) ↔ values.Pairwise Fits := by
  cases values with
  | nil => exact ⟨fun _ => .nil, fun _ => ⟨none, rfl⟩⟩
  | cons first rest =>
    constructor
    · rintro ⟨joined, made⟩
      obtain ⟨value, folded, _⟩ := map_eq_ok.mp made
      exact pairwise_of_foldlM fits_union_iff (fun made => union_ok_iff.mp ⟨_, made⟩) folded
    · intro pairwise
      have ⟨value, folded⟩ : ∃ value, rest.foldlM AbstractValue.union first = .ok value := by
        refine foldlM_ok_of_pairwise ?_ (fun _ => True) ?_ (fun _ _ => trivial) trivial pairwise
        · exact fits_union_iff
        · exact fun _ fits => union_ok_iff.mpr fits
      exact ⟨some value, map_eq_ok.mpr ⟨value, folded, rfl⟩⟩

theorem joinOf_foldlM {ms rest : List Interval} {first joined : Interval}
    (held : JoinOf ms first) (folded : rest.foldlM AbstractValue.union first = .ok joined) :
    JoinOf (ms ++ rest) joined := by
  induction rest generalizing ms first with
  | nil =>
    cases folded
    rwa [List.append_nil]
  | cons value rest ih =>
    rw [List.foldlM_cons] at folded
    obtain ⟨between, made, folded⟩ := bind_eq_ok.mp folded
    have later := ih (held.union (joinOf_singleton value) made) folded
    rwa [List.append_assoc] at later

theorem heldJoin_join {joined : Option Interval} (made : join values = .ok joined) :
    HeldJoin values joined := by
  cases values with
  | nil =>
    cases made
    rfl
  | cons first rest =>
    obtain ⟨value, folded, rfl⟩ := map_eq_ok.mp made
    exact ⟨List.cons_ne_nil first rest, joinOf_foldlM (joinOf_singleton first) folded⟩

theorem sameJoin_passed {expected : Option Interval} {orders : List (List Interval)}
    (same : ∀ order ∈ orders, ∃ received, join order = .ok received ∧
      (received == expected) = true) (index : Nat) :
    sameJoin expected index orders = .ok .passed := by
  induction orders generalizing index with
  | nil => rfl
  | cons order rest ih =>
    rw [List.forall_mem_cons] at same
    obtain ⟨⟨received, made, equal⟩, later⟩ := same
    rw [sameJoin, made]
    simp only [Bind.bind, Except.bind, if_pos equal]
    exact ih later (index + 1)

theorem joinOrderInvariance_passed {orders : List (List Interval)}
    (joinable : values.Pairwise Joinable) (permuted : ∀ order ∈ orders, order.Perm values) :
    joinOrderInvariance values orders = .passed := by
  have fitting : values.Pairwise Fits :=
    joinable.imp fun joinable => (joinable_iff.mp joinable).2
  obtain ⟨expected, made⟩ := join_ok_iff.mpr fitting
  have same : sameJoin expected 0 orders = .ok .passed := by
    apply sameJoin_passed
    intro order member
    have permuted := permuted order member
    have fitting := (permuted.pairwise_iff Kind.compatible_symm).mpr fitting
    obtain ⟨received, made'⟩ := join_ok_iff.mpr fitting
    refine ⟨received, made', beq_of_rel ?_⟩
    exact (heldJoin_join made').rel (heldJoin_join made) fun _ => permuted.mem_iff
  rw [joinOrderInvariance, made]
  simp only [Bind.bind, Except.bind, same, settle]

/-- Values of two join classes keep a list from being joined in any order. -/
theorem join_fails {a b : Interval} (left : a ∈ values) (right : b ∈ values)
    (discrete : a.kind.isFloating = false) (apart : ¬a.Joinable b) :
    ∃ error, join values = .error error := by
  cases made : join values with
  | error error => exact ⟨error, rfl⟩
  | ok joined =>
    have fitting : Fits a b := List.Pairwise.forall_of_forall
      (fun value _ => value.kind.compatible_refl) (join_ok_iff.mp ⟨joined, made⟩) left right
    exact absurd (joinable_iff.mpr ⟨discrete, fitting⟩) apart

end Law

/-- Values of one join class form a lattice with the join for union and the meet for intersection,
equal values being the same. Hence a list of them joins to the same value in every order, and a list
with values of two classes joins in none. -/
theorem Interval.joinable_lattice :
    (∀ a b c : Interval, a.Joinable b → b.Joinable c →
      (∃ joined met, a.union b = .ok joined ∧ a.intersection b = .ok met ∧
        (∃ l r, c.subsumes a = .ok l ∧ c.subsumes b = .ok r ∧ c.subsumes joined = .ok (l && r)) ∧
        ∃ l r, a.subsumes c = .ok l ∧ b.subsumes c = .ok r ∧ met.subsumes c = .ok (l && r)) ∧
      a.union b = b.union a ∧ a.union a = .ok a ∧
      ∃ ab bc abc, a.union b = .ok ab ∧ b.union c = .ok bc ∧ ab.union c = .ok abc ∧
        a.union bc = .ok abc) ∧
    (∀ values orders, values.Pairwise Joinable → (∀ order ∈ orders, order.Perm values) →
      Law.joinOrderInvariance values orders = .passed) ∧
    ∀ values : List Interval, ∀ a ∈ values, ∀ b ∈ values,
      a.kind.isFloating = false → ¬a.Joinable b →
      ∀ order, order.Perm values → ∃ error, Law.join order = .error error := by
  refine ⟨fun a b c ab bc => ?_, fun _ _ => Law.joinOrderInvariance_passed, ?_⟩
  · obtain ⟨discrete, compatible⟩ := joinable_iff.mp ab
    obtain ⟨joined, made⟩ := union_ok_iff.mpr compatible
    exact ⟨ab.bounds bc, made.trans (union_comm discrete made).symm, union_self discrete,
      ab.union_assoc bc⟩
  · intro values a left b right discrete apart order permuted
    exact Law.join_fails (permuted.mem_iff.mpr left) (permuted.mem_iff.mpr right) discrete apart

/-- Bytes, chars and shorts join to ints whichever comes first, and never with a reference. -/
theorem Interval.joinable_lattice_narrow :
    let byte : Interval := .integral .byte (.span (-3) 4 (by decide))
    let char : Interval := .integral .char (.span 2 9 (by decide))
    let short : Interval := .integral .short .empty
    byte.Joinable char ∧ char.Joinable short ∧
      byte.union char = .ok (.integral .int (.span (-3) 9 (by decide))) ∧
      byte.union char = char.union byte ∧ byte.union byte = .ok byte ∧
      (∃ bc cs bcs, byte.union char = .ok bc ∧ char.union short = .ok cs ∧
        bc.union short = .ok bcs ∧ byte.union cs = .ok bcs) ∧
      Law.joinOrderInvariance [byte, char, short] [[short, byte, char], [char, short, byte]] =
        .passed ∧
      ∃ error, Law.join [short, .reference .null, byte] = .error error := by
  intro byte char short
  have bc : byte.Joinable char := .integral rfl
  have cs : char.Joinable short := .integral rfl
  have bs : byte.Joinable short := .integral rfl
  obtain ⟨laws, orders, mixed⟩ := joinable_lattice
  obtain ⟨_, comm, self, assoc⟩ := laws byte char short bc cs
  refine ⟨bc, cs, rfl, comm, self, assoc, orders _ _ ?_ ?_, ?_⟩
  · simp [bc, bs, cs]
  · simp only [List.forall_mem_cons, List.not_mem_nil, false_implies, implies_true, and_true]
    exact ⟨@List.perm_append_comm _ [short] [byte, char],
      @List.perm_append_comm _ [char, short] [byte]⟩
  · have apart : ¬byte.Joinable (.reference .null) := by
      rw [joinable_iff]
      exact fun joinable => Bool.noConfusion joinable.2
    exact mixed [byte, .reference .null, short] byte (by simp) (.reference .null) (by simp) rfl
      apart _ (List.reverse_perm [byte, .reference .null, short])

end MethodFlow

import Mathlib.Data.List.Forall2

/-! Computations that may fail: what a successful one has gone through. -/
namespace MethodFlow

variable {ε α β : Type}

theorem bind_eq_ok {first : Except ε α} {next : α → Except ε β} {b : β} :
    first >>= next = .ok b ↔ ∃ a, first = .ok a ∧ next a = .ok b := by
  cases first with
  | error reason => simp [Bind.bind, Except.bind]
  | ok a => simp [Bind.bind, Except.bind]

theorem map_eq_ok {first : Except ε α} {f : α → β} {b : β} :
    f <$> first = .ok b ↔ ∃ a, first = .ok a ∧ f a = b := by
  cases first with
  | error reason => simp [Functor.map, Except.map]
  | ok a => simp [Functor.map, Except.map]

theorem map_eq_error {first : Except ε α} {f : α → β} {reason : ε} :
    f <$> first = .error reason ↔ first = .error reason := by
  cases first <;> simp [Functor.map, Except.map]

theorem exists_map_ok_iff {first : Except ε α} {f : α → β} :
    (∃ b, f <$> first = .ok b) ↔ ∃ a, first = .ok a := by
  cases first <;> simp [Functor.map, Except.map]

theorem exists_error_iff {result : Except ε α} :
    (∃ reason, result = .error reason) ↔ ¬∃ a, result = .ok a := by
  cases result <;> simp

theorem mapM_eq_ok {f : α → Except ε β} {list : List α} {results : List β} :
    list.mapM f = .ok results ↔ List.Forall₂ (fun a b => f a = .ok b) list results := by
  induction list generalizing results with
  | nil =>
    rw [List.mapM_nil, List.forall₂_nil_left_iff]
    constructor
    · intro made
      exact (Except.ok.inj made).symm
    · rintro rfl
      rfl
  | cons head rest ih =>
    rw [List.mapM_cons, bind_eq_ok, List.forall₂_cons_left_iff]
    constructor
    · rintro ⟨b, first, others⟩
      obtain ⟨bs, mapped, same⟩ := bind_eq_ok.mp others
      exact ⟨b, bs, first, ih.mp mapped, (Except.ok.inj same).symm⟩
    · rintro ⟨b, bs, first, mapped, rfl⟩
      exact ⟨b, first, bind_eq_ok.mpr ⟨bs, ih.mpr mapped, rfl⟩⟩

theorem mapM_ok_of_mem {f : α → Except ε β} {list : List α} {results : List β}
    (mapped : list.mapM f = .ok results) {a : α} (member : a ∈ list) :
    ∃ b ∈ results, f a = .ok b := by
  have related := mapM_eq_ok.mp mapped
  clear mapped
  induction related with
  | nil => cases member
  | cons first _ ih =>
    rcases List.mem_cons.mp member with rfl | inRest
    · exact ⟨_, List.mem_cons_self, first⟩
    · obtain ⟨b, among, found⟩ := ih inRest
      exact ⟨b, List.mem_cons_of_mem _ among, found⟩

theorem exists_of_mem_mapM {f : α → Except ε β} {list : List α} {results : List β}
    (mapped : list.mapM f = .ok results) {b : β} (member : b ∈ results) :
    ∃ a ∈ list, f a = .ok b := by
  have related := mapM_eq_ok.mp mapped
  clear mapped
  induction related with
  | nil => cases member
  | cons first _ ih =>
    rcases List.mem_cons.mp member with rfl | inRest
    · exact ⟨_, List.mem_cons_self, first⟩
    · obtain ⟨a, among, found⟩ := ih inRest
      exact ⟨a, List.mem_cons_of_mem _ among, found⟩

theorem mapM_ok_of_subset {f : α → Except ε β} {part list : List α} {results : List β}
    (mapped : list.mapM f = .ok results) (subset : ∀ a ∈ part, a ∈ list) :
    ∃ results', part.mapM f = .ok results' ∧ ∀ b ∈ results', b ∈ results := by
  induction part with
  | nil => exact ⟨[], rfl, nofun⟩
  | cons a rest ih =>
    rw [List.forall_mem_cons] at subset
    obtain ⟨b, among, made⟩ := mapM_ok_of_mem mapped subset.1
    obtain ⟨bs, others, inside⟩ := ih subset.2
    refine ⟨b :: bs, mapM_eq_ok.mpr (.cons made (mapM_eq_ok.mp others)), ?_⟩
    exact List.forall_mem_cons.mpr ⟨among, inside⟩

/-! An operation that joins two things if they fit, where a joined thing fits whatever both of its
parts fit. A list of things can then be joined exactly if any two of them fit. -/
section Folds

variable {op : α → α → Except ε α} {Fits : α → α → Prop} {first : α} {list : List α}
  (fits_iff : ∀ {a b c d}, op a b = .ok c → (Fits c d ↔ Fits a d ∧ Fits b d))

include fits_iff

theorem pairwise_of_foldlM (fits : ∀ {a b c}, op a b = .ok c → Fits a b) {result : α}
    (folded : list.foldlM op first = .ok result) : (first :: list).Pairwise Fits := by
  induction list generalizing first with
  | nil => exact List.pairwise_singleton ..
  | cons head rest ih =>
    rw [List.foldlM_cons] at folded
    obtain ⟨between, made, folded⟩ := bind_eq_ok.mp folded
    obtain ⟨later, others⟩ := List.pairwise_cons.mp (ih folded)
    simp only [fits_iff made] at later
    rw [List.pairwise_cons, List.forall_mem_cons, List.pairwise_cons]
    exact ⟨⟨fits made, fun other member => (later other member).1⟩,
      fun other member => (later other member).2, others⟩

theorem foldlM_ok_of_pairwise (Good : α → Prop)
    (ok : ∀ {a b}, Good a → Fits a b → ∃ c, op a b = .ok c)
    (kept : ∀ {a b c}, Good a → op a b = .ok c → Good c) (good : Good first)
    (pairwise : (first :: list).Pairwise Fits) : ∃ result, list.foldlM op first = .ok result := by
  induction list generalizing first with
  | nil => exact ⟨first, rfl⟩
  | cons head rest ih =>
    rw [List.pairwise_cons, List.forall_mem_cons, List.pairwise_cons] at pairwise
    obtain ⟨⟨fits, fitsFirst⟩, fitsHead, others⟩ := pairwise
    obtain ⟨between, made⟩ := ok good fits
    have later : ∀ other ∈ rest, Fits between other := fun other member =>
      (fits_iff made).mpr ⟨fitsFirst other member, fitsHead other member⟩
    obtain ⟨result, folded⟩ := ih (kept good made) (List.pairwise_cons.mpr ⟨later, others⟩)
    refine ⟨result, ?_⟩
    rw [List.foldlM_cons]
    exact bind_eq_ok.mpr ⟨between, made, folded⟩

end Folds

/-! Steps that fail because of what they are given, as far as it is viewed, and not because of what
was done before. A run of them reports the first thing that fails. -/
section Failing

variable {σ : Type} {step : σ → α → Except ε σ} {view : α → β} {Fails : β → ε → Prop}
  (fails_iff : ∀ state a reason, step state a = .error reason ↔ Fails (view a) reason)

include fails_iff

theorem passes_of_ok {state next : σ} {a : α} (stepped : step state a = .ok next) (reason : ε) :
    ¬Fails (view a) reason := by
  rw [← fails_iff state, stepped]
  nofun

theorem foldlM_eq_error_iff {state : σ} {list : List α} {reason : ε} :
    list.foldlM step state = .error reason ↔
      ∃ front b back, list.map view = front ++ b :: back ∧
        (∀ earlier ∈ front, ∀ reason, ¬Fails earlier reason) ∧ Fails b reason := by
  induction list generalizing state with
  | nil => simp [Pure.pure, Except.pure]
  | cons head rest ih =>
    rw [List.foldlM_cons, List.map_cons]
    cases stepped : step state head with
    | error other =>
      have failed := (fails_iff state head other).mp stepped
      constructor
      · intro same
        cases same
        exact ⟨[], view head, rest.map view, rfl, nofun, failed⟩
      · rintro ⟨front, b, back, split, earlier, fails⟩
        cases front with
        | nil =>
          cases split
          exact stepped.symm.trans ((fails_iff state head reason).mpr fails)
        | cons first front =>
          obtain ⟨rfl, _⟩ := List.cons.inj split
          exact absurd failed (earlier _ List.mem_cons_self other)
    | ok next =>
      have passes := passes_of_ok fails_iff stepped
      refine ih.trans ?_
      constructor
      · rintro ⟨front, b, back, split, earlier, fails⟩
        exact ⟨view head :: front, b, back, congrArg _ split,
          List.forall_mem_cons.mpr ⟨passes, earlier⟩, fails⟩
      · rintro ⟨front, b, back, split, earlier, fails⟩
        cases front with
        | nil =>
          cases split
          exact absurd fails (passes reason)
        | cons first front =>
          exact ⟨front, b, back, (List.cons.inj split).2, (List.forall_mem_cons.mp earlier).2,
            fails⟩

theorem foldlM_ok_iff {state : σ} {list : List α} :
    (∃ result, list.foldlM step state = .ok result) ↔
      ∀ b ∈ list.map view, ∀ reason, ¬Fails b reason := by
  induction list generalizing state with
  | nil => simp [Pure.pure, Except.pure]
  | cons head rest ih =>
    rw [List.foldlM_cons, List.map_cons, List.forall_mem_cons]
    cases stepped : step state head with
    | error other =>
      have failed := (fails_iff state head other).mp stepped
      constructor
      · rintro ⟨_, made⟩
        cases made
      · rintro ⟨passes, _⟩
        exact absurd failed (passes other)
    | ok next => exact ih.trans (and_iff_right (passes_of_ok fails_iff stepped)).symm

end Failing

end MethodFlow

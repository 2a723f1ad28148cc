import Mathlib.Data.List.Induction
import MethodFlow.Proofs.Directives

/-! Which lists of directives can be assembled, and what is reported of the others: the first
directive that is refused, or else the first jump that cannot be filled in. A refused directive is
noted when it is given; jumps are looked at in the end, when every label has its place. -/
namespace MethodFlow

/-! ## What is reported -/

def Bound (directives : List Directive) (label : Nat) : Prop :=
  ∃ target, BoundAt directives label target

def Accepted (directives : List Directive) : Prop :=
  ∀ before directive after, directives = before ++ directive :: after →
    ∀ error, ¬directive.Refused (Bound before) error

/-- The error of the first directive that is refused. -/
def FirstRefused (directives : List Directive) (error : AssembleError) : Prop :=
  ∃ before directive after, directives = before ++ directive :: after ∧ Accepted before ∧
    directive.Refused (Bound before) error

/-- The jump cannot be filled in, with labels bound at the given places. -/
inductive OpenJump.Fails (bound : Nat → Nat → Prop) (jump : OpenJump) : AssembleError → Prop
  | unbound (never : ∀ target, ¬bound jump.label target) :
      Fails bound jump (.unboundLabel jump.label)
  | far {target : Nat} (place : bound jump.label target) (narrow : jump.wide = false)
      (far : ¬(-32768 ≤ (target : Int) - jump.origin ∧ (target : Int) - jump.origin ≤ 32767)) :
      Fails bound jump (.outOfRange jump.origin target)

def openJumps (assembly : Assembly) : List Directive → List OpenJump
  | [] => []
  | directive :: rest =>
    directive.openJumps assembly.code.size ++ openJumps (assembly.emit directive) rest

/-- The error of the first jump that cannot be filled in. -/
def FirstFailing (directives : List Directive) (error : AssembleError) : Prop :=
  ∃ front jump back, openJumps .empty directives = front ++ jump :: back ∧
    (∀ earlier ∈ front, ∀ error, ¬earlier.Fails (BoundAt directives) error) ∧
    jump.Fails (BoundAt directives) error

/-- Nothing is wrong with the directives: no label is bound twice, no emitter is given an opcode
that is not its own, arrays have coded elements, interface calls have descriptors that can be read,
and every jump leads to a label that is bound, near enough for its operand. -/
structure WellFormed (directives : List Directive) : Prop where
  boundOnce {before after : List Directive} {label : Nat}
    (split : directives = before ++ .bind label :: after) : ¬Bound before label
  localAccesses {opcode : Opcode} {index : UInt16}
    (given : .localAccess opcode index ∈ directives) : opcode ∈ Opcode.localAccesses
  branches {opcode : Opcode} {label : Nat} (given : .branch opcode label ∈ directives) :
    opcode ∈ Opcode.narrowJumps ++ Opcode.wideJumps
  fields {opcode : Opcode} {member : MemberRef} (given : .field opcode member ∈ directives) :
    opcode ∈ Opcode.fieldAccesses
  calls {opcode : Opcode} {member : MemberRef} (given : .invoke opcode member ∈ directives) :
    opcode ∈ Opcode.calls
  classes {opcode : Opcode} {className : String} (given : .classOp opcode className ∈ directives) :
    opcode ∈ Opcode.classOperations
  elements {element : Kind} (given : .newarray element ∈ directives) : element ∈ elementKinds
  descriptors {member : MemberRef} (given : .invoke .invokeinterface member ∈ directives) :
    ∃ descriptor, MethodDescriptor.parse member.descriptor = .ok descriptor
  goals {jump : OpenJump} (pending : jump ∈ openJumps .empty directives) :
    Bound directives jump.label
  near {jump : OpenJump} {target : Nat} (pending : jump ∈ openJumps .empty directives)
    (narrow : jump.wide = false) (place : BoundAt directives jump.label target) :
    -32768 ≤ (target : Int) - jump.origin ∧ (target : Int) - jump.origin ≤ 32767

theorem wellFormed_iff {directives : List Directive} :
    WellFormed directives ↔
      Accepted directives ∧
        ∀ jump ∈ openJumps .empty directives, ∀ error, ¬jump.Fails (BoundAt directives) error := by
  constructor
  · intro formed
    constructor
    · intro before directive after split error refused
      have given : directive ∈ directives := by
        rw [split]
        exact List.mem_append_right _ List.mem_cons_self
      cases refused with
      | bind again => exact formed.boundOnce split again
      | localAccess other => exact other (formed.localAccesses given)
      | branch other => exact other (formed.branches given)
      | field other => exact other (formed.fields given)
      | invoke other => exact other (formed.calls given)
      | descriptor malformed =>
        obtain ⟨descriptor, parsed⟩ := formed.descriptors given
        cases malformed.symm.trans parsed
      | classOp other => exact other (formed.classes given)
      | newarray uncoded => exact uncoded (formed.elements given)
    · intro jump member error fails
      cases fails with
      | unbound never =>
        obtain ⟨target, place⟩ := formed.goals member
        exact never target place
      | far place narrow far => exact far (formed.near member narrow place)
  · rintro ⟨accepted, filled⟩
    have holds {directive : Directive} {P : Prop} {error : AssembleError}
        (given : directive ∈ directives) (refuses : ∀ bound, ¬P → directive.Refused bound error) :
        P := by
      obtain ⟨before, after, split⟩ := List.append_of_mem given
      apply Classical.byContradiction
      intro wrong
      exact accepted before directive after split error (refuses _ wrong)
    constructor
    case boundOnce =>
      intro before after label split again
      exact accepted _ _ _ split _ (.bind again)
    case localAccesses => exact fun given => holds given fun _ => .localAccess
    case branches => exact fun given => holds given fun _ => .branch
    case fields => exact fun given => holds given fun _ => .field
    case calls => exact fun given => holds given fun _ => .invoke
    case classes => exact fun given => holds given fun _ => .classOp
    case elements => exact fun given => holds given fun _ => .newarray
    case descriptors =>
      intro member given
      cases parsed : MethodDescriptor.parse member.descriptor with
      | ok descriptor => exact ⟨descriptor, rfl⟩
      | error reason => exact holds given fun _ _ => .descriptor parsed
    case goals =>
      intro jump pending
      apply Classical.byContradiction
      intro never
      exact filled jump pending _ (.unbound (not_exists.mp never))
    case near =>
      intro jump target pending narrow place
      apply Decidable.of_not_not
      intro far
      exact filled jump pending _ (.far place narrow far)

/-! ## One directive more -/

theorem concat_eq_split {α : Type} {list before after : List α} {last item : α} :
    list ++ [last] = before ++ item :: after ↔
      (list = before ∧ last = item ∧ after = []) ∨
        ∃ rest, after = rest ++ [last] ∧ list = before ++ item :: rest := by
  rcases List.eq_nil_or_concat after with rfl | ⟨rest, final, rfl⟩
  · simp
  · rw [List.concat_eq_append, ← List.cons_append, ← List.append_assoc]
    constructor
    · intro same
      obtain ⟨rfl, equal⟩ := List.append_inj' same rfl
      cases equal
      exact .inr ⟨rest, rfl, rfl⟩
    · rintro (⟨_, _, nothing⟩ | ⟨others, same, rfl⟩)
      · simp at nothing
      · obtain ⟨rfl, equal⟩ := List.append_inj' same rfl
        cases equal
        rfl

section

variable {directives : List Directive} {directive : Directive} {error : AssembleError}
  {label target : Nat}

theorem boundAt_concat_iff :
    BoundAt (directives ++ [directive]) label target ↔
      BoundAt directives label target ∨
        directive = .bind label ∧ label < (Assembly.run directives).labels.size ∧
          (Assembly.run directives).code.size = target := by
  constructor
  · rintro ⟨before, after, split, made, here⟩
    rcases concat_eq_split.mp split with ⟨rfl, rfl, _⟩ | ⟨rest, _, rfl⟩
    · exact .inr ⟨rfl, made, here⟩
    · exact .inl ⟨before, rest, rfl, made, here⟩
  · rintro (⟨before, after, rfl, made, here⟩ | ⟨rfl, made, here⟩)
    · exact ⟨before, after ++ [directive], by simp, made, here⟩
    · exact ⟨directives, [], rfl, made, here⟩

theorem accepted_concat_iff :
    Accepted (directives ++ [directive]) ↔
      Accepted directives ∧ ∀ error, ¬directive.Refused (Bound directives) error := by
  constructor
  · intro accepted
    refine ⟨?_, accepted directives directive [] rfl⟩
    rintro before earlier after rfl
    exact accepted before earlier (after ++ [directive]) (by simp)
  · rintro ⟨accepted, last⟩ before earlier after split
    rcases concat_eq_split.mp split with ⟨rfl, rfl, _⟩ | ⟨rest, _, rfl⟩
    · exact last
    · exact accepted before earlier rest rfl

theorem firstRefused_concat_iff :
    FirstRefused (directives ++ [directive]) error ↔
      FirstRefused directives error ∨
        Accepted directives ∧ directive.Refused (Bound directives) error := by
  constructor
  · rintro ⟨before, refused, after, split, accepted, refusal⟩
    rcases concat_eq_split.mp split with ⟨rfl, rfl, _⟩ | ⟨rest, _, rfl⟩
    · exact .inr ⟨accepted, refusal⟩
    · exact .inl ⟨before, refused, rest, rfl, accepted, refusal⟩
  · rintro (⟨before, refused, after, rfl, accepted, refusal⟩ | ⟨accepted, refusal⟩)
    · exact ⟨before, refused, after ++ [directive], by simp, accepted, refusal⟩
    · exact ⟨directives, directive, [], rfl, accepted, refusal⟩

end

/-! ## Labels -/

namespace Assembly

theorem Emitted.keeps {assembly after : Assembly} {directive : Directive} {label target : Nat}
    (emitted : Emitted assembly directive after)
    (known : assembly.labels[label]? = some (some target)) :
    after.labels[label]? = some (some target) := by
  have inside := (Array.getElem?_eq_some_iff.mp known).1
  cases emitted with
  | label =>
    rw [Array.getElem?_push, if_neg (Nat.ne_of_lt inside)]
    exact known
  | bind bound free =>
    rw [Array.getElem?_setIfInBounds, if_neg]
    · exact known
    · rintro rfl
      exact free ⟨target, known⟩
  | fail => exact known
  | lay emits => exact emits.labels ▸ known

theorem emit_bind {assembly : Assembly} {label : Nat} (made : label < assembly.labels.size) :
    ∃ found, (assembly.emit (.bind label)).labels[label]? = some (some found) ∧
      (¬assembly.Known label → found = assembly.code.size) := by
  simp only [emit]
  split
  · rename_i target known
    exact ⟨target, known, fun free => absurd ⟨target, known⟩ free⟩
  · exact ⟨assembly.code.size, by simp [made], fun _ => rfl⟩

variable {directives : List Directive}

/-- A label that was bound more than once is where it was bound first. -/
theorem labels_of_boundAt {label target : Nat} (bound : BoundAt directives label target) :
    ∃ found, (run directives).labels[label]? = some (some found) ∧
      (Accepted directives → found = target) := by
  induction directives using List.reverseRecOn with
  | nil =>
    obtain ⟨before, after, split, _⟩ := bound
    simp at split
  | append_singleton before directive ih =>
    rw [run_concat, accepted_concat_iff]
    rcases boundAt_concat_iff.mp bound with earlier | ⟨rfl, made, here⟩
    · obtain ⟨found, known, same⟩ := ih earlier
      exact ⟨found, (emit_emitted _ _).keeps known, fun accepted => same accepted.1⟩
    · obtain ⟨found, known, same⟩ := emit_bind made
      refine ⟨found, known, fun accepted => (same ?_).trans here⟩
      rintro ⟨earlier, place⟩
      exact accepted.2 _ (.bind ⟨earlier, boundAt_of_labels place⟩)

theorem known_eq_bound (directives : List Directive) :
    (run directives).Known = Bound directives := by
  funext label
  apply propext
  constructor
  · rintro ⟨target, known⟩
    exact ⟨target, boundAt_of_labels known⟩
  · rintro ⟨target, bound⟩
    obtain ⟨found, known, _⟩ := labels_of_boundAt bound
    exact ⟨found, known⟩

theorem boundAt_eq_labels (accepted : Accepted directives) :
    BoundAt directives = fun label target =>
      (run directives).labels[label]? = some (some target) := by
  funext label target
  apply propext
  constructor
  · intro bound
    obtain ⟨found, known, same⟩ := labels_of_boundAt bound
    exact same accepted ▸ known
  · exact boundAt_of_labels

end Assembly

/-! ## Refusals -/

theorem Directive.Refused.unique {bound : Nat → Prop} {directive : Directive}
    {first second : AssembleError} (one : directive.Refused bound first)
    (other : directive.Refused bound second) : first = second := by
  cases one with
  | bind | localAccess | branch | field | classOp | newarray =>
    cases other
    rfl
  | invoke untaken =>
    cases other with
    | invoke => rfl
    | descriptor => exact absurd (by decide) untaken
  | descriptor malformed =>
    cases other with
    | invoke untaken => exact absurd (by decide) untaken
    | descriptor again => exact congrArg _ (Except.error.inj (malformed.symm.trans again))

namespace Assembly

theorem Emitted.error_cases {assembly after : Assembly} {directive : Directive}
    (emitted : Emitted assembly directive after) :
    (after.error = assembly.error ∧ ∀ error, ¬directive.Refused assembly.Known error) ∨
      ∃ error, directive.Refused assembly.Known error ∧ after = assembly.fail error := by
  cases emitted with
  | label made =>
    subst made
    exact .inl ⟨rfl, by rintro _ ⟨⟩⟩
  | bind bound free =>
    subst bound
    refine .inl ⟨rfl, fun error refused => ?_⟩
    cases refused with
    | bind again => exact free again
  | fail refused => exact .inr ⟨_, refused, rfl⟩
  | lay emits accepted => exact .inl ⟨emits.error, accepted⟩

variable {before : List Directive} {directive : Directive} {error : AssembleError}

theorem run_concat_accepted (accepted : ∀ error, ¬directive.Refused (Bound before) error) :
    (run (before ++ [directive])).error = (run before).error := by
  rw [run_concat]
  rcases (emit_emitted (run before) directive).error_cases with ⟨same, _⟩ | ⟨error, refused, _⟩
  · exact same
  · rw [known_eq_bound] at refused
    exact absurd refused (accepted error)

theorem run_concat_refused (refused : directive.Refused (Bound before) error) :
    run (before ++ [directive]) =
      { run before with error := some ((run before).error.getD error) } := by
  rw [run_concat]
  rcases (emit_emitted (run before) directive).error_cases with
    ⟨_, accepted⟩ | ⟨other, again, failed⟩
  · rw [known_eq_bound] at accepted
    exact absurd refused (accepted error)
  · rw [known_eq_bound] at again
    rw [failed, refused.unique again, fail]
    cases (run before).error <;> rfl

/-- The error that is kept is that of the first directive that was refused. -/
theorem run_error (directives : List Directive) :
    ((run directives).error = none ↔ Accepted directives) ∧
      ∀ error, (run directives).error = some error ↔ FirstRefused directives error := by
  induction directives using List.reverseRecOn with
  | nil =>
    constructor
    · refine iff_of_true rfl fun before directive after split => ?_
      simp at split
    · refine fun error => iff_of_false (Option.some_ne_none _).symm ?_
      rintro ⟨before, directive, after, split, _⟩
      simp at split
  | append_singleton before directive ih =>
    simp only [accepted_concat_iff, firstRefused_concat_iff]
    by_cases refusal : ∃ error, directive.Refused (Bound before) error
    · obtain ⟨reason, refused⟩ := refusal
      rw [run_concat_refused refused]
      cases kept : (run before).error with
      | none =>
        have accepted := ih.1.mp kept
        have noneBefore (error : AssembleError) : ¬FirstRefused before error := by
          simp [← ih.2, kept]
        refine ⟨iff_of_false (Option.some_ne_none _) fun all => all.2 reason refused, ?_⟩
        intro error
        constructor
        · intro same
          cases same
          exact .inr ⟨accepted, refused⟩
        · rintro (first | ⟨_, again⟩)
          · exact absurd first (noneBefore error)
          · exact congrArg some (refused.unique again)
      | some earlier =>
        have notAccepted : ¬Accepted before := by simp [← ih.1, kept]
        simp [← ih.2, kept, notAccepted]
    · rw [not_exists] at refusal
      rw [run_concat_accepted refusal]
      simp [refusal, ih]

end Assembly

/-! ## Jumps -/

namespace Assembly

def pending (assembly : Assembly) : List OpenJump := assembly.fixups.toList.map Fixup.openJump

theorem Emitted.pending {assembly after : Assembly} {directive : Directive}
    (emitted : Emitted assembly directive after) :
    after.pending = assembly.pending ++ directive.openJumps assembly.code.size := by
  cases emitted with
  | label made =>
    subst made
    exact (List.append_nil _).symm
  | bind bound =>
    subst bound
    exact (List.append_nil _).symm
  | fail _ none =>
    rw [none]
    exact (List.append_nil _).symm
  | lay emits _ holes =>
    rw [Assembly.pending, emits.fixups, List.map_append, Piece.openJump_fixups, holes]
    rfl

theorem foldl_pending (assembly : Assembly) (directives : List Directive) :
    (directives.foldl emit assembly).pending =
      assembly.pending ++ openJumps assembly directives := by
  induction directives generalizing assembly with
  | nil => exact (List.append_nil _).symm
  | cons directive rest ih =>
    rw [List.foldl_cons, ih, (emit_emitted assembly directive).pending, List.append_assoc]
    rfl

theorem resolve_error_iff {labels : Array (Option Nat)} (code : Array UInt8) (fixup : Fixup)
    (error : AssembleError) :
    resolve labels code fixup = .error error ↔
      fixup.openJump.Fails (fun label target => labels[label]? = some (some target)) error := by
  simp only [resolve]
  split
  · rename_i target known
    have bound : ¬∀ target, ¬labels[fixup.label]? = some (some target) := fun never =>
      never target known
    have place {other : Nat} (found : labels[fixup.label]? = some (some other)) : target = other :=
      Option.some.inj (Option.some.inj (known.symm.trans found))
    split
    · rename_i wide
      refine iff_of_false nofun fun fails => ?_
      cases fails with
      | unbound never => exact bound never
      | far _ narrow => cases narrow.symm.trans wide
    split
    · rename_i fits
      rw [Bool.and_eq_true, decide_eq_true_eq, decide_eq_true_eq] at fits
      refine iff_of_false nofun fun fails => ?_
      cases fails with
      | unbound never => exact bound never
      | far found _ far => exact far (place found ▸ fits)
    · rename_i narrow far
      rw [Bool.and_eq_true, decide_eq_true_eq, decide_eq_true_eq] at far
      constructor
      · intro same
        cases same
        exact .far known (Bool.eq_false_of_not_eq_true narrow) far
      · intro fails
        cases fails with
        | unbound never => exact absurd never bound
        | far found => exact place found ▸ rfl
  · rename_i unknown
    constructor
    · intro same
      cases same
      exact .unbound unknown
    · intro fails
      cases fails with
      | unbound => rfl
      | far found => exact absurd found (unknown _)

end Assembly

section

variable {directives : List Directive}

theorem openJumps_eq_pending (directives : List Directive) :
    openJumps .empty directives = (Assembly.run directives).pending :=
  (Assembly.foldl_pending .empty directives).symm

theorem assemble_of_refused {error : AssembleError}
    (kept : (Assembly.run directives).error = some error) :
    assemble directives = .error error := by
  rw [assemble, Assembly.finish, kept]

theorem assemble_of_accepted (kept : (Assembly.run directives).error = none) :
    assemble directives =
      (MethodBody.mk · (Assembly.run directives).pool) <$>
        (Assembly.run directives).fixups.toList.foldlM
          (Assembly.resolve (Assembly.run directives).labels) (Assembly.run directives).code := by
  rw [assemble, Assembly.finish, kept, ← Array.foldlM_toList]
  exact bind_pure_comp ..

theorem assemble_error_iff {error : AssembleError} :
    assemble directives = .error error ↔
      FirstRefused directives error ∨ Accepted directives ∧ FirstFailing directives error := by
  obtain ⟨accepted_iff, first_iff⟩ := Assembly.run_error directives
  cases kept : (Assembly.run directives).error with
  | some reason =>
    have notAccepted : ¬Accepted directives := by simp [← accepted_iff, kept]
    rw [assemble_of_refused kept, ← first_iff, kept]
    simp [notAccepted]
  | none =>
    have accepted := accepted_iff.mp kept
    have noneRefused : ¬FirstRefused directives error := by simp [← first_iff, kept]
    rw [assemble_of_accepted kept, map_eq_error, foldlM_eq_error_iff Assembly.resolve_error_iff,
      or_iff_right noneRefused, and_iff_right accepted, FirstFailing, openJumps_eq_pending,
      Assembly.boundAt_eq_labels accepted]
    rfl

theorem assemble_ok_iff : (∃ body, assemble directives = .ok body) ↔ WellFormed directives := by
  obtain ⟨accepted_iff, _⟩ := Assembly.run_error directives
  rw [wellFormed_iff]
  cases kept : (Assembly.run directives).error with
  | some reason =>
    have notAccepted : ¬Accepted directives := by simp [← accepted_iff, kept]
    rw [assemble_of_refused kept]
    simp [notAccepted]
  | none =>
    have accepted := accepted_iff.mp kept
    rw [assemble_of_accepted kept, exists_map_ok_iff, foldlM_ok_iff Assembly.resolve_error_iff,
      and_iff_right accepted, openJumps_eq_pending, Assembly.boundAt_eq_labels accepted]
    rfl

end

/-- An assembly succeeds exactly if nothing is wrong with its directives. Otherwise the first
directive that is refused is reported, or else the first jump in the order of emission that cannot
be filled in. A directive that is refused changes nothing but the failure that is kept. -/
theorem assemble_reports_first (directives : List Directive) :
    ((∃ body, assemble directives = .ok body) ↔ WellFormed directives) ∧
    (∀ error, assemble directives = .error error ↔
      FirstRefused directives error ∨ Accepted directives ∧ FirstFailing directives error) ∧
    ∀ before directive error, directive.Refused (Bound before) error →
      Assembly.run (before ++ [directive]) =
        { Assembly.run before with error := some ((Assembly.run before).error.getD error) } := by
  refine ⟨assemble_ok_iff, fun error => assemble_error_iff, ?_⟩
  intro before directive error refused
  exact Assembly.run_concat_refused refused

def roundabout : List Directive :=
  [.label, .label, .branch .goto 0, .bind 1, .op .returnVoid, .bind 0, .branch .goto 1]

/-- The second binding of a label is reported, and not the opcode that is refused after it. -/
theorem assemble_reports_first_rebound :
    WellFormed roundabout ∧
    assemble (roundabout ++ .bind 0 :: [.localAccess .iadd 0]) = .error (.rebound 0) ∧
    (Assembly.run (roundabout ++ [.bind 0])).code = (Assembly.run roundabout).code := by
  obtain ⟨ok_iff, _, unchanged⟩ := assemble_reports_first roundabout
  have formed : WellFormed roundabout := ok_iff.mp ⟨_, rfl⟩
  have refused : (Directive.bind 0).Refused (Bound roundabout) (.rebound 0) :=
    .bind ⟨4, [.label, .label, .branch .goto 0, .bind 1, .op .returnVoid], [.branch .goto 1], rfl,
      by decide, rfl⟩
  refine ⟨formed, ?_, by rw [unchanged _ _ _ refused]⟩
  apply ((assemble_reports_first _).2.1 _).mpr
  exact .inl ⟨roundabout, .bind 0, [.localAccess .iadd 0], rfl, (wellFormed_iff.mp formed).1,
    refused⟩

end MethodFlow

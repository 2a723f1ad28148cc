import Mathlib.Data.List.TakeWhile
import MethodFlow.Code.Descriptor

/-! The grammar of descriptors as syntax trees with their spellings. Reading a descriptor accepts
exactly the spellings and gives the kinds of the tree, and no text is the spelling of two trees. -/
namespace MethodFlow

def primitiveKinds : List (Char × Kind) :=
  [('Z', .boolean), ('B', .byte), ('C', .char), ('S', .short), ('I', .int), ('J', .long),
    ('F', .float), ('D', .double)]

/-- A field type; the name of a class is not empty and has no semicolon. -/
inductive FieldType
  | primitive (letter : Char) (kind : Kind) (listed : (letter, kind) ∈ primitiveKinds)
  | object (name : List Char) (named : name ≠ []) (plain : ';' ∉ name)
  | array (element : FieldType)

namespace FieldType

def spelling : FieldType → List Char
  | primitive letter _ _ => [letter]
  | object name _ _ => 'L' :: (name ++ [';'])
  | array element => '[' :: element.spelling

def kind : FieldType → Kind
  | primitive _ kind _ => kind
  | object .. => .reference
  | array _ => .reference

theorem spelling_ne_nil (type : FieldType) : type.spelling ≠ [] := by
  cases type <;> simp [spelling]

end FieldType

section Stops

variable {stop : Char} {front ahead rest others chars : List Char}

theorem cut_at_first (absent : stop ∉ front) (rest : List Char) :
    (front ++ stop :: rest).takeWhile (· != stop) = front ∧
      (front ++ stop :: rest).dropWhile (· != stop) = stop :: rest := by
  have passed : ∀ char ∈ front, (char != stop) = true := by
    intro char member
    exact bne_iff_ne.mpr fun same => absent (same ▸ member)
  rw [List.takeWhile_append_of_pos passed, List.dropWhile_append_of_pos passed]
  simp

theorem first_of_cut (found : chars.dropWhile (· != stop) = stop :: rest) :
    chars = chars.takeWhile (· != stop) ++ stop :: rest ∧
      stop ∉ chars.takeWhile (· != stop) := by
  refine ⟨by rw [← found, List.takeWhile_append_dropWhile], fun member => ?_⟩
  have passed := List.mem_takeWhile_imp member
  simp at passed

theorem cut_unique (absent : stop ∉ front) (missing : stop ∉ ahead)
    (same : front ++ stop :: rest = ahead ++ stop :: others) : front = ahead ∧ rest = others := by
  obtain ⟨early, late⟩ := cut_at_first absent rest
  obtain ⟨first, second⟩ := cut_at_first missing others
  rw [same] at early late
  exact ⟨early.symm.trans first, (List.cons.inj (late.symm.trans second)).2⟩

end Stops

theorem splitType_primitive {letter : Char} {kind : Kind} (listed : (letter, kind) ∈ primitiveKinds)
    (rest : List Char) : splitType (letter :: rest) = some (kind, rest) := by
  simp only [primitiveKinds, List.mem_cons, Prod.mk.injEq, List.not_mem_nil, or_false] at listed
  rcases listed with ⟨rfl, rfl⟩ | ⟨rfl, rfl⟩ | ⟨rfl, rfl⟩ | ⟨rfl, rfl⟩ | ⟨rfl, rfl⟩ | ⟨rfl, rfl⟩ |
    ⟨rfl, rfl⟩ | ⟨rfl, rfl⟩ <;> rfl

theorem splitType_spelling (type : FieldType) (rest : List Char) :
    splitType (type.spelling ++ rest) = some (type.kind, rest) := by
  induction type with
  | primitive letter kind listed => exact splitType_primitive listed rest
  | object name named plain =>
    obtain ⟨before, after⟩ := cut_at_first plain rest
    obtain ⟨first, others, rfl⟩ := List.exists_cons_of_ne_nil named
    simp only [FieldType.spelling, List.cons_append, List.append_assoc, List.nil_append] at *
    simp only [splitType, before, after]
    rfl
  | array element ih =>
    simp only [FieldType.spelling, List.cons_append, splitType, ih]
    rfl

theorem exists_spelling {chars rest : List Char} {kind : Kind}
    (split : splitType chars = some (kind, rest)) :
    ∃ type : FieldType, chars = type.spelling ++ rest ∧ type.kind = kind := by
  fun_induction splitType chars generalizing kind rest with
  | case9 tail first others after dropped taken =>
    cases split
    obtain ⟨whole, plain⟩ := first_of_cut dropped
    rw [taken] at whole plain
    refine ⟨.object (first :: others) (List.cons_ne_nil _ _) plain, ?_, rfl⟩
    simpa [FieldType.spelling] using whole
  | case11 tail inner after found ih =>
    cases split
    obtain ⟨element, rfl, _⟩ := ih found
    exact ⟨.array element, rfl, rfl⟩
  | case10 | case12 | case13 => cases split
  | _ =>
    cases split
    exact ⟨.primitive _ _ (by simp [primitiveKinds]), rfl, rfl⟩

theorem splitType_eq_some_iff {chars rest : List Char} {kind : Kind} :
    splitType chars = some (kind, rest) ↔
      ∃ type : FieldType, chars = type.spelling ++ rest ∧ type.kind = kind := by
  constructor
  · exact exists_spelling
  · rintro ⟨type, rfl, rfl⟩
    exact splitType_spelling type rest

namespace FieldType

theorem spelling_append_inj {first second : FieldType} {rest others : List Char}
    (same : first.spelling ++ rest = second.spelling ++ others) :
    first = second ∧ rest = others := by
  induction first generalizing second with
  | primitive letter kind listed =>
    have read := splitType_primitive listed rest
    cases second with
    | primitive letter' kind' listed' =>
      cases same
      cases read.symm.trans (splitType_primitive listed' rest)
      exact ⟨rfl, rfl⟩
    | object name named plain =>
      cases same
      simp [primitiveKinds] at listed
    | array element =>
      cases same
      simp [primitiveKinds] at listed
  | object name named plain =>
    cases second with
    | primitive letter' kind' listed' =>
      cases same
      simp [primitiveKinds] at listed'
    | object name' named' plain' =>
      simp only [spelling, List.cons_append, List.append_assoc, List.cons.injEq, true_and,
        List.nil_append] at same
      obtain ⟨rfl, rfl⟩ := cut_unique plain plain' same
      exact ⟨rfl, rfl⟩
    | array element => cases same
  | array element ih =>
    cases second with
    | primitive letter' kind' listed' =>
      cases same
      simp [primitiveKinds] at listed'
    | object name named plain => cases same
    | array element' =>
      obtain ⟨rfl, rfl⟩ := ih (List.cons.inj same).2
      exact ⟨rfl, rfl⟩

theorem spelling_injective {first second : FieldType} (same : first.spelling = second.spelling) :
    first = second :=
  (spelling_append_inj (congrArg (· ++ []) same)).1

theorem spellings_injective {first second : List FieldType}
    (same : first.flatMap spelling = second.flatMap spelling) : first = second := by
  induction first generalizing second with
  | nil =>
    cases second with
    | nil => rfl
    | cons head tail => simp [spelling_ne_nil] at same
  | cons head tail ih =>
    cases second with
    | nil => simp [spelling_ne_nil] at same
    | cons head' tail' =>
      obtain ⟨rfl, rest⟩ := spelling_append_inj same
      rw [ih rest]

end FieldType

theorem splitTypes_of_split {chars rest : List Char} {kind : Kind}
    (first : splitType chars = some (kind, rest)) :
    splitTypes chars = (splitTypes rest).map (kind :: ·) := by
  fun_cases splitTypes chars with
  | case1 => cases first
  | case2 char tail failed =>
    rw [failed] at first
    cases first
  | case3 char tail kind' rest' split failed =>
    cases split.symm.trans first
    rw [failed]
    rfl
  | case4 char tail kind' rest' split kinds found =>
    cases split.symm.trans first
    rw [found]
    rfl

theorem splitTypes_eq_some_iff {chars : List Char} {kinds : List Kind} :
    splitTypes chars = some kinds ↔
      ∃ types : List FieldType,
        chars = types.flatMap FieldType.spelling ∧ types.map FieldType.kind = kinds := by
  constructor
  · intro split
    fun_induction splitTypes chars generalizing kinds with
    | case1 =>
      cases split
      exact ⟨[], rfl, rfl⟩
    | case2 | case3 => cases split
    | case4 char tail kind rest first others found ih =>
      cases split
      obtain ⟨type, whole, rfl⟩ := exists_spelling first
      obtain ⟨types, rfl, rfl⟩ := ih found
      exact ⟨type :: types, whole, rfl⟩
  · rintro ⟨types, rfl, rfl⟩
    induction types with
    | nil => simp [splitTypes]
    | cons type types ih =>
      rw [List.flatMap_cons, splitTypes_of_split (splitType_spelling type _), ih]
      rfl

/-- A method type; no parameter has a closing parenthesis in its spelling, and a method without a
result is void. -/
structure MethodType where
  parameters : List FieldType
  closed : ∀ type ∈ parameters, ')' ∉ type.spelling
  result : Option FieldType

namespace MethodType

def resultSpelling : Option FieldType → List Char
  | none => ['V']
  | some type => type.spelling

def spelling (type : MethodType) : List Char :=
  '(' :: (type.parameters.flatMap FieldType.spelling ++ ')' :: resultSpelling type.result)

def descriptor (type : MethodType) : MethodDescriptor :=
  ⟨type.parameters.map FieldType.kind, type.result.map FieldType.kind⟩

theorem closed_parameters (type : MethodType) :
    ')' ∉ type.parameters.flatMap FieldType.spelling := by
  intro member
  obtain ⟨parameter, among, inside⟩ := List.mem_flatMap.mp member
  exact type.closed parameter among inside

theorem resultSpelling_injective {first second : Option FieldType}
    (same : resultSpelling first = resultSpelling second) : first = second := by
  have void (type : FieldType) : type.spelling ≠ ['V'] := by
    intro spelled
    have read := splitType_spelling type []
    rw [spelled] at read
    cases read
  cases first with
  | none =>
    cases second with
    | none => rfl
    | some type => exact absurd same.symm (void type)
  | some type =>
    cases second with
    | none => exact absurd same (void type)
    | some other => exact congrArg some (FieldType.spelling_injective same)

theorem spelling_unique {first second : MethodType} (same : first.spelling = second.spelling) :
    first = second := by
  obtain ⟨parameters, result⟩ :=
    cut_unique first.closed_parameters second.closed_parameters (List.cons.inj same).2
  have sameParameters := FieldType.spellings_injective parameters
  have sameResult := resultSpelling_injective result
  cases first
  cases second
  cases sameParameters
  cases sameResult
  rfl

end MethodType

theorem wholeType_eq_some_iff {chars : List Char} {kind : Kind} :
    wholeType chars = some kind ↔
      ∃ type : FieldType, chars = type.spelling ∧ type.kind = kind := by
  have read : splitType chars = some (kind, []) ↔ _ := splitType_eq_some_iff
  simp only [List.append_nil] at read
  rw [← read, wholeType]
  generalize splitType chars = split
  rcases split with _ | ⟨_, _ | _⟩ <;> simp

namespace MethodDescriptor

theorem resultType_eq_some_iff {chars : List Char} {returns : Option Kind} :
    resultType chars = some returns ↔
      ∃ result, chars = MethodType.resultSpelling result ∧ result.map FieldType.kind = returns := by
  unfold resultType
  split
  · rename_i void
    subst void
    constructor
    · intro read
      cases read
      exact ⟨none, rfl, rfl⟩
    · rintro ⟨result, spelled, rfl⟩
      have none : none = result := MethodType.resultSpelling_injective spelled
      cases none
      rfl
  · rename_i void
    simp only [Option.map_eq_map, Option.map_eq_some_iff, wholeType_eq_some_iff]
    constructor
    · rintro ⟨kind, ⟨type, spelled, rfl⟩, rfl⟩
      exact ⟨some type, spelled, rfl⟩
    · rintro ⟨_ | type, spelled, rfl⟩
      · exact absurd spelled void
      · exact ⟨type.kind, ⟨type, spelled, rfl⟩, rfl⟩

theorem ofChars?_eq_some_iff {chars : List Char} {descriptor : MethodDescriptor} :
    ofChars? chars = some descriptor ↔
      ∃ type : MethodType, chars = type.spelling ∧ type.descriptor = descriptor := by
  constructor
  · intro read
    unfold ofChars? at read
    split at read
    · split at read
      · rename_i rest after dropped
        obtain ⟨whole, absent⟩ := first_of_cut dropped
        simp only [Option.bind_eq_bind, Option.bind_eq_some_iff, Option.pure_def,
          Option.some.injEq] at read
        obtain ⟨kinds, split, returns, ended, rfl⟩ := read
        obtain ⟨types, spelled, rfl⟩ := splitTypes_eq_some_iff.mp split
        obtain ⟨result, rfl, rfl⟩ := resultType_eq_some_iff.mp ended
        rw [spelled] at whole absent
        refine ⟨⟨types, fun type among inside => ?_, result⟩, ?_, rfl⟩
        · exact absent (List.mem_flatMap.mpr ⟨type, among, inside⟩)
        · rw [whole]
          rfl
      · cases read
    · cases read
  · rintro ⟨type, rfl, rfl⟩
    obtain ⟨before, after⟩ := cut_at_first type.closed_parameters
      (MethodType.resultSpelling type.result)
    have parameters := splitTypes_eq_some_iff.mpr ⟨type.parameters, rfl, rfl⟩
    have result := resultType_eq_some_iff.mpr ⟨type.result, rfl, rfl⟩
    simp only [MethodType.spelling, ofChars?, before, after, parameters, result]
    rfl

end MethodDescriptor

theorem eq_none_iff_unspelled {α β : Type} {read : Option α} {Spells : β → Prop} {meaning : β → α}
    (found : ∀ value, read = some value ↔ ∃ tree, Spells tree ∧ meaning tree = value) :
    read = none ↔ ¬∃ tree, Spells tree := by
  rw [Option.eq_none_iff_forall_ne_some]
  constructor
  · rintro none ⟨tree, spelled⟩
    exact none _ ((found _).mpr ⟨tree, spelled, rfl⟩)
  · intro unspelled value some
    obtain ⟨tree, spelled, _⟩ := (found value).mp some
    exact unspelled ⟨tree, spelled⟩

/-- A descriptor is read exactly if it is spelled by the grammar, and then as the kinds of its only
syntax tree; any other text is reported as it is. -/
theorem descriptor_read_iff_spelled (text : String) :
    (∀ kind, fieldKind text = .ok kind ↔
      ∃ type : FieldType, text.toList = type.spelling ∧ type.kind = kind) ∧
    (fieldKind text = .error (.descriptor text) ↔
      ¬∃ type : FieldType, text.toList = type.spelling) ∧
    (∀ descriptor, MethodDescriptor.parse text = .ok descriptor ↔
      ∃ type : MethodType, text.toList = type.spelling ∧ type.descriptor = descriptor) ∧
    (∀ first second : MethodType,
      text.toList = first.spelling → text.toList = second.spelling → first = second) ∧
    (MethodDescriptor.parse text = .error (.descriptor text) ↔
      ¬∃ type : MethodType, text.toList = type.spelling) := by
  have field (kind : Kind) : wholeType text.toList = some kind ↔ _ := wholeType_eq_some_iff
  have method (descriptor : MethodDescriptor) :
      MethodDescriptor.ofChars? text.toList = some descriptor ↔ _ :=
    MethodDescriptor.ofChars?_eq_some_iff
  refine ⟨fun kind => ?_, ?_, fun descriptor => ?_, ?_, ?_⟩
  · rw [← field, fieldKind]
    cases wholeType text.toList <;> simp
  · rw [← eq_none_iff_unspelled field, fieldKind]
    cases wholeType text.toList <;> simp
  · rw [← method, MethodDescriptor.parse]
    cases MethodDescriptor.ofChars? text.toList <;> simp
  · intro first second spelled again
    exact MethodType.spelling_unique (spelled.symm.trans again)
  · rw [← eq_none_iff_unspelled method, MethodDescriptor.parse]
    cases MethodDescriptor.ofChars? text.toList <;> simp

/-- A class name goes up to its semicolon, over letters that are types elsewhere; and the result may
have a closing parenthesis in it. -/
theorem descriptor_read_iff_spelled_nested :
    MethodDescriptor.parse "(J[[LI;D)L);" =
      .ok ⟨[.long, .reference, .double], some .reference⟩ := by
  apply ((descriptor_read_iff_spelled "(J[[LI;D)L);").2.2.1 _).mpr
  refine ⟨⟨[.primitive 'J' .long (by decide),
    .array (.array (.object ['I'] (by decide) (by decide))), .primitive 'D' .double (by decide)],
    by decide, some (.object [')'] (by decide) (by decide))⟩, by decide, rfl⟩

end MethodFlow

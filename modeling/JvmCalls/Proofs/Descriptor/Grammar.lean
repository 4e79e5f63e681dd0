import JvmCalls.Descriptor.MethodType
import JvmCalls.Proofs.Outcome
import Mathlib.Data.Set.Subsingleton

/-!
# The grammar of descriptors

A field descriptor is a primitive letter or a class name behind at most 255
brackets.  A method descriptor is a list of field descriptors between
parentheses and the result behind.  The grammar here says this of texts, without
the readers.  Each reader takes the one descriptor that stands at the start of a
text and leaves what is behind it, so a whole text is accepted exactly if it is
in the grammar, with the one type that the grammar gives it.
-/

namespace JvmCalls

inductive ElementDescriptor : List Char → FieldType → Prop
  | byte : ElementDescriptor ['B'] .byte
  | char : ElementDescriptor ['C'] .char
  | double : ElementDescriptor ['D'] .double
  | float : ElementDescriptor ['F'] .float
  | int : ElementDescriptor ['I'] .int
  | long : ElementDescriptor ['J'] .long
  | short : ElementDescriptor ['S'] .short
  | boolean : ElementDescriptor ['Z'] .boolean
  | object {name : List Char} (hname : name ≠ []) (hends : ';' ∉ name) :
      ElementDescriptor ('L' :: (name ++ [';'])) (.object (String.ofList name))

/-- The descriptors of types: an element behind a bracket for each array
level. -/
inductive FieldDescriptor : List Char → FieldType → Prop
  | nested {levels : Nat} {text : List Char} {element : FieldType} (hlevels : levels ≤ 255)
      (helement : ElementDescriptor text element) :
      FieldDescriptor (List.replicate levels '[' ++ text) (FieldType.nest levels element)

/-- The descriptors of results, where `V` stands for none. -/
inductive ResultDescriptor : List Char → Option FieldType → Prop
  | void : ResultDescriptor ['V'] none
  | value {text : List Char} {type : FieldType} (htype : FieldDescriptor text type) :
      ResultDescriptor text (some type)

inductive MethodDescriptor : List Char → MethodType → Prop
  | method {texts : List (List Char)} {parameters : List FieldType} {behind : List Char}
      {result : Option FieldType} (hparameters : List.Forall₂ FieldDescriptor texts parameters)
      (hresult : ResultDescriptor behind result) :
      MethodDescriptor ('(' :: (texts.flatten ++ ')' :: behind)) { parameters, result }

/-! ## Where a run of characters ends -/

section Run

variable {keep : Char → Bool} {front text rest : List Char} {last : Char}

theorem takeWhile_of_stop (hfront : ∀ next ∈ front, keep next = true) (hlast : keep last = false) :
    (front ++ last :: rest).takeWhile keep = front := by
  rw [List.takeWhile_append_of_pos hfront, List.takeWhile_cons_of_neg (by simp [hlast]),
    List.append_nil]

theorem dropWhile_of_stop (hfront : ∀ next ∈ front, keep next = true) (hlast : keep last = false) :
    (front ++ last :: rest).dropWhile keep = last :: rest := by
  rw [List.dropWhile_append_of_pos hfront, List.dropWhile_cons_of_neg (by simp [hlast])]

theorem eq_append_of_dropWhile (hdrop : text.dropWhile keep = last :: rest) :
    keep last = false ∧ text = text.takeWhile keep ++ last :: rest := by
  constructor
  · have hstop := List.head_dropWhile_not keep (l := text) (by simp [hdrop])
    simpa only [hdrop, List.head_cons] using hstop
  · rw [← hdrop, List.takeWhile_append_dropWhile]

end Run

/-! ## The type at the start of a text -/

/-- A descriptor of an element starts with a letter that starts nothing else. -/
theorem ElementDescriptor.exists_cons {text : List Char} {element : FieldType}
    (helement : ElementDescriptor text element) :
    ∃ letter behind, text = letter :: behind ∧ letter ≠ '[' ∧ letter ≠ ')' ∧ letter ≠ 'V' := by
  cases helement with
  | object hname hends => exact ⟨'L', _, rfl, by decide, by decide, by decide⟩
  | _ => exact ⟨_, [], rfl, by decide, by decide, by decide⟩

/-- So a descriptor of a type is told from the end of the parameters and from `V`
by its first character. -/
theorem FieldDescriptor.exists_cons {text : List Char} {type : FieldType}
    (htype : FieldDescriptor text type) :
    ∃ first behind, text = first :: behind ∧ first ≠ ')' ∧ first ≠ 'V' := by
  obtain @⟨levels, text, element, hlevels, helement⟩ := htype
  cases levels with
  | zero =>
      obtain ⟨letter, behind, htext, _, hclose, hvoid⟩ := helement.exists_cons
      exact ⟨letter, behind, htext, hclose, hvoid⟩
  | succ levels => exact ⟨'[', _, rfl, by decide, by decide⟩

namespace FieldType

variable {whole : String} {text rest : List Char} {type : FieldType}

/-- A name up to its semicolon is read back in front of any text. -/
theorem parseClassName_append (whole : String) {name : List Char} (hname : name ≠ [])
    (hends : ';' ∉ name) (rest : List Char) :
    parseClassName whole (name ++ ';' :: rest) = .ok (.object (String.ofList name), rest) := by
  have hkept : ∀ next ∈ name, (next != ';') = true := by
    intro next hmem
    rw [bne_iff_ne]
    rintro rfl
    exact hends hmem
  have hstop : (';' != ';') = false := rfl
  have hfull : name.isEmpty = false := by simpa using hname
  simp only [parseClassName, dropWhile_of_stop hkept hstop, takeWhile_of_stop hkept hstop, hfull]
  rfl

theorem exists_name_of_parseClassName (hparsed : parseClassName whole text = .ok (type, rest)) :
    ∃ name, name ≠ [] ∧ ';' ∉ name ∧ text = name ++ ';' :: rest ∧
      type = .object (String.ofList name) := by
  unfold parseClassName at hparsed
  split at hparsed
  · cases hparsed
  · next last behind hdrop =>
      obtain ⟨hlast, htext⟩ := eq_append_of_dropWhile hdrop
      simp only at hparsed
      split at hparsed
      · cases hparsed
      · next hname =>
          cases hparsed
          have hsemicolon : last = ';' := by simpa using hlast
          refine ⟨text.takeWhile (· != ';'), by simpa using hname, ?_, hsemicolon ▸ htext, rfl⟩
          intro hmem
          have hkept := List.all_eq_true.mp List.all_takeWhile _ hmem
          cases hkept

theorem parseElement_append (whole : String) {front : List Char}
    (helement : ElementDescriptor front type) (rest : List Char) :
    parseElement whole (front ++ rest) = .ok (type, rest) := by
  cases helement with
  | @object name hname hends =>
      rw [List.cons_append, List.append_assoc]
      exact parseClassName_append whole hname hends rest
  | _ => rfl

theorem exists_front_of_parseElement (hparsed : parseElement whole text = .ok (type, rest)) :
    ∃ front, ElementDescriptor front type ∧ text = front ++ rest := by
  unfold parseElement at hparsed
  split at hparsed
  case h_1 => cases hparsed
  case h_10 behind =>
      obtain ⟨name, hname, hends, rfl, rfl⟩ := exists_name_of_parseClassName hparsed
      exact ⟨_, .object hname hends, by simp⟩
  case h_11 => cases hparsed
  all_goals
    cases hparsed
    exact ⟨_, by constructor, rfl⟩

/-- A type descriptor is read back in front of any text: the letter of its element
ends the brackets. -/
theorem parseOne_append (whole : String) {front : List Char} (htype : FieldDescriptor front type)
    (rest : List Char) : parseOne whole (front ++ rest) = .ok (type, rest) := by
  obtain @⟨levels, front, element, hlevels, helement⟩ := htype
  have hparsed := parseElement_append whole helement rest
  obtain ⟨letter, behind, rfl, hletter, _⟩ := helement.exists_cons
  have hkept : ∀ next ∈ List.replicate levels '[', (next == '[') = true := by
    intro next hmem
    exact beq_iff_eq.mpr (List.eq_of_mem_replicate hmem)
  have hstop : (letter == '[') = false := beq_false_of_ne hletter
  rw [List.append_assoc, List.cons_append, parseOne, takeWhile_of_stop hkept hstop,
    dropWhile_of_stop hkept hstop, ← List.cons_append, hparsed, List.length_replicate]
  exact if_neg (Nat.not_lt.mpr hlevels)

theorem exists_front_of_parseOne (hparsed : parseOne whole text = .ok (type, rest)) :
    ∃ front, FieldDescriptor front type ∧ text = front ++ rest := by
  unfold parseOne at hparsed
  simp only at hparsed
  split at hparsed
  · cases hparsed
  · next hlevels =>
      split at hparsed
      · next element behind helement =>
          cases hparsed
          obtain ⟨front, hfront, hbehind⟩ := exists_front_of_parseElement helement
          have hbrackets : text.takeWhile (· == '[') =
              List.replicate (text.takeWhile (· == '[')).length '[' := by
            rw [List.eq_replicate_iff]
            refine ⟨rfl, fun next hmem => ?_⟩
            exact beq_iff_eq.mp (List.all_eq_true.mp List.all_takeWhile next hmem)
          refine ⟨_, .nested (Nat.not_lt.mp hlevels) hfront, ?_⟩
          rw [← hbrackets, List.append_assoc, ← hbehind, List.takeWhile_append_dropWhile]
      · cases hparsed

theorem parse_eq_ok_iff : parse whole = .ok type ↔ FieldDescriptor whole.toList type := by
  constructor
  · intro hparsed
    unfold parse at hparsed
    split at hparsed
    · next found hone =>
        cases hparsed
        obtain ⟨front, hfront, htext⟩ := exists_front_of_parseOne hone
        rw [htext, List.append_nil]
        exact hfront
    · cases hparsed
    · cases hparsed
  · intro htype
    have hone := parseOne_append whole htype []
    rw [List.append_nil] at hone
    rw [parse, hone]

end FieldType

/-- The grammar gives a text at most one type. -/
theorem FieldDescriptor.unique {text : List Char} {left right : FieldType}
    (hleft : FieldDescriptor text left) (hright : FieldDescriptor text right) : left = right := by
  rw [← String.toList_ofList (l := text), ← FieldType.parse_eq_ok_iff] at hleft hright
  rw [hleft] at hright
  exact Except.ok.inj hright

namespace MethodType

variable {whole : String} {text rest : List Char}

/-- Parameters up to the closing parenthesis are read back in front of any text:
no descriptor starts with the parenthesis that ends them. -/
theorem parseParameters_append (whole : String) {texts : List (List Char)}
    {types : List FieldType} (htypes : List.Forall₂ FieldDescriptor texts types)
    (rest : List Char) (before : List FieldType) :
    parseParameters whole (texts.flatten ++ ')' :: rest) before =
      .ok (before.reverse ++ types, rest) := by
  induction htypes generalizing before with
  | nil => rw [List.flatten_nil, List.nil_append, parseParameters, List.append_nil]
  | @cons text type texts types htype _ ih =>
      have hone := FieldType.parseOne_append whole htype (texts.flatten ++ ')' :: rest)
      obtain ⟨first, behind, rfl, hclose, _⟩ := htype.exists_cons
      rw [List.flatten_cons, List.append_assoc, List.cons_append, parseParameters]
      · split
        · next found remaining hfound =>
            rw [← List.cons_append, hone] at hfound
            cases hfound
            rw [ih, List.reverse_cons, List.append_assoc, List.singleton_append]
        · next defect hfound =>
            rw [← List.cons_append, hone] at hfound
            cases hfound
      · exact hclose

theorem exists_texts_of_parseParameters {before parameters : List FieldType}
    (hparsed : parseParameters whole text before = .ok (parameters, rest)) :
    ∃ texts types, List.Forall₂ FieldDescriptor texts types ∧
      text = texts.flatten ++ ')' :: rest ∧ parameters = before.reverse ++ types := by
  fun_induction parseParameters whole text before with
  | case1 before => cases hparsed
  | case2 before behind =>
      cases hparsed
      exact ⟨[], [], .nil, rfl, (List.append_nil _).symm⟩
  | case3 before first behind hother type remaining htype ih =>
      obtain ⟨front, hfront, htext⟩ := FieldType.exists_front_of_parseOne htype
      obtain ⟨texts, types, htypes, rfl, rfl⟩ := ih hparsed
      refine ⟨front :: texts, type :: types, .cons hfront htypes, ?_, ?_⟩
      · rw [htext, List.flatten_cons, List.append_assoc]
      · rw [List.reverse_cons, List.append_assoc, List.singleton_append]
  | case4 before first behind hother defect htype => cases hparsed

theorem parseResult_append (whole : String) {front : List Char} {result : Option FieldType}
    (hresult : ResultDescriptor front result) (rest : List Char) :
    parseResult whole (front ++ rest) = .ok (result, rest) := by
  cases hresult with
  | void => rfl
  | value htype =>
      have hone := FieldType.parseOne_append whole htype rest
      obtain ⟨first, behind, rfl, _, hvoid⟩ := htype.exists_cons
      unfold parseResult
      split
      · next hfirst =>
          cases hfirst
          exact absurd rfl hvoid
      · rw [hone]

theorem exists_front_of_parseResult {result : Option FieldType}
    (hparsed : parseResult whole text = .ok (result, rest)) :
    ∃ front, ResultDescriptor front result ∧ text = front ++ rest := by
  unfold parseResult at hparsed
  split at hparsed
  · cases hparsed
    exact ⟨['V'], .void, rfl⟩
  · split at hparsed
    · next type behind hone =>
        cases hparsed
        obtain ⟨front, hfront, htext⟩ := FieldType.exists_front_of_parseOne hone
        exact ⟨front, .value hfront, htext⟩
    · cases hparsed

theorem parse_eq_ok_iff {type : MethodType} :
    parse whole = .ok type ↔ MethodDescriptor whole.toList type := by
  constructor
  · intro hparsed
    unfold parse at hparsed
    split at hparsed
    · next text htext =>
        obtain ⟨⟨parameters, behind⟩, hparameters, hbehind⟩ := Outcome.bind_eq_ok_iff.mp hparsed
        obtain ⟨⟨result, rest⟩, hresult, htype⟩ := Outcome.bind_eq_ok_iff.mp hbehind
        cases rest with
        | cons first rest => cases htype
        | nil =>
            cases htype
            obtain ⟨texts, types, htypes, rfl, rfl⟩ := exists_texts_of_parseParameters hparameters
            obtain ⟨front, hfront, rfl⟩ := exists_front_of_parseResult hresult
            rw [htext, List.append_nil]
            exact .method htypes hfront
    · cases hparsed
  · intro hdescriptor
    generalize htext : whole.toList = text at hdescriptor
    obtain @⟨texts, parameters, behind, result, hparameters, hresult⟩ := hdescriptor
    have hlast := parseResult_append whole hresult []
    rw [List.append_nil] at hlast
    unfold parse
    rw [htext]
    change (parseParameters whole (texts.flatten ++ ')' :: behind) [] >>= _) = _
    rw [parseParameters_append whole hparameters]
    change (parseResult whole behind >>= _) = _
    rw [hlast]
    rfl

end MethodType

theorem MethodDescriptor.unique {text : List Char} {left right : MethodType}
    (hleft : MethodDescriptor text left) (hright : MethodDescriptor text right) : left = right := by
  rw [← String.toList_ofList (l := text), ← MethodType.parse_eq_ok_iff] at hleft hright
  rw [hleft] at hright
  exact Except.ok.inj hright

/-! ## The descriptor of a type -/

namespace FieldType

theorem descriptor_nest (levels : Nat) (type : FieldType) :
    (nest levels type).descriptor = List.replicate levels '[' ++ type.descriptor := by
  induction levels with
  | zero => rfl
  | succ levels ih => rw [nest, descriptor, ih, List.replicate_succ, List.cons_append]

theorem dimensions_nest (levels : Nat) (type : FieldType) :
    (nest levels type).dimensions = type.dimensions + levels := by
  induction levels with
  | zero => rfl
  | succ levels ih => rw [nest, dimensions, ih, Nat.add_assoc]

theorem element_nest (levels : Nat) (type : FieldType) :
    (nest levels type).element = type.element := by
  induction levels with
  | zero => rfl
  | succ levels ih => rw [nest, element, ih]

/-- A type is its element inside all of its array levels. -/
theorem nest_dimensions_element (type : FieldType) : nest type.dimensions type.element = type := by
  induction type with
  | array component ih => rw [dimensions, element, nest, ih]
  | _ => rfl

theorem element_ne_array (type component : FieldType) : type.element ≠ array component := by
  induction type with
  | array inner ih => exact ih
  | _ => exact nofun

end FieldType

theorem ElementDescriptor.dimensions_eq {text : List Char} {element : FieldType}
    (helement : ElementDescriptor text element) : element.dimensions = 0 := by
  cases helement <;> rfl

theorem ElementDescriptor.describes {text : List Char} {element : FieldType}
    (helement : ElementDescriptor text element) :
    text = element.descriptor ∧
      ∀ name, element.element = .object name → name ≠ "" ∧ ';' ∉ name.toList := by
  cases helement with
  | @object name hname hends =>
      refine ⟨by rw [FieldType.descriptor, String.toList_ofList]; rfl, ?_⟩
      intro _ hobject
      cases hobject
      rw [String.toList_ofList]
      refine ⟨?_, hends⟩
      intro hempty
      rw [← String.toList_eq_nil_iff, String.toList_ofList] at hempty
      exact hname hempty
  | _ => exact ⟨rfl, nofun⟩

theorem elementDescriptor_descriptor {element : FieldType}
    (hplain : ∀ component, element ≠ .array component)
    (hnamed : ∀ name, element = .object name → name ≠ "" ∧ ';' ∉ name.toList) :
    ElementDescriptor element.descriptor element := by
  cases element with
  | object name =>
      obtain ⟨hname, hends⟩ := hnamed name rfl
      have hfull : name.toList ≠ [] := fun hempty => hname (String.toList_eq_nil_iff.mp hempty)
      have hobject := ElementDescriptor.object hfull hends
      rw [String.ofList_toList] at hobject
      exact hobject
  | array component => exact absurd rfl (hplain component)
  | _ => constructor

/-- The grammar holds exactly the descriptors of the types that have one. -/
theorem fieldDescriptor_iff {text : List Char} {type : FieldType} :
    FieldDescriptor text type ↔ type.IsDescribable ∧ text = type.descriptor := by
  constructor
  · rintro @⟨levels, text, element, hlevels, helement⟩
    obtain ⟨htext, hnamed⟩ := helement.describes
    refine ⟨⟨?_, ?_⟩, by rw [FieldType.descriptor_nest, htext]⟩
    · rw [FieldType.dimensions_nest, helement.dimensions_eq, Nat.zero_add]
      exact hlevels
    · rw [FieldType.element_nest]
      exact hnamed
  · rintro ⟨⟨hlevels, hnamed⟩, rfl⟩
    have helement := elementDescriptor_descriptor type.element_ne_array hnamed
    have hnested := FieldDescriptor.nested hlevels helement
    rwa [← FieldType.descriptor_nest, FieldType.nest_dimensions_element] at hnested

theorem forall₂_fieldDescriptor_iff {texts : List (List Char)} {types : List FieldType} :
    List.Forall₂ FieldDescriptor texts types ↔
      (∀ type ∈ types, type.IsDescribable) ∧ texts = types.map FieldType.descriptor := by
  induction types generalizing texts with
  | nil => simp
  | cons type types ih =>
      rw [List.forall₂_cons_right_iff, List.forall_mem_cons]
      constructor
      · rintro ⟨text, others, htype, hothers, rfl⟩
        obtain ⟨hdescribable, rfl⟩ := fieldDescriptor_iff.mp htype
        obtain ⟨hrest, rfl⟩ := ih.mp hothers
        exact ⟨⟨hdescribable, hrest⟩, rfl⟩
      · rintro ⟨⟨hdescribable, hrest⟩, rfl⟩
        exact ⟨_, _, fieldDescriptor_iff.mpr ⟨hdescribable, rfl⟩, ih.mpr ⟨hrest, rfl⟩, rfl⟩

theorem methodDescriptor_iff {text : List Char} {type : MethodType} :
    MethodDescriptor text type ↔ type.IsDescribable ∧ text = type.descriptor := by
  constructor
  · rintro @⟨texts, parameters, behind, result, hparameters, hresult⟩
    obtain ⟨hdescribable, rfl⟩ := forall₂_fieldDescriptor_iff.mp hparameters
    cases hresult with
    | void => exact ⟨⟨hdescribable, nofun⟩, rfl⟩
    | value htype =>
        obtain ⟨hresult, rfl⟩ := fieldDescriptor_iff.mp htype
        refine ⟨⟨hdescribable, ?_⟩, rfl⟩
        rintro _ ⟨⟩
        exact hresult
  · obtain ⟨parameters, result⟩ := type
    rintro ⟨⟨hparameters, hresult⟩, rfl⟩
    have htypes := forall₂_fieldDescriptor_iff.mpr ⟨hparameters, rfl⟩
    cases result with
    | none => exact .method htypes .void
    | some result =>
        exact .method htypes (.value (fieldDescriptor_iff.mpr ⟨hresult result rfl, rfl⟩))

/-! ## What is wrong with any other text -/

def Defect.descriptor? : Defect → Option String
  | excessiveDimensions descriptor _
  | truncatedDescriptor descriptor
  | unterminatedClassName descriptor
  | emptyClassName descriptor
  | invalidTypeTag _ descriptor
  | trailingFieldData descriptor
  | unopenedParameters descriptor
  | unterminatedParameters descriptor
  | trailingMethodData descriptor => some descriptor
  | _ => none

/-- A read of `whole` that fails tells what is wrong with `whole`. -/
def Blames {Value : Type} (whole : String) (read : Except Defect Value) : Prop :=
  ∀ defect, read = .error defect → defect.descriptor? = some whole

section Blames

variable {Value Result : Type} {whole : String}

theorem blames_ok (value : Value) : Blames whole (.ok value) := nofun

theorem blames_error {defect : Defect} (hdefect : defect.descriptor? = some whole) :
    Blames whole (.error defect : Except Defect Value) := by
  rintro _ ⟨⟩
  exact hdefect

theorem blames_bind {first : Except Defect Value} {next : Value → Except Defect Result}
    (hfirst : Blames whole first) (hnext : ∀ value, Blames whole (next value)) :
    Blames whole (first >>= next) := by
  cases first with
  | ok value => exact hnext value
  | error defect => exact blames_error (hfirst defect rfl)

variable (whole) (text : List Char)

theorem FieldType.blames_parseClassName : Blames whole (parseClassName whole text) := by
  unfold parseClassName
  split
  · exact blames_error rfl
  · simp only
    split
    · exact blames_error rfl
    · exact blames_ok _

theorem FieldType.blames_parseElement : Blames whole (parseElement whole text) := by
  unfold parseElement
  split
  case h_10 => exact blames_parseClassName whole _
  case h_1 | h_11 => exact blames_error rfl
  all_goals exact blames_ok _

theorem FieldType.blames_parseOne : Blames whole (parseOne whole text) := by
  unfold parseOne
  simp only
  split
  · exact blames_error rfl
  · split
    · exact blames_ok _
    · next defect hdefect => exact blames_error (blames_parseElement whole _ defect hdefect)

theorem FieldType.blames_parse : Blames whole (parse whole) := by
  unfold parse
  split
  · exact blames_ok _
  · exact blames_error rfl
  · next defect hdefect => exact blames_error (blames_parseOne whole _ defect hdefect)

theorem MethodType.blames_parseParameters (before : List FieldType) :
    Blames whole (parseParameters whole text before) := by
  fun_induction parseParameters whole text before with
  | case1 before => exact blames_error rfl
  | case2 before behind => exact blames_ok _
  | case3 before first behind hother type remaining htype ih => exact ih
  | case4 before first behind hother defect hdefect =>
      exact blames_error (FieldType.blames_parseOne whole _ defect hdefect)

theorem MethodType.blames_parseResult : Blames whole (parseResult whole text) := by
  unfold parseResult
  split
  · exact blames_ok _
  · split
    · exact blames_ok _
    · next defect hdefect => exact blames_error (FieldType.blames_parseOne whole _ defect hdefect)

theorem MethodType.blames_parse : Blames whole (parse whole) := by
  unfold parse
  split
  · apply blames_bind (blames_parseParameters whole _ [])
    rintro ⟨parameters, behind⟩
    apply blames_bind (blames_parseResult whole behind)
    rintro ⟨result, rest⟩
    cases rest with
    | nil => exact blames_ok _
    | cons first rest => exact blames_error rfl
  · exact blames_error rfl

end Blames

/-- A reader that accepts exactly some texts and blames all others. -/
theorem Blames.exists_error_iff {Value : Type} {whole : String} {read : Except Defect Value}
    {Accepted : Value → Prop} (hblames : Blames whole read)
    (haccepts : ∀ value, read = .ok value ↔ Accepted value) :
    (∃ defect, read = .error defect ∧ defect.descriptor? = some whole) ↔
      ¬ ∃ value, Accepted value := by
  simp only [← haccepts]
  cases read with
  | ok value => simp
  | error defect => simpa using hblames defect rfl

/-- The readers of descriptors accept exactly their grammar, for every text.  A read
of a type or of a method succeeds exactly if the text is a descriptor, and gives
the type that the grammar gives it: the only one, of which the text is the
descriptor.  For all other texts, the reader fails with a defect that quotes
the text. -/
theorem parse_accepts_grammar (whole : String) :
    (∀ type, FieldType.parse whole = .ok type ↔ FieldDescriptor whole.toList type) ∧
    (∀ type, MethodType.parse whole = .ok type ↔ MethodDescriptor whole.toList type) ∧
    ((∃ defect, FieldType.parse whole = .error defect ∧ defect.descriptor? = some whole) ↔
      ¬ ∃ type, FieldDescriptor whole.toList type) ∧
    ((∃ defect, MethodType.parse whole = .error defect ∧ defect.descriptor? = some whole) ↔
      ¬ ∃ type, MethodDescriptor whole.toList type) ∧
    {type | FieldDescriptor whole.toList type}.Subsingleton ∧
    {type | MethodDescriptor whole.toList type}.Subsingleton ∧
    (∀ type, FieldDescriptor whole.toList type ↔
      type.IsDescribable ∧ whole.toList = type.descriptor) ∧
    ∀ type, MethodDescriptor whole.toList type ↔
      type.IsDescribable ∧ whole.toList = type.descriptor := by
  refine ⟨fun _ => FieldType.parse_eq_ok_iff, fun _ => MethodType.parse_eq_ok_iff, ?_, ?_, ?_, ?_,
    fun _ => fieldDescriptor_iff, fun _ => methodDescriptor_iff⟩
  · exact (FieldType.blames_parse whole).exists_error_iff (fun _ => FieldType.parse_eq_ok_iff)
  · exact (MethodType.blames_parse whole).exists_error_iff (fun _ => MethodType.parse_eq_ok_iff)
  · exact fun _ hleft _ hright => hleft.unique hright
  · exact fun _ hleft _ hright => hleft.unique hright

/-- A class name may hold parentheses and brackets, and the last one of two results
is too much. -/
example : MethodType.parse "([La)(é;)V" = .ok ⟨[.array (.object "a)(é")], none⟩ ∧
    MethodType.parse "()VV" = .error (.trailingMethodData "()VV") := by
  decide +kernel

end JvmCalls

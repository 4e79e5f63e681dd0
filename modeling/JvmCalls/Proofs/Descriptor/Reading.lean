import JvmCalls.Proofs.Descriptor.Grammar
import Mathlib.Algebra.GroupWithZero.Nat

/-!
# Readings of descriptors

Every descriptor has a reading that can be told from its text alone: a keyword
for a letter, the dotted name between `L` and the semicolon, and a pair of
brackets behind for each one in front.  Signatures are rendered as the readings
of their parts, and the name of a called type is the reading of its
descriptor.  So a type reads the same wherever it stands.
-/

namespace JvmCalls

def dotted (name : List Char) : String :=
  String.ofList (name.map (fun character => if character = '/' then '.' else character))

def reading : List Char → String
  | '[' :: component => reading component ++ "[]"
  | 'L' :: name => dotted name.dropLast
  | ['B'] => "byte"
  | ['C'] => "char"
  | ['D'] => "double"
  | ['F'] => "float"
  | ['I'] => "int"
  | ['J'] => "long"
  | ['S'] => "short"
  | ['V'] => "void"
  | ['Z'] => "boolean"
  | _ => ""

/-- The count of slots for an argument with the descriptor: two for a `long` and a
`double`, and one for anything else, also for arrays of them. -/
def argumentSlots (descriptor : List Char) : Nat :=
  if descriptor = ['J'] ∨ descriptor = ['D'] then 2 else 1

theorem reading_brackets (levels : Nat) (element : List Char) :
    reading (List.replicate levels '[' ++ element) =
      reading element ++ String.join (List.replicate levels "[]") := by
  induction levels with
  | zero => simp
  | succ levels ih =>
      rw [List.replicate_succ, List.cons_append, reading, ih, List.replicate_succ',
        ← String.toList_inj]
      simp [String.toList_join]

theorem reading_object (name : List Char) : reading ('L' :: (name ++ [';'])) = dotted name := by
  rw [reading, List.dropLast_concat]

/-! ## Types are rendered as their readings -/

theorem FieldType.render_nest (levels : Nat) (type : FieldType) :
    (nest levels type).render = type.render ++ String.join (List.replicate levels "[]") := by
  induction levels with
  | zero => simp [nest]
  | succ levels ih =>
      rw [nest, render, ih, List.replicate_succ', ← String.toList_inj]
      simp [String.toList_join]

theorem ElementDescriptor.reading_eq {text : List Char} {element : FieldType}
    (helement : ElementDescriptor text element) : reading text = element.render := by
  cases helement with
  | object hname hends =>
      rw [reading_object, FieldType.render, binaryName, String.toList_ofList, dotted]
  | _ => rfl

theorem FieldDescriptor.reading_eq {text : List Char} {type : FieldType}
    (htype : FieldDescriptor text type) : reading text = type.render := by
  obtain @⟨levels, text, element, hlevels, helement⟩ := htype
  rw [reading_brackets, FieldType.render_nest, helement.reading_eq]

theorem ResultDescriptor.reading_eq {text : List Char} {result : Option FieldType}
    (hresult : ResultDescriptor text result) :
    reading text = result.elim "void" FieldType.render := by
  cases hresult with
  | void => rfl
  | value htype => exact htype.reading_eq

theorem FieldDescriptor.argumentSlots_eq {text : List Char} {type : FieldType}
    (htype : FieldDescriptor text type) : argumentSlots text = type.slots := by
  obtain @⟨levels, text, element, hlevels, helement⟩ := htype
  cases levels with
  | zero =>
      cases helement with
      | object hname hends =>
          simp [argumentSlots, FieldType.nest, FieldType.slots, FieldType.isWide]
      | _ => rfl
  | succ levels =>
      simp [argumentSlots, FieldType.nest, FieldType.slots, FieldType.isWide, List.replicate_succ]

/-- What is told from each descriptor alone is told from all of them. -/
theorem map_eq_of_forall₂ {Told : Type} {tell : List Char → Told} {of : FieldType → Told}
    (htell : ∀ text type, FieldDescriptor text type → tell text = of type)
    {texts : List (List Char)} {types : List FieldType}
    (htypes : List.Forall₂ FieldDescriptor texts types) : texts.map tell = types.map of := by
  rw [← List.forall₂_eq_eq_eq, List.forall₂_map_left_iff, List.forall₂_map_right_iff]
  exact htypes.imp htell

theorem MethodType.render_eq (type : MethodType) :
    type.render = "(" ++ String.intercalate "," (type.parameters.map FieldType.render) ++ ")" ++
      type.result.elim "void" FieldType.render := by
  obtain ⟨parameters, result⟩ := type
  cases result <;> rfl

theorem MethodType.slots_eq_sum (type : MethodType) :
    type.slots = (type.parameters.map FieldType.slots).sum := by
  rw [slots, List.sum_eq_foldr, List.foldr_map]

/-- A descriptor put together from descriptors is that of a method, rendered as
their readings. -/
theorem exists_parse_joined {texts : List (List Char)} {behind : List Char}
    (htexts : ∀ text ∈ texts, ∃ type, FieldDescriptor text type)
    (hbehind : ∃ result, ResultDescriptor behind result) :
    ∃ type, MethodType.parse (String.ofList ('(' :: (texts.flatten ++ ')' :: behind))) = .ok type ∧
      type.render =
        "(" ++ String.intercalate "," (texts.map reading) ++ ")" ++ reading behind ∧
      type.slots = (texts.map argumentSlots).sum := by
  obtain ⟨types, htypes⟩ := Outcome.exists_forall₂ htexts
  obtain ⟨result, hresult⟩ := hbehind
  refine ⟨{ parameters := types, result }, ?_, ?_, ?_⟩
  · rw [MethodType.parse_eq_ok_iff, String.toList_ofList]
    exact .method htypes hresult
  · rw [MethodType.render_eq, hresult.reading_eq,
      map_eq_of_forall₂ (fun _ _ htype => htype.reading_eq) htypes]
  · rw [MethodType.slots_eq_sum,
      map_eq_of_forall₂ (fun _ _ htype => htype.argumentSlots_eq) htypes]

/-! ## Names of called types -/

theorem readableName_of_array {owner : List Char} {type : FieldType}
    (htype : FieldDescriptor ('[' :: owner) type) :
    readableName (String.ofList ('[' :: owner)) = reading ('[' :: owner) := by
  have hparsed : FieldType.parse (String.ofList ('[' :: owner)) = .ok type := by
    rw [FieldType.parse_eq_ok_iff, String.toList_ofList]
    exact htype
  rw [readableName, hparsed, String.toList_ofList, List.head?_cons, htype.reading_eq]
  rfl

theorem readableName_of_class {name : List Char} (hname : name.head? ≠ some '[') :
    readableName (String.ofList name) = reading ('L' :: (name ++ [';'])) := by
  rw [reading_object, readableName, String.toList_ofList]
  split
  · next hhead => exact absurd hhead hname
  · rw [binaryName, String.toList_ofList, dotted]

/-- Readings are put together from the readings of the parts, and they are the same
in signatures and in names of called types.  A signature is rendered as the
readings of its parameters between commas and the reading of its result behind,
for any list of descriptors.  Its arguments take the slots of each of them.  The
name of an array is the reading of its descriptor, and any other name is read
as it is between `L` and a semicolon. -/
theorem readings_agree :
    (∀ (texts : List (List Char)) (behind : List Char),
      (∀ text ∈ texts, ∃ type, FieldDescriptor text type) →
      (∃ result, ResultDescriptor behind result) →
      let descriptor := String.ofList ('(' :: (texts.flatten ++ ')' :: behind))
      MethodType.render <$> MethodType.parse descriptor =
          .ok ("(" ++ String.intercalate "," (texts.map reading) ++ ")" ++ reading behind) ∧
        MethodType.slots <$> MethodType.parse descriptor = .ok (texts.map argumentSlots).sum) ∧
    (∀ owner type, FieldDescriptor ('[' :: owner) type →
      readableName (String.ofList ('[' :: owner)) = reading ('[' :: owner)) ∧
    (∀ name : List Char, name.head? ≠ some '[' →
      readableName (String.ofList name) = reading ('L' :: (name ++ [';']))) ∧
    (∀ levels element, reading (List.replicate levels '[' ++ element) =
      reading element ++ String.join (List.replicate levels "[]")) ∧
    (∀ name, reading ('L' :: (name ++ [';'])) =
      String.ofList (name.map fun character => if character = '/' then '.' else character)) ∧
    ∀ keyword ∈ [('B', "byte"), ('C', "char"), ('D', "double"), ('F', "float"), ('I', "int"),
        ('J', "long"), ('S', "short"), ('V', "void"), ('Z', "boolean")],
      reading [keyword.1] = keyword.2 := by
  refine ⟨?_, fun _ _ => readableName_of_array, fun _ => readableName_of_class, reading_brackets,
    reading_object, by decide +kernel⟩
  intro texts behind htexts hbehind descriptor
  obtain ⟨type, hparsed, hrender, hslots⟩ := exists_parse_joined htexts hbehind
  rw [hparsed, ← hrender, ← hslots]
  exact ⟨rfl, rfl⟩

theorem readings_agree_mixedDescriptor :
    (∀ text ∈ [['J'], ['[', '[', 'D'], ['L', 'a', '/', 'B', ';']],
      ∃ type, FieldDescriptor text type) ∧
    (∃ result, ResultDescriptor ['V'] result) ∧
    MethodType.render <$> MethodType.parse "(J[[DLa/B;)V" = .ok "(long,double[][],a.B)void" ∧
    MethodType.slots <$> MethodType.parse "(J[[DLa/B;)V" = .ok 4 ∧
    readableName "[[D" = "double[][]" ∧ readableName "a/B" = "a.B" := by
  have hlong : FieldDescriptor ['J'] .long :=
    @FieldDescriptor.nested 0 ['J'] .long (by decide) .long
  have harray : FieldDescriptor ['[', '[', 'D'] (.array (.array .double)) :=
    @FieldDescriptor.nested 2 ['D'] .double (by decide) .double
  have hclass : FieldDescriptor ['L', 'a', '/', 'B', ';'] (.object "a/B") :=
    @FieldDescriptor.nested 0 _ _ (by decide)
      (@ElementDescriptor.object ['a', '/', 'B'] (by decide) (by decide))
  have htexts : ∀ text ∈ [['J'], ['[', '[', 'D'], ['L', 'a', '/', 'B', ';']],
      ∃ type, FieldDescriptor text type := by
    simp only [List.forall_mem_cons]
    exact ⟨⟨.long, hlong⟩, ⟨_, harray⟩, ⟨_, hclass⟩, nofun⟩
  obtain ⟨hsignature, hnames⟩ := readings_agree
  obtain ⟨hrender, hslots⟩ := hsignature _ ['V'] htexts ⟨none, .void⟩
  refine ⟨htexts, ⟨none, .void⟩, ?_, ?_, ?_, ?_⟩
  · exact hrender.trans (by decide +kernel)
  · exact hslots
  · exact (hnames.1 ['[', 'D'] _ harray).trans (by decide +kernel)
  · exact (hnames.2.1 ['a', '/', 'B'] (by decide)).trans (by decide +kernel)

end JvmCalls

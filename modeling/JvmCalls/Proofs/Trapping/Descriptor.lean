import JvmCalls.Descriptor.MethodType
import JvmCalls.Proofs.Trapping.Substring

/-!
# Descriptors

A machine reads a descriptor byte by byte and takes class names out of its
text by their offsets.  It does so without traps and reads what
`FieldType.parse` and `MethodType.parse` do: every byte that it goes on over is
an ASCII character, or it stops at once, so the offsets that it cuts at lie
between characters whatever characters the names are made of.
-/

namespace JvmCalls.Trapping

open Checked

/-! ## Reading by offsets -/

namespace FieldType

open JvmCalls (FieldType)

/-- Goes on over opening brackets and counts them. -/
def bracketsAt (bytes : Bytes) (position levels : Nat) : Checked Defect (Nat × Nat) :=
  if _hbracket : bytes[position]? = some 0x5B then do
    let levels ← Word.add levels 1
    let next ← Word.add position 1
    if bytes.length - next < bytes.length - position then
      bracketsAt bytes next levels
    else
      trap .stall
  else
    return (position, levels)
termination_by bytes.length - position

def classNameAt (whole : String) (position : Nat) : Checked Defect (FieldType × Nat) := do
  let rest ← dropBytes whole.toList position
  match find? ';' rest with
  | none => flaw (.unterminatedClassName whole)
  | some finish =>
      if finish = 0 then
        flaw (.emptyClassName whole)
      else
        let next ← Word.add position (← Word.add finish 1)
        return (.object (String.ofList (← takeBytes rest finish)), next)

/-- Reads the type with the given first byte, which is no array and lies before
the position. -/
def elementAt (whole : String) (tag : UInt8) (position : Nat) :
    Checked Defect (FieldType × Nat) :=
  match tag with
  | 0x42 => return (.byte, position)
  | 0x43 => return (.char, position)
  | 0x44 => return (.double, position)
  | 0x46 => return (.float, position)
  | 0x49 => return (.int, position)
  | 0x4A => return (.long, position)
  | 0x53 => return (.short, position)
  | 0x5A => return (.boolean, position)
  | 0x4C => classNameAt whole position
  | other => flaw (.invalidTypeTag (Char.ofNat other.toNat) whole)

/-- Reads the type at a position and returns the position behind it. -/
def typeAt (whole : String) (position : Nat) : Checked Defect (FieldType × Nat) := do
  let (start, levels) ← bracketsAt (Utf8.encode whole) position 0
  if FieldType.maxDimensions < levels then
    flaw (.excessiveDimensions whole levels)
  else
    match (Utf8.encode whole)[start]? with
    | none => flaw (.truncatedDescriptor whole)
    | some tag =>
        let (type, next) ← elementAt whole tag (← Word.add start 1)
        return (.nest levels type, next)

def parse (whole : String) : Checked Defect FieldType := do
  let (type, position) ← typeAt whole 0
  if position = (Utf8.encode whole).length then
    return type
  else
    flaw (.trailingFieldData whole)

end FieldType

namespace MethodType

open JvmCalls (FieldType MethodType)

def parametersAt (whole : String) (position : Nat) (parameters : List FieldType) :
    Checked Defect (List FieldType × Nat) :=
  if (Utf8.encode whole)[position]? = none then
    flaw (.unterminatedParameters whole)
  else if (Utf8.encode whole)[position]? = some 0x29 then do
    return (parameters, ← Word.add position 1)
  else do
    let (type, next) ← FieldType.typeAt whole position
    if (Utf8.encode whole).length - next < (Utf8.encode whole).length - position then
      parametersAt whole next (parameters ++ [type])
    else
      trap .stall
termination_by (Utf8.encode whole).length - position

def resultAt (whole : String) (position : Nat) : Checked Defect (Option FieldType × Nat) := do
  if (Utf8.encode whole)[position]? = some 0x56 then
    return (none, ← Word.add position 1)
  else
    let (type, next) ← FieldType.typeAt whole position
    return (some type, next)

def parse (whole : String) : Checked Defect MethodType := do
  if (Utf8.encode whole)[0]? = some 0x28 then
    let (parameters, position) ← parametersAt whole 1 []
    let (result, position) ← resultAt whole position
    if position = (Utf8.encode whole).length then
      return { parameters, result }
    else
      flaw (.trailingMethodData whole)
  else
    flaw (.unopenedParameters whole)

end MethodType

/-! ## Both ways of reading -/

/-- A computation by offsets finds the value that a reader of characters finds,
and the rest of the descriptor starts at its offset; or both find the same
defect. -/
inductive Locates (whole : String) {Value : Type} :
    Checked Defect (Value × Nat) → Except Defect (Value × List Char) → Prop
  | found {value : Value} {next : Nat} {rest : List Char} (hstands : StandsAt whole next rest) :
      Locates whole (.ok (value, next)) (.ok (value, rest))
  | flawed (defect : Defect) : Locates whole (flaw defect) (.error defect)

namespace FieldType

variable {whole : String} {position : Nat} {text : List Char}

theorem bracketsAt_eq (hsmall : (Utf8.encode whole).length < 2 ^ 63) (levels : Nat)
    (hstands : StandsAt whole position text) (hlevels : levels + size text < 2 ^ 63) :
    ∃ start, StandsAt whole start (text.dropWhile (· == '[')) ∧
      bracketsAt (Utf8.encode whole) position levels =
        .ok (start, levels + (text.takeWhile (· == '[')).length) := by
  have hbyte : (Utf8.encode whole)[position]? = some 0x5B ↔ text.head? = some '[' :=
    hstands.getElem?_eq_some_iff '[' (by decide)
  induction text generalizing position levels with
  | nil =>
      refine ⟨position, hstands, ?_⟩
      rw [bracketsAt, dif_neg (by simp [hbyte])]
      rfl
  | cons first rest ih =>
      by_cases hfirst : first = '['
      · subst hfirst
        have hlength := hstands.length_eq
        have hrest := hstands.tail (by decide)
        rw [size_cons, utf8Size_of_ascii (by decide)] at hlevels hlength
        obtain ⟨start, hstart, hcount⟩ := ih (levels + 1) hrest (by omega)
          (hrest.getElem?_eq_some_iff '[' (by decide))
        refine ⟨start, hstart, ?_⟩
        rw [bracketsAt, dif_pos (hbyte.mpr rfl), Word.add_eq (by omega), ok_bind,
          Word.add_eq (by omega), ok_bind, if_pos (by omega), hcount,
          List.takeWhile_cons_of_pos rfl, List.length_cons]
        congr 2
        omega
      · have hother : (first == '[') = false := by simpa using hfirst
        refine ⟨position, ?_, ?_⟩
        · rw [List.dropWhile_cons_of_neg (by simp [hother])]
          exact hstands
        · rw [bracketsAt, dif_neg (by simpa [hbyte] using hfirst),
            List.takeWhile_cons_of_neg (by simp [hother])]
          rfl

/-- The semicolon takes one byte, so the rest behind it starts between
characters. -/
theorem classNameAt_eq (hsmall : (Utf8.encode whole).length < 2 ^ 63)
    (hstands : StandsAt whole position text) :
    Locates whole (classNameAt whole position) (FieldType.parseClassName whole text) := by
  rw [classNameAt, hstands.dropBytes_eq, ok_bind, FieldType.parseClassName]
  cases hdrop : text.dropWhile (· != ';') with
  | nil =>
      rw [find?_eq_none hdrop]
      exact .flawed _
  | cons last rest =>
      obtain ⟨rfl, hfind⟩ := find?_eq_some hdrop
      have hsplit : text.takeWhile (· != ';') ++ ';' :: rest = text := by
        rw [← hdrop]
        exact List.takeWhile_append_dropWhile
      rw [hfind]
      generalize text.takeWhile (· != ';') = name at hsplit ⊢
      subst hsplit
      have hlength := hstands.length_eq
      rw [size_append, size_cons, utf8Size_of_ascii (by decide)] at hlength
      cases name with
      | nil => exact .flawed _
      | cons first name =>
          have hpositive := first.utf8Size_pos
          have hnonempty : size (first :: name) ≠ 0 := by
            rw [size_cons]
            omega
          have hrest := (hstands.append (first :: name)).tail (by decide)
          simp only [List.isEmpty_cons, Bool.false_eq_true, if_false]
          rw [if_neg hnonempty, Word.add_eq (by omega), ok_bind, Word.add_eq (by omega), ok_bind,
            takeBytes_append, ok_bind]
          exact .found hrest

/-- The characters that a type starts with, the bracket of an array apart. -/
def tags : List Char := ['B', 'C', 'D', 'F', 'I', 'J', 'S', 'Z', 'L']

theorem elementAt_of_not_mem {tag : UInt8}
    (hother : tag ∉ tags.map (fun target => UInt8.ofNat target.toNat)) :
    elementAt whole tag position = flaw (.invalidTypeTag (Char.ofNat tag.toNat) whole) := by
  unfold elementAt
  split
  case h_10 => rfl
  all_goals exact absurd (by decide) hother

theorem lead_not_mem {first : Char} (hother : first ∉ tags) :
    lead first ∉ tags.map (fun target => UInt8.ofNat target.toNat) := by
  intro hmem
  obtain ⟨target, htarget, hlead⟩ := List.mem_map.mp hmem
  have hall : tags.all (fun target => decide (target.toNat < 0x80)) = true := rfl
  have hascii : target.toNat < 0x80 := of_decide_eq_true (List.all_eq_true.mp hall target htarget)
  rw [(lead_eq_iff hascii).mp hlead.symm] at hother
  exact hother htarget

/-- A tag that stands for no type ends the reading, so that one byte on from it
there may be the middle of a character. -/
theorem elementAt_eq (hsmall : (Utf8.encode whole).length < 2 ^ 63) {first : Char}
    (hstands : StandsAt whole position (first :: text)) :
    Locates whole (elementAt whole (lead first) (position + 1))
      (FieldType.parseElement whole (first :: text)) := by
  unfold FieldType.parseElement
  split
  case h_1 hempty => cases hempty
  case h_10 hfirst =>
      cases hfirst
      exact classNameAt_eq hsmall (hstands.tail (by decide))
  case h_11 hB hC hD hF hI hJ hS hZ hL hfirst =>
      cases hfirst
      have hother : first ∉ tags := by
        simp only [tags, List.mem_cons, List.not_mem_nil, or_false]
        rintro (rfl | rfl | rfl | rfl | rfl | rfl | rfl | rfl | rfl)
        · exact hB rfl
        · exact hC rfl
        · exact hD rfl
        · exact hF rfl
        · exact hI rfl
        · exact hJ rfl
        · exact hS rfl
        · exact hZ rfl
        · exact hL rfl
      rw [elementAt_of_not_mem (lead_not_mem hother), leadCharacter_eq]
      exact .flawed _
  all_goals
    next hfirst =>
      cases hfirst
      exact .found (hstands.tail (by decide))

theorem typeAt_eq (hsmall : (Utf8.encode whole).length < 2 ^ 63)
    (hstands : StandsAt whole position text) :
    Locates whole (typeAt whole position) (FieldType.parseOne whole text) := by
  have hlength := hstands.length_eq
  obtain ⟨start, hstart, hbrackets⟩ := bracketsAt_eq hsmall 0 hstands (by omega)
  rw [Nat.zero_add] at hbrackets
  rw [typeAt, hbrackets, ok_bind, FieldType.parseOne]
  simp only
  by_cases hlevels : FieldType.maxDimensions < (text.takeWhile (· == '[')).length
  · rw [if_pos hlevels, if_pos hlevels]
    exact .flawed _
  · rw [if_neg hlevels, if_neg hlevels, hstart.getElem?_eq]
    cases hdrop : text.dropWhile (· == '[') with
    | nil => exact .flawed _
    | cons first rest =>
        rw [hdrop] at hstart
        have hstartLength := hstart.length_eq
        simp only [List.head?_cons, Option.map_some]
        rw [Word.add_eq (by omega), ok_bind]
        have helement := elementAt_eq hsmall hstart
        generalize elementAt whole (lead first) (start + 1) = computed at helement ⊢
        generalize FieldType.parseElement whole (first :: rest) = original at helement ⊢
        cases helement with
        | found hnext => exact .found hnext
        | flawed defect => exact .flawed defect

/-- Field descriptors are read without traps. -/
theorem parse_eq (hsmall : (Utf8.encode whole).length < 2 ^ 63) :
    parse whole = total (JvmCalls.FieldType.parse whole) := by
  have htype := typeAt_eq hsmall (StandsAt.start whole)
  rw [parse, JvmCalls.FieldType.parse]
  generalize typeAt whole 0 = computed at htype ⊢
  generalize FieldType.parseOne whole whole.toList = original at htype ⊢
  cases htype with
  | flawed defect => rfl
  | @found type next rest hnext =>
      rw [ok_bind]
      simp only [hnext.eq_length_iff]
      cases rest with
      | nil => rfl
      | cons first rest => rfl

end FieldType

namespace MethodType

open JvmCalls (FieldType)

variable {whole : String} {position : Nat} {text : List Char}

/-- At any other character than a closing parenthesis a type is read. -/
theorem parametersAt_of_ne {first : Char} (hstands : StandsAt whole position (first :: text))
    (hother : first ≠ ')') (parameters : List FieldType) :
    parametersAt whole position parameters = (do
      let (type, next) ← FieldType.typeAt whole position
      if (Utf8.encode whole).length - next < (Utf8.encode whole).length - position then
        parametersAt whole next (parameters ++ [type])
      else
        trap .stall) := by
  have hinside : (Utf8.encode whole)[position]? ≠ none := by
    simp [hstands.getElem?_eq_none_iff]
  have hbyte : (Utf8.encode whole)[position]? ≠ some 0x29 := by
    intro hbyte
    have hclose := (hstands.getElem?_eq_some_iff ')' (by decide)).mp hbyte
    exact hother (Option.some.inj hclose)
  rw [parametersAt, if_neg hinside, if_neg hbyte]

/-- Parameters are read in order, by induction on the types that are read. -/
theorem parametersAt_eq (hsmall : (Utf8.encode whole).length < 2 ^ 63)
    (parameters : List FieldType) (hstands : StandsAt whole position text) :
    Locates whole (parametersAt whole position parameters.reverse)
      (MethodType.parseParameters whole text parameters) := by
  have hlength := hstands.length_eq
  have htype := FieldType.typeAt_eq hsmall hstands
  fun_induction MethodType.parseParameters whole text parameters generalizing position with
  | case1 parameters =>
      rw [parametersAt, if_pos (hstands.getElem?_eq_none_iff.mpr rfl)]
      exact .flawed _
  | case2 parameters rest =>
      have hclose : (Utf8.encode whole)[position]? = some 0x29 :=
        (hstands.getElem?_eq_some_iff ')' (by decide)).mpr rfl
      rw [size_cons] at hlength
      rw [parametersAt, if_neg (by simp [hstands.getElem?_eq_none_iff]), if_pos hclose,
        Word.add_eq (by omega)]
      exact .found (hstands.tail (by decide))
  | case3 parameters first rest hother type remaining hparsed ih =>
      rw [hparsed] at htype
      generalize hfound : FieldType.typeAt whole position = found at htype
      cases htype with
      | @found _ next _ hnext =>
          have hon := hstands.lt_of_length_lt hnext (FieldType.parseOne_shortens hparsed)
          have hrest := hnext.length_eq
          rw [parametersAt_of_ne hstands hother, hfound, ok_bind]
          simp only
          rw [if_pos (by omega), ← List.reverse_cons]
          exact ih hnext hrest (FieldType.typeAt_eq hsmall hnext)
  | case4 parameters first rest hother defect hparsed =>
      rw [hparsed] at htype
      generalize hfound : FieldType.typeAt whole position = found at htype
      cases htype
      rw [parametersAt_of_ne hstands hother, hfound]
      exact .flawed _

theorem resultAt_eq (hsmall : (Utf8.encode whole).length < 2 ^ 63)
    (hstands : StandsAt whole position text) :
    Locates whole (resultAt whole position) (MethodType.parseResult whole text) := by
  have hlength := hstands.length_eq
  have hvoid : (Utf8.encode whole)[position]? = some 0x56 ↔ text.head? = some 'V' :=
    hstands.getElem?_eq_some_iff 'V' (by decide)
  unfold MethodType.parseResult
  split
  · rw [size_cons] at hlength
    rw [resultAt, if_pos (hvoid.mpr rfl), Word.add_eq (by omega)]
    exact .found (hstands.tail (by decide))
  · next hother =>
      have hbyte : (Utf8.encode whole)[position]? ≠ some 0x56 := by
        intro hbyte
        obtain ⟨rest, rfl⟩ := List.head?_eq_some_iff.mp (hvoid.mp hbyte)
        exact hother rest rfl
      have htype := FieldType.typeAt_eq hsmall hstands
      rw [resultAt, if_neg hbyte]
      generalize FieldType.typeAt whole position = computed at htype ⊢
      generalize FieldType.parseOne whole text = original at htype ⊢
      cases htype with
      | found hnext => exact .found hnext
      | flawed defect => exact .flawed defect

/-- Method descriptors are read without traps. -/
theorem parse_eq (hsmall : (Utf8.encode whole).length < 2 ^ 63) :
    parse whole = total (JvmCalls.MethodType.parse whole) := by
  have hstart := StandsAt.start whole
  have hopen : (Utf8.encode whole)[0]? = some 0x28 ↔ whole.toList.head? = some '(' :=
    hstart.getElem?_eq_some_iff '(' (by decide)
  unfold JvmCalls.MethodType.parse
  split
  · next text htext =>
      rw [htext] at hopen hstart
      have hparameters := parametersAt_eq hsmall [] (hstart.tail (by decide))
      rw [parse, if_pos (hopen.mpr rfl)]
      simp only [List.reverse_nil, Nat.zero_add] at hparameters
      generalize parametersAt whole 1 [] = computed at hparameters ⊢
      generalize MethodType.parseParameters whole text [] = original at hparameters ⊢
      cases hparameters with
      | flawed defect => rfl
      | @found parameters position behind hbehind =>
          have hresult := resultAt_eq hsmall hbehind
          simp only [ok_bind]
          change _ = total (MethodType.parseResult whole behind >>= fun found => _)
          generalize resultAt whole position = computed at hresult ⊢
          generalize MethodType.parseResult whole behind = original at hresult ⊢
          cases hresult with
          | flawed defect => rfl
          | @found result stop rest hstop =>
              simp only [ok_bind, hstop.eq_length_iff]
              cases rest with
              | nil => rfl
              | cons first rest => rfl
  · next hother =>
      have hbyte : (Utf8.encode whole)[0]? ≠ some 0x28 := by
        intro hbyte
        obtain ⟨rest, hrest⟩ := List.head?_eq_some_iff.mp (hopen.mp hbyte)
        exact hother rest hrest
      rw [parse, if_neg hbyte]
      rfl

end MethodType

/-! ## Readable forms -/

/-- The value of a computation, or another one in the place of a flaw. -/
def orElse {Value : Type} (computed : Checked Defect Value) (other : Value) :
    Checked Defect Value :=
  match computed with
  | .ok value => .ok value
  | .error (.flaw _) => .ok other
  | .error (.trap cause) => trap cause

def readableName (internal : String) : Checked Defect String :=
  if internal.toList.head? = some '[' then
    orElse (FieldType.render <$> FieldType.parse internal) (binaryName internal)
  else
    return binaryName internal

def readableSignature (descriptor : String) : Checked Defect String :=
  orElse (MethodType.render <$> MethodType.parse descriptor) descriptor

theorem readableName_eq {internal : String} (hsmall : (Utf8.encode internal).length < 2 ^ 63) :
    readableName internal = .ok (JvmCalls.readableName internal) := by
  unfold JvmCalls.readableName
  split
  · next harray =>
      rw [readableName, if_pos harray, FieldType.parse_eq hsmall]
      cases JvmCalls.FieldType.parse internal with
      | ok type => rfl
      | error defect => rfl
  · next hother =>
      rw [readableName, if_neg hother]
      rfl

theorem readableSignature_eq {descriptor : String}
    (hsmall : (Utf8.encode descriptor).length < 2 ^ 63) :
    readableSignature descriptor =
      .ok (match JvmCalls.MethodType.parse descriptor with
        | .ok type => type.render
        | .error _ => descriptor) := by
  rw [readableSignature, MethodType.parse_eq hsmall]
  cases JvmCalls.MethodType.parse descriptor with
  | ok type => rfl
  | error defect => rfl

end JvmCalls.Trapping

import JvmCalls.Output.Line
import JvmCalls.Proofs.Outcome

/-!
# Reading back edge lines

A field is read back from its escaped form, in which neither the separator nor
the line break occurs.  So a line falls apart into the fields it was made of,
and a text into the lines it was made of, whatever the fields hold.
-/

namespace JvmCalls

namespace Field

/-- The letter behind a backslash tells the character it stands for. -/
theorem ofLetter?_letterOf? {character letter : Char}
    (hletter : letterOf? character = some letter) :
    ofLetter? letter = some character := by
  unfold letterOf? at hletter
  split at hletter <;> cases hletter <;> rfl

theorem letterOf?_eq_none_iff {character : Char} :
    letterOf? character = none ↔ character ∉ ['\\', ' ', '\t', '\n', '\r'] := by
  unfold letterOf?
  split <;> simp_all

/-- A character is read back from its escaped form, whatever stands behind. -/
theorem unescapeChars_escapeChar (character : Char) (rest : List Char) :
    unescapeChars (escapeChar character ++ rest) =
      (unescapeChars rest).map (character :: ·) := by
  rw [escapeChar]
  cases hletter : letterOf? character with
  | some letter =>
      simp only [List.cons_append, List.nil_append, unescapeChars, ofLetter?_letterOf? hletter]
      cases unescapeChars rest <;> rfl
  | none =>
      have hplain : character ≠ '\\' := by
        rintro rfl
        cases hletter
      rw [List.singleton_append, unescapeChars]
      · simp only [hletter, Option.isSome_none, Bool.false_eq_true, if_false]
      · exact fun hsame => absurd hsame hplain
      · exact fun _ _ hsame => absurd hsame hplain

theorem unescapeChars_escape (characters : List Char) :
    unescapeChars (characters.flatMap escapeChar) = some characters := by
  induction characters with
  | nil => rfl
  | cons character characters ih =>
      rw [List.flatMap_cons, unescapeChars_escapeChar, ih]
      rfl

/-- A text is read back from its escaped form. -/
theorem unescape_escape (text : String) : unescape (escape text) = some text := by
  rw [unescape, escape, String.toList_ofList, unescapeChars_escape, Option.map_some,
    String.ofList_toList]

/-- Neither blanks nor line breaks occur in an escaped form. -/
theorem not_mem_escape (text : String) {blank : Char}
    (hblank : blank ∈ [' ', '\t', '\n', '\r']) : blank ∉ (escape text).toList := by
  rw [escape, String.toList_ofList, List.mem_flatMap]
  rintro ⟨character, _, hmem⟩
  rw [escapeChar] at hmem
  cases hletter : letterOf? character with
  | some letter =>
      have hletters : letter ∈ ['\\', 's', 't', 'n', 'r'] := by
        unfold letterOf? at hletter
        split at hletter <;> cases hletter <;> decide
      rw [hletter] at hmem
      grind
  | none =>
      rw [hletter, List.mem_singleton] at hmem
      have hplain := letterOf?_eq_none_iff.mp hletter
      grind

/-- A text without the characters that are escaped stands as it is. -/
theorem escape_eq_self {text : String}
    (hplain : ∀ character ∈ text.toList, letterOf? character = none) : escape text = text := by
  have hchars : text.toList.flatMap escapeChar = text.toList.flatMap ([·]) := by
    apply List.flatMap_congr
    intro character hmem
    rw [escapeChar, hplain character hmem]
  rw [escape, hchars, List.flatMap_singleton', String.ofList_toList]

end Field

namespace Line

def escaped (field : String) : List Char := (Field.escape field).toList

theorem toList_ofFields (fields : List String) :
    (ofFields fields).toList = [separator].intercalate (fields.map escaped) := by
  rw [ofFields, String.toList_intercalate, List.map_map]
  rfl

/-- A line falls apart into the escaped forms of its fields. -/
theorem splitOn_ofFields {fields : List String} (hfields : fields ≠ []) :
    (ofFields fields).toList.splitOn separator = fields.map escaped := by
  rw [toList_ofFields]
  apply List.splitOn_intercalate
  · simp only [List.forall_mem_map]
    exact fun field _ => Field.not_mem_escape field (by decide)
  · simpa using hfields

theorem unescape_escaped (field : String) :
    Field.unescape (String.ofList (escaped field)) = some field := by
  rw [escaped, String.ofList_toList, Field.unescape_escape]

/-- The fields of a line are read back. -/
theorem fields?_ofFields {fields : List String} (hfields : fields ≠ []) :
    fields? (ofFields fields).toList = some fields := by
  have hread : (fields.map escaped).mapM (fun field => Field.unescape (String.ofList field)) =
      some (fields.map id) := Outcome.mapM_map_eq_some unescape_escaped
  rw [fields?, splitOn_ofFields hfields, hread, List.map_id]

/-- A character that occurs in no part occurs nowhere, unless it stands between
the parts. -/
theorem not_mem_intercalate {blank between : Char} {parts : List (List Char)}
    (hbetween : blank ≠ between) (hparts : ∀ part ∈ parts, blank ∉ part) :
    blank ∉ [between].intercalate parts := by
  induction parts with
  | nil => exact List.not_mem_nil
  | cons part parts ih =>
      rw [List.forall_mem_cons] at hparts
      cases parts with
      | nil => simpa using hparts.1
      | cons next parts =>
          rw [List.intercalate_cons_cons, List.mem_append, List.mem_append, List.mem_singleton]
          rintro ((hmem | hmem) | hmem)
          · exact hparts.1 hmem
          · exact hbetween hmem
          · exact ih hparts.2 hmem

theorem terminator_not_mem_ofFields (fields : List String) :
    terminator ∉ (ofFields fields).toList := by
  rw [toList_ofFields]
  refine not_mem_intercalate (by decide) ?_
  rw [List.forall_mem_map]
  exact fun field _ => Field.not_mem_escape field (by decide)

/-- Lines are read back from the text in which each of them is ended. -/
theorem split?_lines {lines : List (List Char)} (hlines : ∀ line ∈ lines, terminator ∉ line) :
    split? (String.ofList (lines.flatMap (· ++ [terminator]))) = some lines := by
  have htext : lines.flatMap (· ++ [terminator]) = [terminator].intercalate (lines ++ [[]]) := by
    induction lines with
    | nil => rfl
    | cons line lines ih =>
        rw [List.forall_mem_cons] at hlines
        rw [List.flatMap_cons, ih hlines.2, List.cons_append,
          List.intercalate_cons_of_ne_nil (by simp)]
  have hsplit : (lines.flatMap (· ++ [terminator])).splitOn terminator = lines ++ [[]] := by
    rw [htext]
    apply List.splitOn_intercalate
    · simpa [or_imp, forall_and] using hlines
    · simp
  rw [split?, String.toList_ofList, hsplit, List.reverse_append, List.reverse_singleton]
  exact congrArg some (List.reverse_reverse lines)

end Line

end JvmCalls

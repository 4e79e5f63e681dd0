import JvmCalls.Output.Json
import JvmCalls.Proofs.Output.Written

/-!
# Reading back edge records

A character inside a string is read back from what stands for it, so an object
of strings is read back as the members it was made of, whatever they hold.  No
line break occurs in an object, and a text of records falls apart into them.
-/

namespace JvmCalls

namespace Json

/-! ## Strings -/

def escapeChar (character : Char) : List Char :=
  match escape? character with
  | none => [character]
  | some escaped => escaped.toList

/-- The digits behind `\u` of a control character stand for it and are no line
breaks. -/
theorem control_digits : ∀ number < 0x20,
    ((Hexadecimal.lower 4 number).toList.length = 4 ∧
      ofDigits? (Hexadecimal.lower 4 number).toList = some (Char.ofNat number)) ∧
      Line.terminator ∉ (Hexadecimal.lower 4 number).toList := by
  decide +kernel

/-- A character stands for itself, or a letter or digits behind a backslash stand
for it. -/
inductive Stands (character : Char) : List Char → Prop
  | plain (hplain : escape? character = none) : Stands character [character]
  | letter {letter : Char} (hletter : ofLetter? letter = some character)
      (hother : letter ≠ 'u') (hline : letter ≠ Line.terminator) :
      Stands character ['\\', letter]
  | digits {first second third fourth : Char}
      (hdigits : ofDigits? [first, second, third, fourth] = some character)
      (hline : Line.terminator ∉ [first, second, third, fourth]) :
      Stands character ['\\', 'u', first, second, third, fourth]

theorem stands_escapeChar (character : Char) : Stands character (escapeChar character) := by
  cases hescape : escape? character with
  | none =>
      rw [escapeChar, hescape]
      exact .plain hescape
  | some escaped =>
      rw [escapeChar, hescape]
      change Stands character escaped.toList
      unfold escape? at hescape
      split at hescape
      case h_8 =>
        split at hescape
        · next hcontrol =>
            obtain ⟨⟨hlength, hdigits⟩, hline⟩ := control_digits _ hcontrol
            cases hescape
            rw [String.toList_append]
            generalize (Hexadecimal.lower 4 character.toNat).toList = digits at *
            rw [Char.ofNat_toNat] at hdigits
            match digits, hlength with
            | [first, second, third, fourth], _ => exact .digits hdigits hline
        · cases hescape
      all_goals
        cases hescape
        exact .letter rfl (by decide) (by decide)

/-- A character is read back from what stands for it, whatever stands behind. -/
theorem tokens_escapeChar (character : Char) (inside rest : List Char) :
    tokens (some inside) (escapeChar character ++ rest) =
      tokens (some (character :: inside)) rest := by
  have hstands := stands_escapeChar character
  generalize escapeChar character = chars at hstands
  cases hstands with
  | plain hplain =>
      have hquote : character ≠ '"' := by
        rintro rfl
        cases hplain
      have hslash : character ≠ '\\' := by
        rintro rfl
        cases hplain
      rw [List.singleton_append, tokens]
      · simp only [hplain, Option.isSome_none, Bool.false_eq_true, if_false]
      · exact hquote
      · exact fun _ _ _ _ _ hsame => absurd hsame hslash
      · exact fun _ _ hsame => absurd hsame hslash
  | letter hletter hother =>
      rw [List.cons_append, List.singleton_append, tokens, hletter]
      · rfl
      · exact fun _ _ _ _ _ hsame => absurd hsame hother
  | digits hdigits =>
      simp only [List.cons_append, List.nil_append, tokens, hdigits]
      rfl

theorem terminator_not_mem_escapeChar (character : Char) :
    Line.terminator ∉ escapeChar character := by
  have hstands := stands_escapeChar character
  generalize escapeChar character = chars at hstands
  cases hstands with
  | plain hplain =>
      rw [List.mem_singleton]
      rintro rfl
      cases hplain
  | letter _ _ hline =>
      rw [List.mem_cons, List.mem_singleton]
      rintro (hslash | hsame)
      · exact absurd hslash (by decide)
      · exact hline hsame.symm
  | digits _ hline =>
      rw [List.mem_cons, List.mem_cons]
      rintro (hslash | hu | hmem)
      · exact absurd hslash (by decide)
      · exact absurd hu (by decide)
      · exact hline hmem

/-- The pieces of the inside of a string in one. -/
theorem flatMap_collectPieces (text run : List Char) (pieces : List String) :
    (collectPieces text run pieces).reverse.flatMap String.toList =
      pieces.reverse.flatMap String.toList ++ run.reverse ++ text.flatMap escapeChar := by
  fun_induction collectPieces text run pieces with
  | case1 run pieces hempty => simp [List.isEmpty_iff.mp hempty]
  | case2 run pieces hrun => simp
  | case3 run pieces character text hescape ih => simp [ih, escapeChar, hescape]
  | case4 run pieces character text escaped hescape before ih =>
      rw [ih]
      simp only [before]
      split
      · next hempty => simp [List.isEmpty_iff.mp hempty, escapeChar, hescape]
      · simp [escapeChar, hescape]

def stringChars (text : String) : List Char := (stringPieces text).flatMap String.toList

theorem stringChars_eq (text : String) :
    stringChars text = '"' :: (text.toList.flatMap escapeChar ++ ['"']) := by
  simp only [stringChars, stringPieces, List.cons_append, List.flatMap_cons, List.flatMap_append,
    flatMap_collectPieces, List.flatMap_nil]
  rfl

theorem tokens_inside (text inside rest : List Char) :
    tokens (some inside) (text.flatMap escapeChar ++ '"' :: rest) =
      (tokens none rest).map (.text (String.ofList (inside.reverse ++ text)) :: ·) := by
  induction text generalizing inside with
  | nil => rw [List.flatMap_nil, List.nil_append, tokens, List.append_nil]
  | cons character text ih =>
      rw [List.flatMap_cons, List.append_assoc, tokens_escapeChar, ih, List.reverse_cons,
        List.append_assoc]
      rfl

/-- A string is read back, whatever stands behind. -/
theorem tokens_stringChars (text : String) (rest : List Char) :
    tokens none (stringChars text ++ rest) = (tokens none rest).map (.text text :: ·) := by
  rw [stringChars_eq, List.cons_append, List.append_assoc, List.singleton_append, tokens,
    tokens_inside, List.reverse_nil, List.nil_append, String.ofList_toList]

theorem terminator_not_mem_stringChars (text : String) :
    Line.terminator ∉ stringChars text := by
  rw [stringChars_eq, List.mem_cons, List.mem_append, List.mem_flatMap, List.mem_singleton]
  rintro (hquote | ⟨character, _, hmem⟩ | hquote)
  · exact absurd hquote (by decide)
  · exact terminator_not_mem_escapeChar character hmem
  · exact absurd hquote (by decide)

/-! ## Objects -/

def memberChars (member : String × String) : List Char :=
  (memberPieces member.1 member.2).flatMap String.toList

theorem memberChars_eq (member : String × String) :
    memberChars member = stringChars member.1 ++ ':' :: stringChars member.2 := by
  simp only [memberChars, memberPieces, List.flatMap_append, List.flatMap_cons, stringChars]
  rfl

def objectChars (members : List (String × String)) : List Char :=
  (objectPieces members).flatMap String.toList

theorem objectChars_eq (members : List (String × String)) :
    objectChars members =
      '\x7b' :: ([','].intercalate (members.map memberChars) ++ ['\x7d']) := by
  have hinner :
      ([","].intercalate (members.map fun member => memberPieces member.1 member.2)).flatMap
        String.toList = [','].intercalate (members.map memberChars) := by
    induction members with
    | nil => rfl
    | cons member members ih =>
        cases members with
        | nil => simp [memberChars]
        | cons next members =>
            simp only [List.map_cons, List.intercalate_cons_cons, List.flatMap_append] at ih ⊢
            rw [ih]
            rfl
  simp only [objectChars, objectPieces, List.cons_append, List.flatMap_cons, List.flatMap_append,
    hinner]
  rfl

def memberTokens (member : String × String) : List Token :=
  [.text member.1, .colon, .text member.2]

theorem tokens_memberChars (member : String × String) (rest : List Char) :
    tokens none (memberChars member ++ rest) =
      (tokens none rest).map (memberTokens member ++ ·) := by
  rw [memberChars_eq, List.append_assoc, tokens_stringChars, List.cons_append, tokens,
    tokens_stringChars, Option.map_map, Option.map_map]
  rfl

theorem tokens_members (members : List (String × String)) :
    tokens none ([','].intercalate (members.map memberChars) ++ ['\x7d']) =
      some ([Token.comma].intercalate (members.map memberTokens) ++ [.closing]) := by
  induction members with
  | nil => rfl
  | cons member members ih =>
      cases members with
      | nil =>
          simp only [List.map_cons, List.map_nil, List.intercalate_singleton]
          rw [tokens_memberChars]
          rfl
      | cons next members =>
          simp only [List.map_cons, List.intercalate_cons_cons, List.append_assoc] at ih ⊢
          rw [tokens_memberChars, List.singleton_append, tokens, ih]
          rfl

theorem members?_memberTokens {members : List (String × String)} (hmembers : members ≠ []) :
    members? ([Token.comma].intercalate (members.map memberTokens) ++ [.closing]) =
      some members := by
  induction members with
  | nil => exact absurd rfl hmembers
  | cons member members ih =>
      cases members with
      | nil => rfl
      | cons next members =>
          simp only [List.map_cons, List.intercalate_cons_cons, List.append_assoc] at ih ⊢
          simp only [memberTokens, List.cons_append, List.nil_append, members?] at ih ⊢
          rw [ih (List.cons_ne_nil _ _)]
          rfl

/-- An object is read back as its members. -/
theorem readObject_objectChars {members : List (String × String)} (hmembers : members ≠ []) :
    readObject (objectChars members) = some members := by
  obtain ⟨first, rest, hrest⟩ : ∃ first rest,
      [Token.comma].intercalate (members.map memberTokens) ++ [.closing] = .text first :: rest := by
    cases members with
    | nil => exact absurd rfl hmembers
    | cons member members => cases members <;> exact ⟨_, _, rfl⟩
  have hread := members?_memberTokens hmembers
  rw [readObject, objectChars_eq, tokens, tokens_members]
  rw [hrest] at hread ⊢
  exact hread

theorem terminator_not_mem_objectChars (members : List (String × String)) :
    Line.terminator ∉ objectChars members := by
  have hinner : Line.terminator ∉ [','].intercalate (members.map memberChars) := by
    refine Line.not_mem_intercalate (by decide) ?_
    rw [List.forall_mem_map]
    intro member _
    rw [memberChars_eq, List.mem_append, List.mem_cons]
    rintro (hkey | hcolon | hvalue)
    · exact terminator_not_mem_stringChars _ hkey
    · exact absurd hcolon (by decide)
    · exact terminator_not_mem_stringChars _ hvalue
  rw [objectChars_eq, List.mem_cons, List.mem_append, List.mem_singleton]
  rintro (hopening | hmem | hclosing)
  · exact absurd hopening (by decide)
  · exact hinner hmem
  · exact absurd hclosing (by decide)

end Json

namespace CallEdge

/-- The characters of the record of an edge, without its line break. -/
def recordChars (edge : CallEdge) (style : SignatureStyle) : List Char :=
  Json.objectChars (edge.members style)

theorem terminator_not_mem_recordChars (edge : CallEdge) (style : SignatureStyle) :
    Line.terminator ∉ edge.recordChars style :=
  Json.terminator_not_mem_objectChars (edge.members style)

theorem readObject_recordChars (edge : CallEdge) (style : SignatureStyle) :
    Json.readObject (edge.recordChars style) = some (edge.members style) :=
  Json.readObject_objectChars (List.cons_ne_nil _ _)

def recordsOf (edges : List CallEdge) (style : SignatureStyle) : String :=
  String.ofList ((edges.map (fun edge => edge.recordChars style)).flatMap (· ++ [Line.terminator]))

def recordBytes (style : SignatureStyle) (edge : CallEdge) : Bytes :=
  (Json.objectPieces (edge.members style) ++ [Line.terminator.toString]).flatMap Utf8.encode

theorem encode_recordsOf (edges : List CallEdge) (style : SignatureStyle) :
    Utf8.encode (recordsOf edges style) = edges.flatMap (recordBytes style) := by
  have hrecord : ∀ edge : CallEdge, (edge.recordChars style ++ [Line.terminator]).flatMap
      String.utf8EncodeChar = recordBytes style edge := by
    intro edge
    rw [recordBytes, recordChars, Json.objectChars, List.flatMap_append, List.flatMap_append,
      List.flatMap_assoc]
    rfl
  rw [recordsOf, Utf8.encode, String.toList_ofList, List.flatMap_assoc, List.flatMap_map]
  exact List.flatMap_congr (fun edge _ => hrecord edge)

/-- A sink that writes records writes those of the edges one after another. -/
theorem puts_recordSink {State : Type} [Output State] {capacity : Option Nat}
    {conduit : Conduit State capacity} (style : SignatureStyle) (entry : String)
    (edges : List CallEdge) :
    conduit.Puts (recordSink style entry edges) (edges.flatMap (recordBytes style)) :=
  Conduit.puts_forM (fun _ => Conduit.puts_writePieces _)

theorem holdsLines_of_bytes_eq_records {device : Device} {edges : List CallEdge}
    {style : SignatureStyle} (hbytes : device.bytes = Utf8.encode (recordsOf edges style)) :
    device.HoldsLines (edges.map (fun edge => edge.recordChars style)) := by
  refine ⟨hbytes, ?_⟩
  rw [List.forall_mem_map]
  exact fun edge _ => edge.terminator_not_mem_recordChars style

end CallEdge

end JvmCalls

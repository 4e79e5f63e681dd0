import JvmCalls.Call.Extraction

/-!
# Edge lines

An edge is written as one line of five fields with a space between them.
Spaces, line breaks, tabs and backslashes inside a field are written as a
backslash and a letter, so that the fields of a line can be told apart and
`Field.unescape` gives each of them back.  `Line.readAll` reads the fields of
all lines of a text.
-/

namespace JvmCalls

namespace Field

/-- The letter that stands behind a backslash for a character. -/
def letterOf? : Char → Option Char
  | '\\' => some '\\'
  | ' ' => some 's'
  | '\t' => some 't'
  | '\n' => some 'n'
  | '\r' => some 'r'
  | _ => none

def ofLetter? : Char → Option Char
  | '\\' => some '\\'
  | 's' => some ' '
  | 't' => some '\t'
  | 'n' => some '\n'
  | 'r' => some '\r'
  | _ => none

def escapeChar (character : Char) : List Char :=
  match letterOf? character with
  | some letter => ['\\', letter]
  | none => [character]

def escape (text : String) : String :=
  String.ofList (text.toList.flatMap escapeChar)

def unescapeChars : List Char → Option (List Char)
  | [] => some []
  | ['\\'] => none
  | '\\' :: letter :: rest => do
      let character ← ofLetter? letter
      return character :: (← unescapeChars rest)
  | character :: rest =>
      if (letterOf? character).isSome then none
      else (unescapeChars rest).map (character :: ·)

/-- The text a field stands for, if it is a field. -/
def unescape (field : String) : Option String :=
  (unescapeChars field.toList).map String.ofList

end Field

namespace Line

def separator : Char := ' '

def terminator : Char := '\n'

/-- The line of the given fields, without its line break. -/
def ofFields (fields : List String) : String :=
  String.intercalate separator.toString (fields.map Field.escape)

def fields? (line : List Char) : Option (List String) :=
  (line.splitOn separator).mapM (fun field => Field.unescape (String.ofList field))

/-- The lines of a text without their line breaks, if the last one ends with a
line break as well. -/
def split? (text : String) : Option (List (List Char)) :=
  match (text.toList.splitOn terminator).reverse with
  | [] :: lines => some lines.reverse
  | _ => none

def readAll (text : String) : Option (List (List String)) := do
  (← split? text).mapM fields?

end Line

def CallEdge.line (edge : CallEdge) (style : SignatureStyle) : String :=
  Line.ofFields (edge.fields style)

/-- The lines of the calls of a class, without their line breaks. -/
def ClassFile.lines (decoded : ClassFile) (filter : TypeFilter) (style : SignatureStyle) :
    Except Defect (List String) := do
  return (← decoded.calls filter).map (fun edge => edge.line style)

end JvmCalls

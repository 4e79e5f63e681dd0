import JvmCalls.Fault

/-!
# Field types

A field descriptor names a type: one letter for a primitive type, a class name
between `L` and a semicolon, and an opening bracket for each array level in
front.  `FieldType.parse` reads a whole descriptor, `FieldType.descriptor`
writes it, and `FieldType.render` gives the type as it stands in a program.
-/

namespace JvmCalls

/-- The binary name of a class: its internal name with dots for slashes. -/
def binaryName (internal : String) : String :=
  String.ofList (internal.toList.map (fun character => if character = '/' then '.' else character))

/-- The type of a field, a parameter or a result. -/
inductive FieldType
  | byte
  | char
  | double
  | float
  | int
  | long
  | short
  | boolean
  | object (name : String)
  | array (component : FieldType)
  deriving DecidableEq, Repr

namespace FieldType

/-- The most array levels a type may have. -/
def maxDimensions : Nat := 255

/-- The type with `levels` array levels around it. -/
def nest : (levels : Nat) → FieldType → FieldType
  | 0, type => type
  | levels + 1, type => array (nest levels type)

def dimensions : FieldType → Nat
  | array component => component.dimensions + 1
  | _ => 0

/-- The type inside all array levels. -/
def element : FieldType → FieldType
  | array component => component.element
  | type => type

/-- Whether a value takes two slots: `long` and `double`, not their arrays. -/
def isWide : FieldType → Bool
  | long | double => true
  | _ => false

def slots (type : FieldType) : Nat := if type.isWide then 2 else 1

def descriptor : FieldType → List Char
  | byte => ['B']
  | char => ['C']
  | double => ['D']
  | float => ['F']
  | int => ['I']
  | long => ['J']
  | short => ['S']
  | boolean => ['Z']
  | object name => 'L' :: name.toList ++ [';']
  | array component => '[' :: component.descriptor

/-- Whether a type has a descriptor that stands for it alone: it has no more
array levels than allowed, and its class name is not empty and does not hold
the semicolon that ends it. -/
def IsDescribable (type : FieldType) : Prop :=
  type.dimensions ≤ maxDimensions ∧
    ∀ name, type.element = object name → name ≠ "" ∧ ';' ∉ name.toList

/-- The type as it stands in a program: keywords, dotted class names, and a
pair of brackets behind the component for each array level. -/
def render : FieldType → String
  | byte => "byte"
  | char => "char"
  | double => "double"
  | float => "float"
  | int => "int"
  | long => "long"
  | short => "short"
  | boolean => "boolean"
  | object name => binaryName name
  | array component => component.render ++ "[]"

/-- The character whose code is the first byte of the UTF-8 form of
`character`; an ASCII character is its own. -/
def leadCharacter (character : Char) : Char :=
  match String.utf8EncodeChar character with
  | first :: _ => Char.ofNat first.toNat
  | [] => character

def parseClassName (whole : String) (text : List Char) : Except Defect (FieldType × List Char) :=
  match text.dropWhile (· != ';') with
  | [] => .error (.unterminatedClassName whole)
  | _ :: rest =>
      let name := text.takeWhile (· != ';')
      if name.isEmpty then
        .error (.emptyClassName whole)
      else
        .ok (object (String.ofList name), rest)

/-- Reads a type that is no array. -/
def parseElement (whole : String) (text : List Char) : Except Defect (FieldType × List Char) :=
  match text with
  | [] => .error (.truncatedDescriptor whole)
  | 'B' :: rest => .ok (byte, rest)
  | 'C' :: rest => .ok (char, rest)
  | 'D' :: rest => .ok (double, rest)
  | 'F' :: rest => .ok (float, rest)
  | 'I' :: rest => .ok (int, rest)
  | 'J' :: rest => .ok (long, rest)
  | 'S' :: rest => .ok (short, rest)
  | 'Z' :: rest => .ok (boolean, rest)
  | 'L' :: rest => parseClassName whole rest
  | other :: _ => .error (.invalidTypeTag (leadCharacter other) whole)

/-- Reads the type at the start of `text`, a part of the descriptor `whole`,
and returns it with the text behind it. -/
def parseOne (whole : String) (text : List Char) : Except Defect (FieldType × List Char) :=
  let levels := (text.takeWhile (· == '[')).length
  if maxDimensions < levels then
    .error (.excessiveDimensions whole levels)
  else
    match parseElement whole (text.dropWhile (· == '[')) with
    | .ok (type, rest) => .ok (nest levels type, rest)
    | .error defect => .error defect

def parse (whole : String) : Except Defect FieldType :=
  match parseOne whole whole.toList with
  | .ok (type, []) => .ok type
  | .ok (_, _ :: _) => .error (.trailingFieldData whole)
  | .error defect => .error defect

theorem length_dropWhile_le (keep : Char → Bool) (text : List Char) :
    (text.dropWhile keep).length ≤ text.length := by
  induction text with
  | nil => simp
  | cons head tail ih =>
      rw [List.dropWhile_cons]
      split
      · exact Nat.le_succ_of_le ih
      · exact Nat.le_refl _

theorem parseElement_shortens {whole : String} {text rest : List Char} {type : FieldType}
    (hparsed : parseElement whole text = .ok (type, rest)) : rest.length < text.length := by
  unfold parseElement at hparsed
  split at hparsed
  case h_10 tail =>
      unfold parseClassName at hparsed
      have hdrop := length_dropWhile_le (· != ';') tail
      split at hparsed
      · cases hparsed
      next heq =>
        rw [heq, List.length_cons] at hdrop
        simp only at hparsed
        split at hparsed
        · cases hparsed
        · cases hparsed
          simp only [List.length_cons]
          omega
  all_goals first
    | cases hparsed; simp
    | cases hparsed

/-- A type takes at least one character. -/
theorem parseOne_shortens {whole : String} {text rest : List Char} {type : FieldType}
    (hparsed : parseOne whole text = .ok (type, rest)) : rest.length < text.length := by
  have hdrop := length_dropWhile_le (· == '[') text
  unfold parseOne at hparsed
  simp only at hparsed
  split at hparsed
  · cases hparsed
  · split at hparsed
    next heq =>
      cases hparsed
      exact Nat.lt_of_lt_of_le (parseElement_shortens heq) hdrop
    · cases hparsed

end FieldType

/-- The name of a type as it stands in a program, from the name the constant
pool holds: a descriptor for an array and an internal name for a class.  A
name that looks like an array but is none is treated like a class. -/
def readableName (internal : String) : String :=
  match internal.toList.head? with
  | some '[' =>
      match FieldType.parse internal with
      | .ok type => type.render
      | .error _ => binaryName internal
  | _ => binaryName internal

end JvmCalls

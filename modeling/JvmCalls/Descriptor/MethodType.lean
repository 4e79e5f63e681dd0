import JvmCalls.Descriptor.FieldType

/-!
# Method types

A method descriptor is the list of its parameter types between parentheses
followed by the result type, where `V` stands for no result.
-/

namespace JvmCalls

@[ext]
structure MethodType where
  parameters : List FieldType
  result : Option FieldType
  deriving DecidableEq, Repr

namespace MethodType

def slots (type : MethodType) : Nat :=
  type.parameters.foldr (fun parameter count => parameter.slots + count) 0

def descriptor (type : MethodType) : List Char :=
  '(' :: type.parameters.flatMap FieldType.descriptor ++ ')' ::
    (match type.result with
    | some result => result.descriptor
    | none => ['V'])

/-- Whether a method type has a descriptor that stands for it alone. -/
def IsDescribable (type : MethodType) : Prop :=
  (∀ parameter ∈ type.parameters, parameter.IsDescribable) ∧
    ∀ result, type.result = some result → result.IsDescribable

/-- The method type as it stands in a program: the parameter types between
parentheses, separated by commas, and the result type behind. -/
def render (type : MethodType) : String :=
  let parameters := String.intercalate "," (type.parameters.map FieldType.render)
  let result :=
    match type.result with
    | some result => result.render
    | none => "void"
  "(" ++ parameters ++ ")" ++ result

/-- Reads parameter types up to the closing parenthesis; `parameters` are the
types before them, the last one first. -/
def parseParameters (whole : String) (text : List Char) (parameters : List FieldType) :
    Except Defect (List FieldType × List Char) :=
  match text with
  | [] => .error (.unterminatedParameters whole)
  | ')' :: rest => .ok (parameters.reverse, rest)
  | next :: rest =>
      match _hparsed : FieldType.parseOne whole (next :: rest) with
      | .ok (type, remaining) => parseParameters whole remaining (type :: parameters)
      | .error defect => .error defect
termination_by text.length
decreasing_by exact FieldType.parseOne_shortens _hparsed

def parseResult (whole : String) (text : List Char) :
    Except Defect (Option FieldType × List Char) :=
  match text with
  | 'V' :: rest => .ok (none, rest)
  | _ =>
      match FieldType.parseOne whole text with
      | .ok (type, rest) => .ok (some type, rest)
      | .error defect => .error defect

def parse (whole : String) : Except Defect MethodType := do
  match whole.toList with
  | '(' :: text =>
      let (parameters, text) ← parseParameters whole text []
      match ← parseResult whole text with
      | (result, []) => return { parameters, result }
      | (_, _ :: _) => throw (.trailingMethodData whole)
  | _ => throw (.unopenedParameters whole)

end MethodType

end JvmCalls

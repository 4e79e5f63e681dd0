import JvmCalls.Output.Line
import JvmCalls.Text.Hexadecimal

/-!
# Edge records

An edge can also be written as one JSON object on a line of its own.  Inside a
string, quotes, backslashes and control characters are escaped and everything
else stands as it is.  The object is made of pieces that are written one by
one.  `Json.readObject` reads an object of strings back.
-/

namespace JvmCalls.Json

/-- The escape sequence of a character, if it must not stand as it is. -/
def escape? : Char → Option String
  | '"' => some "\\\""
  | '\\' => some "\\\\"
  | '\x08' => some "\\b"
  | '\x0c' => some "\\f"
  | '\n' => some "\\n"
  | '\r' => some "\\r"
  | '\t' => some "\\t"
  | character =>
      if character.toNat < 0x20 then
        some ("\\u" ++ Hexadecimal.lower 4 character.toNat)
      else
        none

/-- The pieces of the inside of a string: runs of characters that stand as
they are, and escape sequences.  `run` is the run so far, the last character
first; `pieces` are the pieces before it, the last one first. -/
def collectPieces : (text run : List Char) → (pieces : List String) → List String
  | [], run, pieces => if run.isEmpty then pieces else String.ofList run.reverse :: pieces
  | character :: text, run, pieces =>
      match escape? character with
      | none => collectPieces text (character :: run) pieces
      | some escaped =>
          let before := if run.isEmpty then pieces else String.ofList run.reverse :: pieces
          collectPieces text [] (escaped :: before)

def stringPieces (text : String) : List String :=
  "\"" :: (collectPieces text.toList [] []).reverse ++ ["\""]

def memberPieces (key value : String) : List String :=
  stringPieces key ++ ":" :: stringPieces value

/-- The pieces of an object with the given members, without blanks. -/
def objectPieces (members : List (String × String)) : List String :=
  let inner := members.map (fun member => memberPieces member.1 member.2)
  "\x7b" :: [","].intercalate inner ++ ["\x7d"]

def ofLetter? : Char → Option Char
  | '"' => some '"'
  | '\\' => some '\\'
  | '/' => some '/'
  | 'b' => some '\x08'
  | 'f' => some '\x0c'
  | 'n' => some '\n'
  | 'r' => some '\r'
  | 't' => some '\t'
  | _ => none

/-- The character that four digits stand for.  Digits of a surrogate stand for
no character. -/
def ofDigits? (digits : List Char) : Option Char := do
  let number ← Hexadecimal.value? digits
  if number.isValidChar then some (Char.ofNat number) else none

inductive Token
  | opening
  | closing
  | colon
  | comma
  | text (value : String)
  deriving DecidableEq, Repr

/-- The tokens of a text without blanks.  Within a string, `inside` holds its
characters so far, the last one first. -/
def tokens : (inside : Option (List Char)) → List Char → Option (List Token)
  | none, [] => some []
  | none, '\x7b' :: rest => (tokens none rest).map (.opening :: ·)
  | none, '\x7d' :: rest => (tokens none rest).map (.closing :: ·)
  | none, ':' :: rest => (tokens none rest).map (.colon :: ·)
  | none, ',' :: rest => (tokens none rest).map (.comma :: ·)
  | none, '"' :: rest => tokens (some []) rest
  | none, _ :: _ => none
  | some _, [] => none
  | some inside, '"' :: rest =>
      (tokens none rest).map (.text (String.ofList inside.reverse) :: ·)
  | some inside, '\\' :: 'u' :: first :: second :: third :: fourth :: rest => do
      let character ← ofDigits? [first, second, third, fourth]
      tokens (some (character :: inside)) rest
  | some inside, '\\' :: letter :: rest => do
      let character ← ofLetter? letter
      tokens (some (character :: inside)) rest
  | some inside, character :: rest =>
      if (escape? character).isSome then none else tokens (some (character :: inside)) rest

/-- The members in front of the closing brace. -/
def members? : List Token → Option (List (String × String))
  | [.text key, .colon, .text value, .closing] => some [(key, value)]
  | .text key :: .colon :: .text value :: .comma :: rest =>
      (members? rest).map ((key, value) :: ·)
  | _ => none

/-- The members of an object of strings without blanks. -/
def readObject (text : List Char) : Option (List (String × String)) :=
  match tokens none text with
  | some [.opening, .closing] => some []
  | some (.opening :: rest) => members? rest
  | _ => none

end JvmCalls.Json

namespace JvmCalls

def CallEdge.members (edge : CallEdge) (style : SignatureStyle) : List (String × String) :=
  [("caller_type", edge.callerType), ("caller_method", edge.callerMethod),
    ("callee_type", edge.calleeType style), ("callee_method", edge.calleeMethod),
    ("callee_signature", edge.calleeSignature style), ("kind", edge.kind.name)]

end JvmCalls

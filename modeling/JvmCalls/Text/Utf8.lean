import JvmCalls.Bytes.BigEndian
import JvmCalls.Text.Utf16

/-!
# UTF-8

`Utf8.encode` gives the bytes of a text.  `Utf8.decode` reads any byte string:
each longest start of a character that is not completed, and each byte that
cannot start one, becomes one replacement character.  `Utf8.decode?` reads only
what `Utf8.encode` gives.
-/

namespace JvmCalls.Utf8

def encode (text : String) : Bytes :=
  text.toList.flatMap String.utf8EncodeChar

def isContinuation (byte : UInt8) : Bool :=
  0x80 ≤ byte.toNat && byte.toNat < 0xC0

/-- Whether `second` may follow `first` in a character of several bytes.  The
bounds keep out forms that are longer than needed, surrogates, and numbers
beyond the last character. -/
def mayFollow (first second : UInt8) : Bool :=
  isContinuation second &&
    match first.toNat with
    | 0xE0 => 0xA0 ≤ second.toNat
    | 0xED => second.toNat < 0xA0
    | 0xF0 => 0x90 ≤ second.toNat
    | 0xF4 => second.toNat < 0x90
    | _ => true

/-- The count of bytes of a character by its first byte; none for a byte that
cannot start a character. -/
def length? (first : UInt8) : Option Nat :=
  let number := first.toNat
  if number < 0x80 then some 1
  else if 0xC2 ≤ number && number < 0xE0 then some 2
  else if 0xE0 ≤ number && number < 0xF0 then some 3
  else if 0xF0 ≤ number && number < 0xF5 then some 4
  else none

/-- The bytes behind the first one of a character that belong to it, at most
`count`. -/
def continuation (first : UInt8) (count : Nat) (rest : Bytes) : Bytes :=
  match rest.take count with
  | [] => []
  | second :: others =>
      if mayFollow first second then second :: others.takeWhile isContinuation else []

def character (first : UInt8) (others : Bytes) : Char :=
  let lead :=
    match others.length with
    | 0 => first.toNat
    | 1 => first.toNat % 0x20
    | 2 => first.toNat % 0x10
    | _ => first.toNat % 0x08
  Char.ofNat (others.foldl (fun number byte => number * 0x40 + byte.toNat % 0x40) lead)

/-- Prepends the characters of the bytes, the last of them first, to `text`. -/
def collect (bytes : Bytes) (text : List Char) : List Char :=
  match bytes with
  | [] => text
  | first :: rest =>
      match length? first with
      | none => collect rest (Utf16.replacement :: text)
      | some length =>
          let others := continuation first (length - 1) rest
          let complete := others.length + 1 = length
          collect (rest.drop others.length)
            ((if complete then character first others else Utf16.replacement) :: text)
termination_by bytes.length
decreasing_by all_goals simp only [List.length_cons, List.length_drop]; omega

def decode (bytes : Bytes) : String :=
  String.ofList (collect bytes []).reverse

/-- The text whose bytes these are, if there is one. -/
def decode? (bytes : Bytes) : Option String :=
  let text := decode bytes
  if encode text = bytes then some text else none

end JvmCalls.Utf8

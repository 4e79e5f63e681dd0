import JvmCalls.Zip.Crc32
import JvmCalls.Zip.Field
import JvmCalls.Zip.Record

/-!
# Extra fields

A record may carry extra fields, each with its kind and its length in front of
its body.  Some of them replace values of the record, some must have a certain
form, and fields of other kinds are skipped.  A field that is cut off ends the
reading; what was replaced before it stays replaced.
-/

namespace JvmCalls.Zip

inductive ExtraFault
  | cutOff
  | invalid
  deriving DecidableEq, Repr

/-- The record so far and the data of the extra fields to come. -/
structure ExtraState where
  record : Record
  rest : Bytes
  deriving DecidableEq, Repr

/-- A read of extra fields that replaces values of a record. -/
abbrev ExtraDecoder := EStateM ExtraFault ExtraState

namespace ExtraField

def read {Value : Type} (decoder : FieldDecoder Value) : ExtraDecoder Value := fun state =>
  match decoder.run state.rest with
  | some (value, rest) => .ok value { state with rest }
  | none => .error .cutOff state

def skip (count : Nat) : ExtraDecoder Unit := do
  let _skipped ← read (field count)

def require (condition : Bool) : ExtraDecoder Unit :=
  if condition then return () else throw .invalid

def replace (change : Record → Record) : ExtraDecoder Unit :=
  modify (fun state => { state with record := change state.record })

/-- The value of a 32-bit field that refers to the wide field instead. -/
def wideMark : Nat := 0xFFFFFFFF

/-- Replaces a value by a wide one if the record refers to it, or always. -/
def widen (always : Bool) (value : Record → Nat) (change : Nat → Record → Record) :
    ExtraDecoder Unit := do
  if always || value (← get).record = wideMark then
    let wide ← read (number 8)
    replace (change wide)

/-- Both sizes and the position of the local header, as far as they did not fit
the record.  A field with room for all three has them all. -/
def wideValues (length : Nat) : ExtraDecoder Unit := do
  let available := (← get).rest.length
  let always := decide (24 ≤ length)
  widen always Record.size (fun size record => { record with size })
  widen always Record.compressedSize (fun compressedSize record =>
    { record with compressedSize })
  widen always Record.headerOffset (fun headerOffset record => { record with headerOffset })
  let taken := available - (← get).rest.length
  require (taken ≤ length)
  skip (length - taken)

/-- Times counted from the year 1601: a tag and three times. -/
def fileTimes (length : Nat) : ExtraDecoder Unit := do
  require (length = 32)
  skip 4
  let tag ← read (number 2)
  require (tag = 1)
  let size ← read (number 2)
  require (size = 24)
  skip 24

/-- Times counted from the year 1970.  Flags tell which of three there are; a
field with room for one has the first one, whatever the flags are. -/
def unixTimes (length : Nat) : ExtraDecoder Unit := do
  let flags ← read (number 1)
  let count := flags % 2 + flags / 2 % 2 + flags / 4 % 2
  require (flags < 8 && (length = 5 || length = 1 + 4 * count))
  skip (length - 1)

/-- An encryption by AES: its version, its vendor and its strength, and the
method of the content behind it. -/
def encryption (length : Nat) : ExtraDecoder Unit := do
  require (length = 7)
  let version ← read (number 2)
  let vendor ← read (number 2)
  let strength ← read (number 1)
  let method ← read (number 2)
  require (vendor = 0x4541 && 1 ≤ version && version ≤ 2 && 1 ≤ strength && strength ≤ 3)
  replace (fun record => { record with method, usesAes := true })

/-- The bytes that take the place of `replaced`.  The field has the checksum of
the bytes it was made for, so that it is known when these have changed. -/
def substitute (length : Nat) (replaced : Bytes) : ExtraDecoder Bytes := do
  skip 1
  let checksum ← read (number 4)
  require (5 ≤ length)
  let content ← read (field (length - 5))
  require (Crc32.checksum replaced = UInt32.ofNat checksum)
  return content

def text (bytes : Bytes) : ExtraDecoder String :=
  match Utf8.decode? bytes with
  | some text => return text
  | none => throw .invalid

def unicodeComment (length : Nat) : ExtraDecoder Unit := do
  let content ← substitute length (Utf8.encode (← get).record.comment)
  let comment ← text content
  replace (fun record => { record with comment })

def unicodeName (length : Nat) : ExtraDecoder Unit := do
  let storedName ← substitute length (← get).record.storedName
  let name ← text storedName
  replace (fun record => { record with name, storedName })

def body (kind length : Nat) : ExtraDecoder Unit :=
  match kind with
  | 0x0001 => wideValues length
  | 0x000A => fileTimes length
  | 0x5455 => unixTimes length
  | 0x6375 => unicodeComment length
  | 0x7075 => unicodeName length
  | 0x9901 => encryption length
  | _ => skip length

/-- Reads fields to the end of their data.  A field has at least four bytes, so
`fuel` only needs to be a bound on the bytes that are left. -/
def fields : (fuel : Nat) → ExtraDecoder Unit
  | 0 => return ()
  | fuel + 1 => do
      if !(← get).rest.isEmpty then
        let kind ← read (number 2)
        let length ← read (number 2)
        body kind length
        fields fuel

end ExtraField

/-- The record with the values of its extra fields; none if one of them is
invalid. -/
def Record.withExtraFields (record : Record) (extra : Bytes) : Option Record :=
  match (ExtraField.fields extra.length).run { record, rest := extra } with
  | .ok () state => some state.record
  | .error .cutOff state => some state.record
  | .error .invalid _ => none

end JvmCalls.Zip

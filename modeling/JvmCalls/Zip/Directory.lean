import JvmCalls.Zip.ExtraField

/-!
# Directories

The records of an archive form its directory, and an end record behind it tells
where the directory is.  Values that need more room are in a wide end record,
and a locator in front of the end record tells where that one is.  Recorded
positions count from the start of the archive, which may have other data in
front of it.
-/

namespace JvmCalls.Zip

def recordSignature : Bytes := [0x50, 0x4B, 0x01, 0x02]

def endSignature : Bytes := [0x50, 0x4B, 0x05, 0x06]

def wideEndSignature : Bytes := [0x50, 0x4B, 0x06, 0x06]

def locatorSignature : Bytes := [0x50, 0x4B, 0x06, 0x07]

def minRecordLength : Nat := 46

/-- Reads a record of an archive with `shift` bytes in front of it. -/
def Record.decode (shift : Nat) : FieldDecoder Record := do
  expect recordSignature
  let _versions ← field 4
  let flags ← number 2
  let method ← number 2
  let _modified ← field 4
  let checksum ← number 4
  let compressedSize ← number 4
  let size ← number 4
  let nameLength ← number 2
  let extraLength ← number 2
  let commentLength ← number 2
  let _attributes ← field 8
  let headerOffset ← number 4
  let storedName ← field nameLength
  let extra ← field extraLength
  let comment ← field commentLength
  let isUtf8 := flags.testBit 11
  let record ← (Record.withExtraFields {
    name := decodeText isUtf8 storedName
    storedName
    comment := decodeText isUtf8 comment
    isEncrypted := flags.testBit 0
    usesAes := false
    method
    checksum := UInt32.ofNat checksum
    compressedSize
    size
    headerOffset } extra : Option Record)
  if record.method = aesMethod && !record.usesAes then
    failure
  else
    return { record with headerOffset := record.headerOffset + shift }

structure EndRecord where
  disk : Nat
  directoryDisk : Nat
  count : Nat
  totalCount : Nat
  directoryOffset : Nat
  deriving DecidableEq, Repr

/-- Reads an end record; its comment must lie inside the data. -/
def EndRecord.decode : FieldDecoder EndRecord := do
  expect endSignature
  let disk ← number 2
  let directoryDisk ← number 2
  let count ← number 2
  let totalCount ← number 2
  let _directorySize ← field 4
  let directoryOffset ← number 4
  let commentLength ← number 2
  let _comment ← field commentLength
  return { disk, directoryDisk, count, totalCount, directoryOffset }

/-- Whether a value is at its bound and may be in a wide end record. -/
def EndRecord.isSaturated (final : EndRecord) : Bool :=
  final.totalCount = 0xFFFF || final.directoryOffset = 0xFFFFFFFF

/-- The place of the wide end record. -/
structure Locator where
  directoryDisk : Nat
  endOffset : Nat
  diskCount : Nat
  deriving DecidableEq, Repr

def Locator.decode : FieldDecoder Locator := do
  expect locatorSignature
  let directoryDisk ← number 4
  let endOffset ← number 8
  let diskCount ← number 4
  return { directoryDisk, endOffset, diskCount }

def Locator.size : Nat := 20

/-- The end record of an archive with values that need more room. -/
structure WideEndRecord extends EndRecord where
  length : Nat
  writtenVersion : Nat
  neededVersion : Nat
  deriving DecidableEq, Repr

/-- Reads a wide end record up to the data that may follow its values. -/
def WideEndRecord.decode : FieldDecoder WideEndRecord := do
  expect wideEndSignature
  let length ← number 8
  let writtenVersion ← number 2
  let neededVersion ← number 2
  let disk ← number 4
  let directoryDisk ← number 4
  let count ← number 8
  let totalCount ← number 8
  let _directorySize ← field 8
  let directoryOffset ← number 8
  return { disk, directoryDisk, count, totalCount, directoryOffset, length, writtenVersion,
           neededVersion }

def WideEndRecord.minLength : Nat := 44

/-- Where the records of an archive are. -/
structure Directory where
  shift : Nat
  start : Nat
  count : Nat
  deriving DecidableEq, Repr

namespace Directory

/-- The positions at which `signature` stands in the data, the last one first;
`index` is the position of the data, `found` are the positions before. -/
def signatureOffsets (signature : Bytes) (index : Nat) : (data : Bytes) → (found : List Nat) →
    List Nat
  | [], found => found
  | byte :: rest, found =>
      signatureOffsets signature (index + 1) rest
        (if signature.isPrefixOf (byte :: rest) then index :: found else found)

/-- How far behind its recorded position `start` a structure that ends before
`bound` may be found: all distances at which its mark stands, the least one
first. -/
def shifts (signature data : Bytes) (start bound : Nat) : List Nat :=
  (signatureOffsets signature 0 ((data.take bound).drop start) []).reverse

/-- The directory of the end record at `offset`.  It starts with the first
record at its recorded position or behind it; without records it would end at
the end record. -/
def ofEndRecord? (data : Bytes) (offset : Nat) (final : EndRecord) : Option Directory := do
  let shift ←
    if final.totalCount = 0 then
      some (offset - final.directoryOffset)
    else
      (shifts recordSignature data final.directoryOffset offset).head?
  if final.disk = final.directoryDisk then
    return { shift, start := final.directoryOffset + shift, count := final.count }
  else
    none

/-- The wide end record at `offset`, if it ends right before the locator at
`bound` and leaves room for its records in front of it. -/
def wideEndRecordAt? (data : Bytes) (bound : Nat) (locator : Locator) (offset : Nat) :
    Option WideEndRecord := do
  let (final, _) ← WideEndRecord.decode.run (data.drop offset)
  if WideEndRecord.minLength ≤ final.length && final.length + 12 = bound - offset &&
      final.directoryDisk = locator.directoryDisk &&
      final.directoryOffset + final.totalCount * minRecordLength ≤ offset then
    return final
  else
    none

/-- The directory of the wide end record that the locator at `bound` leads to. -/
def ofLocator? (data : Bytes) (bound : Nat) (locator : Locator) : Option Directory := do
  if 1 < locator.diskCount then
    none
  else
    let (shift, final) ← (shifts wideEndSignature data locator.endOffset bound).findSome?
      (fun shift =>
        (wideEndRecordAt? data bound locator (locator.endOffset + shift)).map (shift, ·))
    if final.count ≤ final.totalCount && final.neededVersion ≤ final.writtenVersion &&
        final.disk = final.directoryDisk then
      return { shift, start := final.directoryOffset + shift, count := final.totalCount }
    else
      none

def locator? (data : Bytes) (offset : Nat) (final : EndRecord) : Option Locator :=
  if final.isSaturated && Locator.size ≤ offset then
    (Locator.decode.run (data.drop (offset - Locator.size))).map Prod.fst
  else
    none

def at? (data : Bytes) (offset : Nat) : Option Directory := do
  let (final, _) ← EndRecord.decode.run (data.drop offset)
  match locator? data offset final with
  | some locator => ofLocator? data (offset - Locator.size) locator
  | none => ofEndRecord? data offset final

/-- Reads `count` more records.  Local headers must lie before the directory. -/
def readRecords (directory : Directory) : (count : Nat) → (records : Array Record) →
    FieldDecoder (Array Record)
  | 0, records => return records
  | count + 1, records => do
      let record ← Record.decode directory.shift
      if record.headerOffset < directory.start then
        readRecords directory count (records.push record)
      else
        failure

def records? (directory : Directory) (data : Bytes) : Option (Array Record) :=
  ((readRecords directory directory.count #[]).run (data.drop directory.start)).map Prod.fst

/-- The records of the archive in the data: the last end record that leads to a
directory counts. -/
def recordsOf? (data : Bytes) : Option (Array Record) :=
  (signatureOffsets endSignature 0 data []).findSome? (fun offset => do
    (← at? data offset).records? data)

end Directory

end JvmCalls.Zip

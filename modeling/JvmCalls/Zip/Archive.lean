import JvmCalls.Bytes.Source
import JvmCalls.Zip.Directory
import JvmCalls.Zip.Inflate

/-!
# Archives

An archive is its source and the records of its directory, one for each name.
`Archive.ofSource` reads the directory, and `Archive.entry` reads the content of
one entry if it is a class.
-/

namespace JvmCalls

inductive ZipFault
  | noDirectory
  | noEntry (index : Nat)
  | encrypted (name : String)
  | unsupportedMethod (name : String) (method : Nat)
  | noLocalHeader (name : String)
  deriving DecidableEq, Repr

def ZipFault.message : ZipFault → String
  | noDirectory => "no central directory"
  | noEntry index => s!"no entry {index}"
  | encrypted name => s!"entry {name} is encrypted"
  | unsupportedMethod name method => s!"entry {name} has unsupported method {method}"
  | noLocalHeader name => s!"entry {name} has no local header"

inductive ArchiveFault
  | missing (path : String)
  | source (fault : SourceFault)
  | archive (fault : ZipFault)
  | corrupt (name : String)
  | excessiveSize (name : String) (size : Nat)
  deriving DecidableEq, Repr

/-- Whether the whole run is given up, and not only the archive. -/
def ArchiveFault.endsRun : ArchiveFault → Bool
  | excessiveSize .. => true
  | _ => false

def ArchiveFault.message : ArchiveFault → String
  | missing path => s!"Input file {path} does not exist"
  | source .unreadable => "Failed to read file"
  | source .empty => "Provided input was empty"
  | archive fault => s!"Failed to read archive: {fault.message}"
  | corrupt name => s!"Failed to read file: entry {name} is corrupt"
  | excessiveSize name size => s!"entry {name} records a size of {size} bytes"

/-- The content of an entry as far as it matters. -/
inductive Entry
  | skipped (name : String)
  | classFile (name : String) (data : Bytes)
  deriving DecidableEq, Repr

abbrev EntryRead := Except ArchiveFault Entry

structure Archive where
  source : Source
  records : Array Zip.Record
  deriving DecidableEq, Repr

namespace Archive

open Zip

/-- Adds a record.  A record of a name that is there already takes its place. -/
def insertRecord (records : Array Record) (record : Record) : Array Record :=
  match records.findIdx? (fun earlier => earlier.name == record.name) with
  | some index => records.setIfInBounds index record
  | none => records.push record

def ofSource (source : Source) : Except ZipFault Archive :=
  match Directory.recordsOf? source.data with
  | some records => .ok { source, records := records.foldl insertRecord #[] }
  | none => .error .noDirectory

def load (source : Except SourceFault Source) : Except ArchiveFault Archive :=
  match source with
  | .error fault => .error (.source fault)
  | .ok source =>
      match ofSource source with
      | .error fault => .error (.archive fault)
      | .ok archive => .ok archive

def ofBytes (data : Bytes) : Except ArchiveFault Archive :=
  load (Source.ofBytes data)

def ofPath (path : String) (content : PathContent) : Except ArchiveFault Archive :=
  if content = .missing then
    .error (.missing path)
  else
    load (Source.ofPath path content)

def size (archive : Archive) : Nat := archive.records.size

/-- The names of all entries in the order of the directory. -/
def names (archive : Archive) : List String :=
  archive.records.toList.map Record.name

def classSuffix : String := ".class"

/-- Whether an entry of the name is a class; a name that ends with a slash or
a backslash is a directory. -/
def isClassName (name : String) : Bool :=
  let text := name.toList
  !(text.getLast? == some '/' || text.getLast? == some '\\') &&
    classSuffix.toList.isSuffixOf text

def localSignature : Bytes := [0x50, 0x4B, 0x03, 0x04]

/-- Reads the local header at the start of the data and returns its length. -/
def localHeaderLength : FieldDecoder Nat := do
  expect localSignature
  let _fixed ← field 22
  let nameLength ← number 2
  let extraLength ← number 2
  return 30 + nameLength + extraLength

/-- The compressed content of an entry, as far as the data goes. -/
def compressed (archive : Archive) (record : Record) : Except ZipFault Bytes :=
  if record.isEncrypted || record.usesAes then
    .error (.encrypted record.name)
  else
    let fromHeader := archive.source.data.drop record.headerOffset
    match localHeaderLength.run fromHeader with
    | none => .error (.noLocalHeader record.name)
    | some (length, _) =>
        if record.method = Record.stored || record.method = Record.deflated then
          .ok ((fromHeader.drop length).take record.compressedSize)
        else
          .error (.unsupportedMethod record.name record.method)

def content (record : Record) (compressed : Bytes) : Option Bytes := do
  let content ←
    if record.method = Record.deflated then Inflate.inflate compressed else some compressed
  if Crc32.checksum content = record.checksum then return content else none

/-- The greatest size of a block of memory. -/
def maxReservation : Nat := 0x7FFFFFFFFFFFFFFF

/-- The memory asked for before an entry is read: as much as the directory
records, whatever the content is. -/
def reservation (record : Record) : Nat := record.size

/-- Reads an entry.  Only classes are decompressed. -/
def entry (archive : Archive) (index : Nat) : EntryRead :=
  match archive.records[index]? with
  | none => .error (.archive (.noEntry index))
  | some record =>
      match archive.compressed record with
      | .error fault => .error (.archive fault)
      | .ok compressed =>
          if !isClassName record.name then
            .ok (.skipped record.name)
          else if maxReservation < reservation record then
            .error (.excessiveSize record.name record.size)
          else
            match content record compressed with
            | some data => .ok (.classFile record.name data)
            | none => .error (.corrupt record.name)

def entries (archive : Archive) : List EntryRead :=
  (List.range archive.size).map archive.entry

end Archive

end JvmCalls

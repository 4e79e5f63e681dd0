import JvmCalls.Bytes.BigEndian

/-!
# Sources

A source is a byte string that is not empty, held in memory or taken from a
path.
-/

namespace JvmCalls

inductive PathContent
  | missing
  /-- Something that cannot be read as a file, such as a directory. -/
  | unreadable
  | file (data : Bytes)
  deriving DecidableEq, Repr

inductive SourceFault
  | unreadable
  | empty
  deriving DecidableEq, Repr

/-- The bytes at `offset`, `length` of them, if all of them exist. -/
def slice? (data : Bytes) (offset length : Nat) : Option Bytes :=
  if offset + length ≤ data.length then some ((data.drop offset).take length) else none

/-- A byte string and where it comes from. -/
structure Source where
  data : Bytes
  path : Option String
  deriving DecidableEq, Repr

namespace Source

def ofBytes (data : Bytes) : Except SourceFault Source :=
  if data.isEmpty then .error .empty else .ok { data, path := none }

def ofPath (path : String) : PathContent → Except SourceFault Source
  | .missing | .unreadable => .error .unreadable
  | .file data => if data.isEmpty then .error .empty else .ok { data, path := some path }

def slice? (source : Source) (offset length : Nat) : Option Bytes :=
  JvmCalls.slice? source.data offset length

end Source

end JvmCalls

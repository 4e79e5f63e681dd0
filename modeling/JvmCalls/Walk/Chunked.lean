import JvmCalls.Walk.Basic

/-!
# Walking in chunks

Classes can be decoded side by side.  A chunked walk reads entries until it
holds 64 classes, decodes all of them, and hands on the results in order
before it reads further.  An entry that cannot be read ends its chunk, and the
classes before it are handed on first.
-/

namespace JvmCalls

/-- Entries that were read together. -/
structure Chunk where
  classes : List (String × Bytes)
  skipped : Nat
  fault : Option ArchiveFault
  rest : List EntryRead
  deriving Repr

namespace Chunk

def capacity : Nat := 64

/-- Reads entries until `room` more classes are held, an entry cannot be read,
or no entry is left. -/
def read : (room : Nat) → (reads : List EntryRead) → Chunk
  | 0, reads => { classes := [], skipped := 0, fault := none, rest := reads }
  | _ + 1, [] => { classes := [], skipped := 0, fault := none, rest := [] }
  | _ + 1, .error fault :: rest => { classes := [], skipped := 0, fault := some fault, rest }
  | room + 1, .ok (.skipped _) :: rest =>
      let chunk := read (room + 1) rest
      { chunk with skipped := chunk.skipped + 1 }
  | room + 1, .ok (.classFile name data) :: rest =>
      let chunk := read room rest
      { chunk with classes := (name, data) :: chunk.classes }

theorem length_rest_read_le (room : Nat) (reads : List EntryRead) :
    (read room reads).rest.length ≤ reads.length := by
  fun_induction read room reads with
  | case1 | case2 | case3 => simp
  | case4 room name rest chunk ih => exact Nat.le_succ_of_le ih
  | case5 room name data rest chunk ih => exact Nat.le_succ_of_le ih

/-- A chunk takes at least one entry. -/
theorem length_rest_read_lt (room : Nat) (first : EntryRead) (rest : List EntryRead) :
    (read (room + 1) (first :: rest)).rest.length < (first :: rest).length := by
  match first with
  | .error fault => simp [read]
  | .ok (.skipped name) =>
      have hle := length_rest_read_le (room + 1) rest
      simp only [read, List.length_cons]
      omega
  | .ok (.classFile name data) =>
      have hle := length_rest_read_le room rest
      simp only [read, List.length_cons]
      omega

/-- The entries that a chunked walk deals with.  If the run is given up at an
entry, the classes that were read into the same chunk are lost. -/
def surviving (reads : List EntryRead) : List EntryRead :=
  match reads with
  | [] => []
  | first :: rest =>
      let chunk := read capacity (first :: rest)
      match chunk.fault with
      | some fault => if fault.endsRun then [.error fault] else first :: rest
      | none =>
          (first :: rest).take ((first :: rest).length - chunk.rest.length) ++
            surviving chunk.rest
termination_by reads.length
decreasing_by exact length_rest_read_lt 63 first rest

end Chunk

namespace Walker

variable {State SinkFault : Type}

def deliverNext (walker : Walker) (sink : Sink State SinkFault) (stats : WalkStats)
    (decoded : String × Except Fault (List CallEdge)) : Walk State SinkFault WalkStats :=
  walker.deliver sink decoded.1 decoded.2 stats.countClass

/-- Decodes the classes of a chunk and hands them on. -/
def deliverChunk (walker : Walker) (sink : Sink State SinkFault) (chunk : Chunk)
    (stats : WalkStats) : Walk State SinkFault WalkStats := do
  let decoded := chunk.classes.map (fun entry => (entry.1, callsOfBytes walker.filter entry.2))
  let counted := { stats with skippedEntries := stats.skippedEntries + chunk.skipped }
  let final ← decoded.foldlM (walker.deliverNext sink) counted
  match chunk.fault with
  | some fault => throw (.read fault)
  | none => return final

/-- Walks the entries chunk by chunk; `stats` are the counts so far. -/
def chunkedFrom (walker : Walker) (sink : Sink State SinkFault) (reads : List EntryRead)
    (stats : WalkStats) : Walk State SinkFault WalkStats := do
  match reads with
  | [] => return stats
  | first :: rest =>
      let chunk := Chunk.read Chunk.capacity (first :: rest)
      walker.chunkedFrom sink chunk.rest (← walker.deliverChunk sink chunk stats)
termination_by reads.length
decreasing_by exact Chunk.length_rest_read_lt 63 first rest

def chunked (walker : Walker) (sink : Sink State SinkFault) (reads : List EntryRead) :
    Walk State SinkFault WalkStats :=
  walker.chunkedFrom sink reads WalkStats.zero

/-- Walks the entries in one of the two ways. -/
def walk (walker : Walker) (parallel : Bool) (sink : Sink State SinkFault)
    (reads : List EntryRead) : Walk State SinkFault WalkStats :=
  if parallel then walker.chunked sink reads else walker.sequential sink reads

def walkArchive (walker : Walker) (parallel : Bool) (sink : Sink State SinkFault)
    (archive : Archive) : Walk State SinkFault WalkStats :=
  walker.walk parallel sink
    (if parallel then Chunk.surviving archive.entries else archive.entries)

end Walker

end JvmCalls

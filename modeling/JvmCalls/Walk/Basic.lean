import JvmCalls.Call.Extraction
import JvmCalls.Zip.Archive

/-!
# Walking an archive

A walk takes the outcomes of reading the entries of an archive in order and
hands the calls of every class to a sink.  It ends early with the first entry
that cannot be read, with a class that cannot be decoded unless such classes
are skipped, or with a fault of the sink.
-/

namespace JvmCalls

inductive DecodePolicy
  | abort
  | skip
  deriving DecidableEq, Repr

@[ext]
structure WalkStats where
  /-- Entries that are classes, also those that cannot be decoded. -/
  classEntries : Nat
  skippedEntries : Nat
  failedEntries : Nat
  edges : Nat
  deriving DecidableEq, Repr

namespace WalkStats

def zero : WalkStats := ⟨0, 0, 0, 0⟩

def add (left right : WalkStats) : WalkStats where
  classEntries := left.classEntries + right.classEntries
  skippedEntries := left.skippedEntries + right.skippedEntries
  failedEntries := left.failedEntries + right.failedEntries
  edges := left.edges + right.edges

def countSkipped (stats : WalkStats) : WalkStats :=
  { stats with skippedEntries := stats.skippedEntries + 1 }

def countClass (stats : WalkStats) : WalkStats :=
  { stats with classEntries := stats.classEntries + 1 }

def countFailed (stats : WalkStats) : WalkStats :=
  { stats with failedEntries := stats.failedEntries + 1 }

def countEdges (stats : WalkStats) (count : Nat) : WalkStats :=
  { stats with edges := stats.edges + count }

end WalkStats

inductive WalkFault (SinkFault : Type)
  | read (fault : ArchiveFault)
  | undecodable (entry : String) (fault : Fault)
  | sink (fault : SinkFault)
  deriving DecidableEq, Repr

/-- A receiver of the calls of each class: a state machine that may fail. -/
abbrev Sink (State SinkFault : Type) :=
  (entry : String) → (edges : List CallEdge) → EStateM SinkFault State Unit

/-- A walk: it changes the state of the sink, also when it ends early. -/
abbrev Walk (State SinkFault : Type) := EStateM (WalkFault SinkFault) State

structure Walker where
  filter : TypeFilter
  policy : DecodePolicy
  deriving DecidableEq, Repr

namespace Walker

variable {State SinkFault : Type}

def accept (sink : Sink State SinkFault) (entry : String) (edges : List CallEdge) :
    Walk State SinkFault Unit := fun state =>
  match sink entry edges state with
  | .ok () next => .ok () next
  | .error fault next => .error (.sink fault) next

/-- Deals with the outcome of decoding a class and returns the new counts. -/
def deliver (walker : Walker) (sink : Sink State SinkFault) (entry : String)
    (decoded : Except Fault (List CallEdge)) (stats : WalkStats) :
    Walk State SinkFault WalkStats :=
  match decoded with
  | .ok edges => do
      accept sink entry edges
      return stats.countEdges edges.length
  | .error fault =>
      match walker.policy with
      | .abort => throw (.undecodable entry fault)
      | .skip => return stats.countFailed

def visit (walker : Walker) (sink : Sink State SinkFault) (stats : WalkStats) :
    EntryRead → Walk State SinkFault WalkStats
  | .error fault => throw (.read fault)
  | .ok (.skipped _) => return stats.countSkipped
  | .ok (.classFile name data) =>
      walker.deliver sink name (callsOfBytes walker.filter data) stats.countClass

def sequential (walker : Walker) (sink : Sink State SinkFault) (reads : List EntryRead) :
    Walk State SinkFault WalkStats :=
  reads.foldlM (walker.visit sink) WalkStats.zero

end Walker

end JvmCalls

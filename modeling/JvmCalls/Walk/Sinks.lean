import JvmCalls.Output.Device
import JvmCalls.Output.Json
import JvmCalls.Walk.Basic

/-!
# Sinks that write

The calls of each class are written edge by edge, as lines or as records.
Nothing is written for a class without calls.
-/

namespace JvmCalls

variable {State : Type} [Output State]

def writePieces (pieces : List String) : EStateM OutputFault State Unit :=
  pieces.forM (fun piece => Output.write (Utf8.encode piece))

/-- Writes an edge as a line: its text and the line break. -/
def CallEdge.writeLine (edge : CallEdge) (style : SignatureStyle) :
    EStateM OutputFault State Unit :=
  writePieces [edge.line style, Line.terminator.toString]

def CallEdge.writeRecord (edge : CallEdge) (style : SignatureStyle) :
    EStateM OutputFault State Unit :=
  writePieces (Json.objectPieces (edge.members style) ++ [Line.terminator.toString])

def lineSink (style : SignatureStyle) : Sink State OutputFault := fun _ edges =>
  edges.forM (fun edge => edge.writeLine style)

def recordSink (style : SignatureStyle) : Sink State OutputFault := fun _ edges =>
  edges.forM (fun edge => edge.writeRecord style)

end JvmCalls

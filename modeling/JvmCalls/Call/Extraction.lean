import JvmCalls.Call.Edge
import JvmCalls.Call.Filter

/-!
# Extraction of calls

The calls of a class are listed method by method and, within a method, in the
order of the instructions.  Calls to types the filter excludes are left out;
nothing is merged or reordered.
-/

namespace JvmCalls

namespace ClassFile

/-- The call that an instruction of a method makes, unless it makes none or
the filter excludes the called type. -/
def callAt (decoded : ClassFile) (filter : TypeFilter) (method : Method)
    (instruction : Instruction) : Except Defect (Option CallEdge) := do
  match ← CallSite.resolve decoded.pool instruction with
  | none => return none
  | some site =>
      if filter.excludes (readableName site.owner) then
        return none
      else
        return some (CallEdge.ofSite decoded.name method.name site)

def callsOf (decoded : ClassFile) (filter : TypeFilter) (method : Method) :
    Except Defect (List CallEdge) := do
  return (← method.instructions.mapM (decoded.callAt filter method)).filterMap id

def calls (decoded : ClassFile) (filter : TypeFilter) : Except Defect (List CallEdge) := do
  return (← decoded.methods.mapM (decoded.callsOf filter)).flatten

end ClassFile

/-- The calls of the class of a whole byte string. -/
def callsOfBytes (filter : TypeFilter) (data : Bytes) : Except Fault (List CallEdge) := do
  let decoded ← ClassFile.parse data
  match decoded.calls filter with
  | .ok edges => return edges
  | .error defect => throw (.malformed defect)

end JvmCalls

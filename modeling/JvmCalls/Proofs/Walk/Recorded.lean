import JvmCalls.Walk.Chunked

/-!
# Recorded walks

A recorded sink notes every call it receives, in order and also the one that
fails, and otherwise does what the given sink does.  The walks depend on the
sink through its outcomes alone, so a walk with the recorded sink is the walk
with the given one together with the calls that were made.
-/

namespace JvmCalls

variable {State SinkFault Value Result : Type}

/-- A call of a sink: the name of an entry and the edges of its class. -/
abbrev SinkCall := String × List CallEdge

namespace Sink

/-- The sink that notes each call behind those before it. -/
def recorded (sink : Sink State SinkFault) : Sink (State × List SinkCall) SinkFault :=
  fun entry edges before =>
    match sink entry edges before.1 with
    | .ok () next => .ok () (next, before.2 ++ [(entry, edges)])
    | .error fault next => .error fault (next, before.2 ++ [(entry, edges)])

end Sink

def forgetCalls :
    EStateM.Result (WalkFault SinkFault) (State × List SinkCall) Value →
      EStateM.Result (WalkFault SinkFault) State Value
  | .ok value final => .ok value final.1
  | .error fault final => .error fault final.1

/-- Two walks are the same but for the calls that the first one notes. -/
def Records (noted : Walk (State × List SinkCall) SinkFault Value)
    (plain : Walk State SinkFault Value) : Prop :=
  ∀ before, forgetCalls (noted before) = plain before.1

theorem records_pure (value : Value) :
    Records (pure value : Walk (State × List SinkCall) SinkFault Value) (pure value) := by
  intro before
  rfl

theorem records_throw (fault : WalkFault SinkFault) :
    Records (throw fault : Walk (State × List SinkCall) SinkFault Value) (throw fault) := by
  intro before
  rfl

theorem records_bind {noted : Walk (State × List SinkCall) SinkFault Value}
    {plain : Walk State SinkFault Value}
    {notedNext : Value → Walk (State × List SinkCall) SinkFault Result}
    {plainNext : Value → Walk State SinkFault Result}
    (hfirst : Records noted plain)
    (hnext : ∀ value, Records (notedNext value) (plainNext value)) :
    Records (noted >>= notedNext) (plain >>= plainNext) := by
  intro before
  have hbefore := hfirst before
  simp only [bind, EStateM.bind]
  rw [← hbefore]
  cases noted before with
  | ok value middle => exact hnext value middle
  | error fault final => rfl

namespace Walker

theorem records_accept (sink : Sink State SinkFault) (entry : String)
    (edges : List CallEdge) :
    Records (accept sink.recorded entry edges) (accept sink entry edges) := by
  intro before
  simp only [accept, Sink.recorded]
  cases sink entry edges before.1 <;> rfl

theorem records_deliver (walker : Walker) (sink : Sink State SinkFault) (entry : String)
    (decoded : Except Fault (List CallEdge)) (stats : WalkStats) :
    Records (walker.deliver sink.recorded entry decoded stats)
      (walker.deliver sink entry decoded stats) := by
  cases decoded with
  | ok edges => exact records_bind (records_accept sink entry edges) (fun _ => records_pure _)
  | error fault =>
      simp only [deliver]
      cases walker.policy with
      | abort => exact records_throw _
      | skip => exact records_pure _

theorem records_visit (walker : Walker) (sink : Sink State SinkFault) (stats : WalkStats)
    (read : EntryRead) :
    Records (walker.visit sink.recorded stats read) (walker.visit sink stats read) := by
  match read with
  | .error fault => exact records_throw _
  | .ok (.skipped name) => exact records_pure _
  | .ok (.classFile name data) => exact records_deliver walker sink name _ _

/-- The sequential walk from given counts, with and without notes. -/
theorem records_visits (walker : Walker) (sink : Sink State SinkFault) (stats : WalkStats)
    (reads : List EntryRead) :
    Records (reads.foldlM (walker.visit sink.recorded) stats)
      (reads.foldlM (walker.visit sink) stats) := by
  induction reads generalizing stats with
  | nil => exact records_pure stats
  | cons read reads ih =>
      rw [List.foldlM_cons, List.foldlM_cons]
      exact records_bind (records_visit walker sink stats read) ih

end Walker

end JvmCalls

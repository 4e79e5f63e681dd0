import JvmCalls.Proofs.Walk.Contract

/-!
# The course of a walk

The entries of an archive alone tell which calls a walk makes and how it ends,
as long as its sink refuses nothing.  Any walk is this course with its calls fed
to the sink: it ends as the course does, or with the first refusal.  So walks
over the same entries with different sinks differ only in what the sinks do.
-/

namespace JvmCalls

namespace Sink

variable {State SinkFault : Type} {sink : Sink State SinkFault}

theorem feed_cons (call : SinkCall) (calls : List SinkCall) :
    sink.feed (call :: calls) = sink call.1 call.2 >>= fun _ => sink.feed calls := rfl

/-- A recorded sink that takes all calls has noted all of them. -/
theorem feed_recorded_of_ok {calls noted : List SinkCall} {state final : State}
    (hfed : sink.feed calls state = .ok () final) :
    sink.recorded.feed calls (state, noted) = .ok () (final, noted ++ calls) := by
  induction calls generalizing state noted with
  | nil =>
      cases hfed
      rw [List.append_nil]
      rfl
  | cons call calls ih =>
      rw [feed_cons, Outcome.run_bind_eq_ok_iff] at hfed
      obtain ⟨value, middle, hcall, hrest⟩ := hfed
      have hnoted : sink.recorded call.1 call.2 (state, noted) =
          .ok () (middle, noted ++ [call]) := by
        simp only [recorded, hcall]
      rw [feed_cons, Outcome.run_bind_of_ok hnoted, ih hrest, List.append_assoc]
      rfl

/-- A recorded sink that refuses a call has noted the calls up to that one. -/
theorem feed_recorded_of_error {calls : List SinkCall} {state final : State}
    {fault : SinkFault} (noted : List SinkCall)
    (hfed : sink.feed calls state = .error fault final) :
    ∃ before call after middle, calls = before ++ call :: after ∧
      sink.feed before state = .ok () middle ∧
      sink call.1 call.2 middle = .error fault final ∧
      sink.recorded.feed calls (state, noted) =
        .error fault (final, noted ++ (before ++ [call])) := by
  induction calls generalizing state noted with
  | nil => cases hfed
  | cons call calls ih =>
      cases hcall : sink call.1 call.2 state with
      | error flaw stopped =>
          rw [feed_cons, Outcome.run_bind_of_error hcall] at hfed
          cases hfed
          refine ⟨[], call, calls, state, rfl, rfl, hcall, ?_⟩
          have hnoted : sink.recorded call.1 call.2 (state, noted) =
              .error fault (final, noted ++ [call]) := by
            simp only [recorded, hcall]
          rw [feed_cons, Outcome.run_bind_of_error hnoted]
          rfl
      | ok value next =>
          rw [feed_cons, Outcome.run_bind_of_ok hcall] at hfed
          obtain ⟨before, last, after, middle, rfl, hbefore, hlast, hrest⟩ :=
            ih (noted ++ [call]) hfed
          have hnoted : sink.recorded call.1 call.2 (state, noted) =
              .ok () (next, noted ++ [call]) := by
            simp only [recorded, hcall]
          refine ⟨call :: before, last, after, middle, rfl, ?_, hlast, ?_⟩
          · rw [feed_cons, Outcome.run_bind_of_ok hcall, hbefore]
          · rw [feed_cons, Outcome.run_bind_of_ok hnoted, hrest, List.append_assoc]
            rfl

end Sink

/-- The fault of a walk whose sink has none, as a fault of a walk with another
sink. -/
def WalkFault.lift {SinkFault : Type} : WalkFault Empty → WalkFault SinkFault
  | .read fault => .read fault
  | .undecodable entry fault => .undecodable entry fault

namespace Walker

variable {State SinkFault : Type}

/-- The calls that a walk makes, with `stats` as the counts so far, and how it
ends, both for a sink that refuses nothing. -/
def course (walker : Walker) : (reads : List EntryRead) → (stats : WalkStats) →
    List SinkCall × Except (WalkFault Empty) WalkStats
  | [], stats => ([], .ok stats)
  | .error fault :: _, _ => ([], .error (.read fault))
  | .ok (.skipped _) :: reads, stats => walker.course reads stats.countSkipped
  | .ok (.classFile name data) :: reads, stats =>
      match callsOfBytes walker.filter data with
      | .ok edges =>
          let rest := walker.course reads (stats.countClass.countEdges edges.length)
          ((name, edges) :: rest.1, rest.2)
      | .error fault =>
          match walker.policy with
          | .abort => ([], .error (.undecodable name fault))
          | .skip => walker.course reads stats.countClass.countFailed

def allCalls (walker : Walker) (reads : List EntryRead) : List SinkCall :=
  (walker.course reads WalkStats.zero).1

def ending (walker : Walker) (reads : List EntryRead) : Except (WalkFault Empty) WalkStats :=
  (walker.course reads WalkStats.zero).2

/-- Whether a walk goes on behind an entry, unless its sink refuses the calls. -/
def passes (walker : Walker) : EntryRead → Bool
  | .error _ => false
  | .ok (.skipped _) => true
  | .ok (.classFile _ data) => walker.policy == .skip || (ClassFile.parse data).isOk

/-- The calls of a course are those of the entries before the one that ends it. -/
theorem course_calls (walker : Walker) (reads : List EntryRead) (stats : WalkStats) :
    (walker.course reads stats).1 = walker.callsOf (reads.takeWhile walker.passes) := by
  induction reads generalizing stats with
  | nil => rfl
  | cons read reads ih =>
      match read with
      | .error fault => rfl
      | .ok (.skipped name) =>
          rw [course, ih, List.takeWhile_cons_of_pos rfl, callsOf_cons, callsOf_skipped,
            List.nil_append]
      | .ok (.classFile name data) =>
          cases hparsed : ClassFile.parse data with
          | ok decoded =>
              have hpasses : walker.passes (.ok (.classFile name data)) = true := by
                simp [passes, hparsed, Except.isOk, Except.toBool]
              rw [course, callsOfBytes_of_parse hparsed, List.takeWhile_cons_of_pos hpasses,
                callsOf_cons, callsOf_parsed walker hparsed]
              simp only [ih, List.singleton_append]
          | error fault =>
              rw [course, callsOfBytes_of_rejected hparsed]
              cases hpolicy : walker.policy with
              | abort =>
                  have hstops : ¬ walker.passes (.ok (.classFile name data)) = true := by
                    simp [passes, hparsed, hpolicy, Except.isOk, Except.toBool]
                  rw [List.takeWhile_cons_of_neg hstops]
                  rfl
              | skip =>
                  have hpasses : walker.passes (.ok (.classFile name data)) = true := by
                    simp [passes, hpolicy]
                  rw [List.takeWhile_cons_of_pos hpasses, callsOf_cons,
                    callsOf_rejected walker hparsed, List.nil_append]
                  exact ih _

/-- How a walk ends whose calls were fed to its sink with the given result. -/
def conclude (ending : Except (WalkFault Empty) WalkStats) :
    EStateM.Result SinkFault State Unit → EStateM.Result (WalkFault SinkFault) State WalkStats
  | .error fault final => .error (.sink fault) final
  | .ok () final =>
      match ending with
      | .ok stats => .ok stats final
      | .error fault => .error fault.lift final

theorem final_conclude (ending : Except (WalkFault Empty) WalkStats)
    (fed : EStateM.Result SinkFault State Unit) :
    Outcome.final (conclude ending fed) = Outcome.final fed := by
  cases fed with
  | error fault final => rfl
  | ok value final =>
      cases ending with
      | ok stats => rfl
      | error fault => rfl

/-- A walk whose sink took all calls ends as the entries tell. -/
theorem verdict_conclude_ok (ending : Except (WalkFault Empty) WalkStats) (final : State) :
    Outcome.verdict (conclude ending (.ok () final) :
      EStateM.Result (WalkFault SinkFault) State WalkStats) = ending.mapError WalkFault.lift := by
  cases ending <;> rfl

/-- A class in front of the entries of a course is delivered before them. -/
theorem deliver_bind_eq (walker : Walker) (sink : Sink State SinkFault) (entry : String)
    (edges : List CallEdge) (stats : WalkStats) (state : State)
    (rest : WalkStats → Walk State SinkFault WalkStats) {calls : List SinkCall}
    {ending : Except (WalkFault Empty) WalkStats}
    (hrest : ∀ next, rest (stats.countEdges edges.length) next =
      conclude ending (sink.feed calls next)) :
    (walker.deliver sink entry (.ok edges) stats >>= rest) state =
      conclude ending (sink.feed ((entry, edges) :: calls) state) := by
  rw [Sink.feed_cons]
  simp only [deliver, accept, bind, EStateM.bind]
  cases sink entry edges state with
  | error fault final => rfl
  | ok value next => exact hrest next

/-- Visiting entries is feeding the sink the calls of their course, by induction
on the entries. -/
theorem foldlM_visit_eq (walker : Walker) (sink : Sink State SinkFault)
    (reads : List EntryRead) (stats : WalkStats) (state : State) :
    reads.foldlM (walker.visit sink) stats state =
      conclude (walker.course reads stats).2 (sink.feed (walker.course reads stats).1 state) := by
  induction reads generalizing stats state with
  | nil => rfl
  | cons read reads ih =>
      rw [List.foldlM_cons]
      match read with
      | .error fault => rfl
      | .ok (.skipped name) =>
          rw [visit, pure_bind, ih, course]
      | .ok (.classFile name data) =>
          rw [visit, course]
          cases hcalls : callsOfBytes walker.filter data with
          | ok edges =>
              exact deliver_bind_eq walker sink name edges stats.countClass state _
                (fun next => ih (stats.countClass.countEdges edges.length) next)
          | error fault =>
              cases hpolicy : walker.policy with
              | abort =>
                  simp only [deliver, hpolicy]
                  rfl
              | skip =>
                  simp only [deliver, hpolicy]
                  rw [pure_bind, ih]

/-- A walk is its course with the calls fed to the sink, in both ways to
walk. -/
theorem walk_eq_conclude (walker : Walker) (parallel : Bool) (sink : Sink State SinkFault)
    (reads : List EntryRead) (state : State) :
    walker.walk parallel sink reads state =
      conclude (walker.ending reads) (sink.feed (walker.allCalls reads) state) := by
  rw [walk_eq_sequential, sequential, foldlM_visit_eq]
  rfl

theorem allCalls_eq (walker : Walker) (reads : List EntryRead) :
    walker.allCalls reads = walker.callsOf (reads.takeWhile walker.passes) :=
  walker.course_calls reads WalkStats.zero

end Walker

end JvmCalls

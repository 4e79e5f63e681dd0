import JvmCalls.Proofs.Output.Written
import JvmCalls.Proofs.Walk.Course

/-!
# Walks into an output that fails

An output that takes only so many bytes cuts the lines of a walk off and does
nothing else to it.  As long as the lines fit, the walk is the one into an output
without a bound.  Otherwise it ends at the class whose lines do not fit any more,
although the entries behind that class might have ended it in another way.
-/

namespace JvmCalls

/-- The bytes of the edges of calls, each edge by itself. -/
def SinkCall.bytesOf (encode : CallEdge → Bytes) (calls : List SinkCall) : Bytes :=
  (calls.flatMap Prod.snd).flatMap encode

/-- A sink puts the edges of each call out one after another. -/
def Sink.Writes {State : Type} [Output State] {capacity : Option Nat}
    (conduit : Conduit State capacity) (sink : Sink State OutputFault)
    (encode : CallEdge → Bytes) : Prop :=
  ∀ entry edges, conduit.Puts (sink entry edges) (edges.flatMap encode)

theorem Sink.Writes.feed {State : Type} [Output State] {capacity : Option Nat}
    {conduit : Conduit State capacity} {sink : Sink State OutputFault} {encode : CallEdge → Bytes}
    (hsink : sink.Writes conduit encode) (calls : List SinkCall) :
    conduit.Puts (sink.feed calls) (SinkCall.bytesOf encode calls) := by
  rw [SinkCall.bytesOf, List.flatMap_assoc]
  exact Conduit.puts_forM (fun call => hsink call.1 call.2)

section Device

variable {capacity : Option Nat} {sink : Sink Device OutputFault} {encode : CallEdge → Bytes}
variable {calls : List SinkCall} {device : Device}

/-- What a fresh device has taken of calls is all of them, and they fit. -/
theorem not_exceeds_of_feed (hsink : sink.Writes (Device.conduit capacity) encode)
    (hfed : sink.feed calls (Device.ofCapacity capacity) = .ok () device) :
    device.bytes = SinkCall.bytesOf encode calls ∧
      ¬ Device.Exceeds capacity (SinkCall.bytesOf encode calls) := by
  have hsettles := hsink.feed calls (Device.holds_ofCapacity capacity)
  rw [hfed] at hsettles
  cases hsettles with
  | ok hholds => exact hholds.2

/-- What a fresh device has taken of calls it refused is what fits. -/
theorem exceeds_of_feed (hsink : sink.Writes (Device.conduit capacity) encode) {fault : OutputFault}
    (hfed : sink.feed calls (Device.ofCapacity capacity) = .error fault device) :
    fault = .refused ∧ device.bytes = Device.fitting capacity (SinkCall.bytesOf encode calls) ∧
      Device.Exceeds capacity (SinkCall.bytesOf encode calls) := by
  have hsettles := hsink.feed calls (Device.holds_ofCapacity capacity)
  rw [hfed] at hsettles
  cases hsettles with
  | refused hexceeds _ htaken => exact ⟨rfl, htaken, hexceeds⟩

/-- A walk ends as its entries tell and leaves the bytes on its device. -/
structure Delivers (result : EStateM.Result (WalkFault OutputFault) Device WalkStats)
    (ending : Except (WalkFault Empty) WalkStats) (bytes : Bytes) : Prop where
  verdict : Outcome.verdict result = ending.mapError WalkFault.lift
  bytes_eq : (Outcome.final result).bytes = bytes

/-- The output does not show in a walk whose bytes fit. -/
theorem delivers_conclude (hsink : sink.Writes (Device.conduit capacity) encode)
    (hfits : ¬ Device.Exceeds capacity (SinkCall.bytesOf encode calls))
    (ending : Except (WalkFault Empty) WalkStats) :
    Delivers (Walker.conclude ending (sink.feed calls (Device.ofCapacity capacity))) ending
      (SinkCall.bytesOf encode calls) := by
  cases hfed : sink.feed calls (Device.ofCapacity capacity) with
  | error fault last => exact absurd (exceeds_of_feed hsink hfed).2.2 hfits
  | ok value device =>
      refine ⟨Walker.verdict_conclude_ok ending device, ?_⟩
      rw [Walker.final_conclude]
      exact (not_exceeds_of_feed hsink hfed).1

end Device

namespace Walker

variable (walker : Walker) (parallel : Bool) (reads : List EntryRead)

def callsInto (sink : Sink Device OutputFault) (device : Device) : List SinkCall :=
  (Outcome.final (walker.walk parallel sink.recorded reads (device, []))).2

section Sink

variable {capacity : Option Nat} {sink : Sink Device OutputFault} {encode : CallEdge → Bytes}

theorem walk_of_fits (hsink : sink.Writes (Device.conduit capacity) encode)
    (hfits : ¬ Device.Exceeds capacity (SinkCall.bytesOf encode (walker.allCalls reads))) :
    Delivers (walker.walk parallel sink reads (Device.ofCapacity capacity))
      (walker.ending reads) (SinkCall.bytesOf encode (walker.allCalls reads)) := by
  rw [walk_eq_conclude]
  exact delivers_conclude hsink hfits _

theorem callsInto_of_fits (hsink : sink.Writes (Device.conduit capacity) encode)
    (hfits : ¬ Device.Exceeds capacity (SinkCall.bytesOf encode (walker.allCalls reads))) :
    walker.callsInto parallel reads sink (Device.ofCapacity capacity) = walker.allCalls reads := by
  rw [callsInto, walk_eq_conclude, final_conclude]
  cases hfed : sink.feed (walker.allCalls reads) (Device.ofCapacity capacity) with
  | error fault last => exact absurd (exceeds_of_feed hsink hfed).2.2 hfits
  | ok value device =>
      rw [Sink.feed_recorded_of_ok hfed]
      rfl

/-- A walk whose bytes do not fit ends with the fault of the output and leaves the
bytes that fit. -/
theorem walk_of_exceeds (hsink : sink.Writes (Device.conduit capacity) encode)
    (hexceeds : Device.Exceeds capacity (SinkCall.bytesOf encode (walker.allCalls reads))) :
    Outcome.verdict (walker.walk parallel sink reads (Device.ofCapacity capacity)) =
        .error (.sink .refused) ∧
      (Outcome.final (walker.walk parallel sink reads (Device.ofCapacity capacity))).bytes =
        Device.fitting capacity (SinkCall.bytesOf encode (walker.allCalls reads)) := by
  rw [walk_eq_conclude]
  cases hfed : sink.feed (walker.allCalls reads) (Device.ofCapacity capacity) with
  | ok value last => exact absurd hexceeds (not_exceeds_of_feed hsink hfed).2
  | error fault device =>
      obtain ⟨rfl, htaken, -⟩ := exceeds_of_feed hsink hfed
      exact ⟨rfl, htaken⟩

/-- The last call of such a walk is the first one whose bytes do not fit behind those
of the calls before it. -/
theorem callsInto_of_exceeds (hsink : sink.Writes (Device.conduit capacity) encode)
    (hexceeds : Device.Exceeds capacity (SinkCall.bytesOf encode (walker.allCalls reads))) :
    ∃ before call after, walker.allCalls reads = before ++ call :: after ∧
      walker.callsInto parallel reads sink (Device.ofCapacity capacity) = before ++ [call] ∧
      ¬ Device.Exceeds capacity (SinkCall.bytesOf encode before) ∧
      Device.Exceeds capacity (SinkCall.bytesOf encode (before ++ [call])) := by
  rw [callsInto, walk_eq_conclude, final_conclude]
  cases hfed : sink.feed (walker.allCalls reads) (Device.ofCapacity capacity) with
  | ok value last => exact absurd hexceeds (not_exceeds_of_feed hsink hfed).2
  | error fault device =>
      obtain ⟨before, call, after, middle, hcalls, hbefore, hcall, hnoted⟩ :=
        Sink.feed_recorded_of_error [] hfed
      have hupto : sink.feed (before ++ [call]) (Device.ofCapacity capacity) =
          .error fault device := by
        rw [Sink.feed_append, Outcome.run_bind_of_ok hbefore, Sink.feed_cons,
          Outcome.run_bind_of_error hcall]
      refine ⟨before, call, after, hcalls, ?_, (not_exceeds_of_feed hsink hbefore).2,
        (exceeds_of_feed hsink hupto).2.2⟩
      rw [hnoted]
      rfl

end Sink

section Lines

variable (style : SignatureStyle)

theorem writes_lineSink {State : Type} [Output State] {capacity : Option Nat}
    (conduit : Conduit State capacity) (style : SignatureStyle) :
    (lineSink style).Writes conduit (CallEdge.lineBytes style) :=
  CallEdge.puts_lineSink style

/-- A walk into a device without a bound leaves the lines of all calls. -/
theorem holdsLines_walk :
    (Outcome.final (walker.walk parallel (lineSink style) reads Device.unlimited)).HoldsLines
      (((walker.allCalls reads).flatMap Prod.snd).map (fun edge => edge.lineChars style)) := by
  have hwalk := walker.walk_of_fits parallel reads (writes_lineSink (Device.conduit none) style) id
  apply CallEdge.holdsLines_of_bytes_eq
  calc
    _ = SinkCall.bytesOf (CallEdge.lineBytes style) (walker.allCalls reads) := hwalk.bytes_eq
    _ = Utf8.encode (CallEdge.textOf ((walker.allCalls reads).flatMap Prod.snd) style) :=
      (CallEdge.encode_textOf _ style).symm

/-- A failing output only truncates, in both ways to walk and for every archive,
filter, policy and style.  Let `free` be the walk into a device without a bound
and `bound` the one into a device that takes `capacity` bytes.  The latter leaves
as many of the bytes of the former as its device takes.  If that is all of them,
then the walks end alike and make the same calls.  Otherwise the fault of the
output ends the latter, whatever ends the former, and it makes no call behind the
one with whose lines the bytes become too many. -/
theorem walk_truncated (capacity : Nat) :
    let free := walker.walk parallel (lineSink style) reads Device.unlimited
    let bound := walker.walk parallel (lineSink style) reads (Device.ofCapacity (some capacity))
    let written := (Outcome.final free).bytes
    let freeCalls := walker.callsInto parallel reads (lineSink style) Device.unlimited
    let boundCalls := walker.callsInto parallel reads (lineSink style)
      (Device.ofCapacity (some capacity))
    (Outcome.final bound).bytes = written.take capacity ∧
      (written.length ≤ capacity →
        Outcome.verdict bound = Outcome.verdict free ∧ boundCalls = freeCalls) ∧
      (capacity < written.length →
        Outcome.verdict bound = .error (.sink .refused) ∧
        ∃ before call after,
          freeCalls = before ++ call :: after ∧ boundCalls = before ++ [call] ∧
          (SinkCall.bytesOf (CallEdge.lineBytes style) before).length ≤ capacity ∧
          capacity < (SinkCall.bytesOf (CallEdge.lineBytes style) (before ++ [call])).length) := by
  intro free bound written freeCalls boundCalls
  have hunbound := writes_lineSink (Device.conduit none) style
  have hbound := writes_lineSink (Device.conduit (some capacity)) style
  have hfree := walker.walk_of_fits parallel reads hunbound id
  have hfreeCalls := walker.callsInto_of_fits parallel reads hunbound id
  have hwritten : written =
      SinkCall.bytesOf (CallEdge.lineBytes style) (walker.allCalls reads) := hfree.bytes_eq
  by_cases hexceeds : capacity < written.length
  · have hcut := walker.walk_of_exceeds parallel reads hbound (hwritten ▸ hexceeds)
    obtain ⟨before, call, after, hcalls, hboundCalls, hbefore, hupto⟩ :=
      walker.callsInto_of_exceeds parallel reads hbound (hwritten ▸ hexceeds)
    refine ⟨?_, fun hfits => absurd hexceeds (Nat.not_lt_of_le hfits), fun _ => ⟨hcut.1, ?_⟩⟩
    · rw [hwritten]
      exact hcut.2
    · exact ⟨before, call, after, hfreeCalls.trans hcalls, hboundCalls,
        Nat.le_of_not_lt hbefore, hupto⟩
  · have hfits := walker.walk_of_fits parallel reads hbound (hwritten ▸ hexceeds)
    have hboundCalls := walker.callsInto_of_fits parallel reads hbound (hwritten ▸ hexceeds)
    refine ⟨?_, fun _ => ⟨hfits.verdict.trans hfree.verdict.symm,
      hboundCalls.trans hfreeCalls.symm⟩, fun hmore => absurd hmore hexceeds⟩
    calc
      (Outcome.final bound).bytes = written := hfits.bytes_eq.trans hwritten.symm
      _ = written.take capacity := (List.take_of_length_le (Nat.le_of_not_lt hexceeds)).symm

end Lines

end Walker

end JvmCalls

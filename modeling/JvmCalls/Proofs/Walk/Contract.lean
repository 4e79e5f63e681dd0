import JvmCalls.Proofs.Call.Extraction
import JvmCalls.Proofs.Walk.Chunked

/-!
# The contract of a walk

A walk stops at the first entry that cannot be read, that is a class that
cannot be decoded while the policy is to abort, or whose calls the sink
refuses.  It has then handed on the calls of the classes before that entry and
nothing of what comes after it.  A walk that does not stop has handed on the
calls of every class that can be decoded and counts all entries.
-/

namespace JvmCalls

/-- The calls of a class, of which there are none if one cannot be named. -/
def ClassFile.edges (decoded : ClassFile) (filter : TypeFilter) : List CallEdge :=
  match decoded.calls filter with
  | .ok edges => edges
  | .error _ => []

theorem ClassFile.calls_eq_ok_edges {data : Bytes} {decoded : ClassFile}
    (hparsed : ClassFile.parse data = .ok decoded) (filter : TypeFilter) :
    decoded.calls filter = .ok (decoded.edges filter) := by
  obtain ⟨edges, _, hcalls⟩ := ClassFile.exists_calls_of_parse hparsed filter
  rw [ClassFile.edges, hcalls]

theorem callsOfBytes_of_parse {data : Bytes} {decoded : ClassFile}
    (hparsed : ClassFile.parse data = .ok decoded) (filter : TypeFilter) :
    callsOfBytes filter data = .ok (decoded.edges filter) := by
  rw [callsOfBytes, hparsed]
  change (match decoded.calls filter with
    | .ok edges => pure edges
    | .error defect => throw (.malformed defect) : Except Fault (List CallEdge)) = _
  rw [ClassFile.calls_eq_ok_edges hparsed]
  rfl

theorem callsOfBytes_of_rejected {data : Bytes} {fault : Fault}
    (hrejected : ClassFile.parse data = .error fault) (filter : TypeFilter) :
    callsOfBytes filter data = .error fault := by
  rw [callsOfBytes, hrejected]
  rfl

namespace EntryRead

/-- Whether the entry is a class, decodable or not. -/
def isClass : EntryRead → Bool
  | .ok (.classFile _ _) => true
  | _ => false

def isSkipped : EntryRead → Bool
  | .ok (.skipped _) => true
  | _ => false

def isRejected : EntryRead → Bool
  | .ok (.classFile _ data) => !(ClassFile.parse data).isOk
  | _ => false

end EntryRead

namespace Sink

variable {State SinkFault : Type}

def feed (sink : Sink State SinkFault) (calls : List SinkCall) :
    EStateM SinkFault State Unit :=
  calls.forM (fun call => sink call.1 call.2)

theorem feed_append (sink : Sink State SinkFault) (left right : List SinkCall) :
    sink.feed (left ++ right) = sink.feed left >>= fun _ => sink.feed right := by
  induction left with
  | nil => rfl
  | cons call left ih =>
      change (sink call.1 call.2 >>= fun _ => sink.feed (left ++ right)) =
        (sink call.1 call.2 >>= fun _ => sink.feed left) >>= fun _ => sink.feed right
      rw [ih, bind_assoc]

end Sink

namespace Walker

variable {State SinkFault : Type}

/-- The call that an entry makes: a decodable class makes one, also if it has no
edges. -/
def callOf? (walker : Walker) : EntryRead → Option SinkCall
  | .ok (.classFile name data) =>
      match ClassFile.parse data with
      | .ok decoded => some (name, decoded.edges walker.filter)
      | .error _ => none
  | _ => none

def callsOf (walker : Walker) (reads : List EntryRead) : List SinkCall :=
  reads.filterMap walker.callOf?

/-- The counts of a walk that does not stop. -/
def tally (walker : Walker) (reads : List EntryRead) : WalkStats where
  classEntries := reads.countP EntryRead.isClass
  skippedEntries := reads.countP EntryRead.isSkipped
  failedEntries := reads.countP EntryRead.isRejected
  edges := ((walker.callsOf reads).flatMap Prod.snd).length

section Entries

variable (walker : Walker) {name : String} {data : Bytes}

theorem callsOf_skipped : walker.callsOf [.ok (.skipped name)] = [] := rfl

theorem tally_skipped :
    walker.tally [.ok (.skipped name)] = WalkStats.zero.countSkipped := rfl

theorem callsOf_rejected {fault : Fault} (hrejected : ClassFile.parse data = .error fault) :
    walker.callsOf [.ok (.classFile name data)] = [] := by
  simp only [callsOf, List.filterMap_cons, callOf?, hrejected, List.filterMap_nil]

theorem tally_rejected {fault : Fault} (hrejected : ClassFile.parse data = .error fault) :
    walker.tally [.ok (.classFile name data)] = WalkStats.zero.countClass.countFailed := by
  rw [tally, callsOf_rejected walker hrejected]
  simp [EntryRead.isClass, EntryRead.isSkipped, EntryRead.isRejected, hrejected, Except.isOk,
    Except.toBool, WalkStats.countClass, WalkStats.countFailed, WalkStats.zero]

theorem callsOf_parsed {decoded : ClassFile} (hparsed : ClassFile.parse data = .ok decoded) :
    walker.callsOf [.ok (.classFile name data)] = [(name, decoded.edges walker.filter)] := by
  simp only [callsOf, List.filterMap_cons, callOf?, hparsed, List.filterMap_nil]

theorem tally_parsed {decoded : ClassFile} (hparsed : ClassFile.parse data = .ok decoded) :
    walker.tally [.ok (.classFile name data)] =
      WalkStats.zero.countClass.countEdges (decoded.edges walker.filter).length := by
  rw [tally, callsOf_parsed walker hparsed]
  simp [EntryRead.isClass, EntryRead.isSkipped, EntryRead.isRejected, hparsed, Except.isOk,
    Except.toBool, WalkStats.countClass, WalkStats.countEdges, WalkStats.zero]

theorem callsOf_cons (read : EntryRead) (reads : List EntryRead) :
    walker.callsOf (read :: reads) = walker.callsOf [read] ++ walker.callsOf reads := by
  rw [callsOf, callsOf, callsOf, ← List.filterMap_append, List.singleton_append]

theorem tally_cons (read : EntryRead) (reads : List EntryRead) :
    walker.tally (read :: reads) = (walker.tally [read]).add (walker.tally reads) := by
  rw [tally, callsOf_cons, List.flatMap_append, List.length_append, ← List.singleton_append]
  simp only [List.countP_append]
  rfl

end Entries

/-- A walk stops at an entry, with a fault, a final state of the sink and the
calls it made for the entry, if its sink is in the given state before. -/
inductive Stops (walker : Walker) (sink : Sink State SinkFault) (state : State) :
    EntryRead → WalkFault SinkFault → State → List SinkCall → Prop
  | read (fault : ArchiveFault) : Stops walker sink state (.error fault) (.read fault) state []
  | undecodable {name : String} {data : Bytes} {fault : Fault}
      (hpolicy : walker.policy = .abort) (hrejected : ClassFile.parse data = .error fault) :
      Stops walker sink state (.ok (.classFile name data)) (.undecodable name fault) state []
  | sink {name : String} {data : Bytes} {decoded : ClassFile} {fault : SinkFault}
      {final : State} (hparsed : ClassFile.parse data = .ok decoded)
      (hrefused : sink name (decoded.edges walker.filter) state = .error fault final) :
      Stops walker sink state (.ok (.classFile name data)) (.sink fault) final
        [(name, decoded.edges walker.filter)]

/-- A walk stops at the entry of an index if it gets there, with the sink in the
state in which the calls of the entries before it leave it. -/
def StopsAt (walker : Walker) (sink : Sink State SinkFault) (reads : List EntryRead)
    (state : State) (index : Nat) (fault : WalkFault SinkFault) (final : State)
    (calls : List SinkCall) : Prop :=
  ∃ before read, sink.feed (walker.callsOf (reads.take index)) state = .ok () before ∧
    reads[index]? = some read ∧ walker.Stops sink before read fault final calls

section Step

variable {walker : Walker} {sink : Sink State SinkFault} {state : State} {read : EntryRead}

/-- An entry at which the walk stops ends it with the fault and the state. -/
theorem visit_of_stops {fault : WalkFault SinkFault} {final : State} {calls : List SinkCall}
    (hstops : walker.Stops sink state read fault final calls) (stats : WalkStats)
    (noted : List SinkCall) :
    walker.visit sink.recorded stats read (state, noted) =
      .error fault (final, noted ++ calls) := by
  cases hstops with
  | read fault =>
      rw [List.append_nil]
      rfl
  | undecodable hpolicy hrejected =>
      rw [visit, callsOfBytes_of_rejected hrejected, List.append_nil]
      simp only [deliver, hpolicy]
      rfl
  | sink hparsed hrefused =>
      rw [visit, callsOfBytes_of_parse hparsed]
      simp only [deliver, accept, Sink.recorded, bind, EStateM.bind, hrefused]

/-- At any other entry the walk makes the call of the entry and goes on. -/
theorem visit_zero_of_not_stops
    (hgoes : ∀ fault final calls, ¬ walker.Stops sink state read fault final calls)
    (noted : List SinkCall) :
    ∃ next, sink.feed (walker.callsOf [read]) state = .ok () next ∧
      walker.visit sink.recorded WalkStats.zero read (state, noted) =
        .ok (walker.tally [read]) (next, noted ++ walker.callsOf [read]) := by
  match read with
  | .error fault => exact absurd (Stops.read fault) (hgoes _ _ _)
  | .ok (.skipped name) =>
      rw [callsOf_skipped, tally_skipped, List.append_nil]
      exact ⟨state, rfl, rfl⟩
  | .ok (.classFile name data) =>
      cases hparse : ClassFile.parse data with
      | error fault =>
          have hpolicy : walker.policy = .skip := by
            cases hpolicy : walker.policy with
            | abort => exact absurd (Stops.undecodable hpolicy hparse) (hgoes _ _ _)
            | skip => rfl
          rw [callsOf_rejected walker hparse, tally_rejected walker hparse, List.append_nil,
            visit, callsOfBytes_of_rejected hparse]
          simp only [deliver, hpolicy]
          exact ⟨state, rfl, rfl⟩
      | ok decoded =>
          rw [callsOf_parsed walker hparse, tally_parsed walker hparse, visit,
            callsOfBytes_of_parse hparse]
          cases hsink : sink name (decoded.edges walker.filter) state with
          | error fault final => exact absurd (Stops.sink hparse hsink) (hgoes _ _ _)
          | ok value next =>
              refine ⟨next, Outcome.run_bind_of_ok hsink, ?_⟩
              simp only [deliver, accept, Sink.recorded, bind, EStateM.bind, hsink]
              rfl

/-- The counts of the entry are added to those before it. -/
theorem visit_of_not_stops
    (hgoes : ∀ fault final calls, ¬ walker.Stops sink state read fault final calls)
    (stats : WalkStats) (noted : List SinkCall) :
    ∃ next, sink.feed (walker.callsOf [read]) state = .ok () next ∧
      walker.visit sink.recorded stats read (state, noted) =
        .ok (stats.add (walker.tally [read])) (next, noted ++ walker.callsOf [read]) := by
  obtain ⟨next, hnext, hvisit⟩ := visit_zero_of_not_stops hgoes noted
  refine ⟨next, hnext, ?_⟩
  calc walker.visit sink.recorded stats read (state, noted)
      = (stats.add <$> walker.visit sink.recorded WalkStats.zero read) (state, noted) := by
        rw [← visit_add, WalkStats.add_zero]
    _ = .ok (stats.add (walker.tally [read])) (next, noted ++ walker.callsOf [read]) := by
        simp only [Functor.map, EStateM.map, hvisit]

end Step

section Run

variable {walker : Walker} {sink : Sink State SinkFault} {state : State}
variable {read : EntryRead} {reads : List EntryRead}

theorem stopsAt_zero_iff {fault : WalkFault SinkFault} {final : State}
    {calls : List SinkCall} :
    walker.StopsAt sink (read :: reads) state 0 fault final calls ↔
      walker.Stops sink state read fault final calls := by
  constructor
  · rintro ⟨before, found, hbefore, hfound, hstops⟩
    cases hbefore
    cases hfound
    exact hstops
  · intro hstops
    exact ⟨state, read, rfl, rfl, hstops⟩

/-- Behind an entry at which it does not stop, the walk goes on like the walk of
the remaining entries. -/
theorem stopsAt_succ_iff {next : State}
    (hnext : sink.feed (walker.callsOf [read]) state = .ok () next) {index : Nat}
    {fault : WalkFault SinkFault} {final : State} {calls : List SinkCall} :
    walker.StopsAt sink (read :: reads) state (index + 1) fault final calls ↔
      walker.StopsAt sink reads next index fault final calls := by
  have hfeed : sink.feed (walker.callsOf ((read :: reads).take (index + 1))) state =
      sink.feed (walker.callsOf (reads.take index)) next := by
    rw [List.take_succ_cons, callsOf_cons, Sink.feed_append]
    exact Outcome.run_bind_of_ok hnext
  rw [StopsAt, StopsAt, hfeed, List.getElem?_cons_succ]

/-- A walk that stops nowhere makes the calls of all entries, by induction on
the entries and with any counts and notes before. -/
theorem visits_of_not_stopsAt
    (hgoes : ∀ index fault final calls,
      ¬ walker.StopsAt sink reads state index fault final calls)
    (stats : WalkStats) (noted : List SinkCall) :
    ∃ final, sink.feed (walker.callsOf reads) state = .ok () final ∧
      reads.foldlM (walker.visit sink.recorded) stats (state, noted) =
        .ok (stats.add (walker.tally reads)) (final, noted ++ walker.callsOf reads) := by
  induction reads generalizing state stats noted with
  | nil =>
      refine ⟨state, rfl, ?_⟩
      change EStateM.Result.ok stats (state, noted) =
        .ok (stats.add WalkStats.zero) (state, noted ++ [])
      rw [WalkStats.add_zero, List.append_nil]
  | cons read reads ih =>
      have hread : ∀ fault final calls, ¬ walker.Stops sink state read fault final calls := by
        intro fault final calls hstops
        exact hgoes 0 fault final calls (stopsAt_zero_iff.mpr hstops)
      obtain ⟨next, hnext, hvisit⟩ := visit_of_not_stops hread stats noted
      have hreads : ∀ index fault final calls,
          ¬ walker.StopsAt sink reads next index fault final calls := by
        intro index fault final calls hstops
        exact hgoes (index + 1) fault final calls ((stopsAt_succ_iff hnext).mpr hstops)
      obtain ⟨final, hfinal, hvisits⟩ :=
        ih hreads (stats.add (walker.tally [read])) (noted ++ walker.callsOf [read])
      refine ⟨final, ?_, ?_⟩
      · rw [callsOf_cons, Sink.feed_append]
        exact (Outcome.run_bind_of_ok hnext).trans hfinal
      · rw [List.foldlM_cons, callsOf_cons, tally_cons, ← WalkStats.add_assoc,
          ← List.append_assoc]
        exact (Outcome.run_bind_of_ok hvisit).trans hvisits

/-- A walk that stops first at some index has made the calls of the entries
before it and those it made there. -/
theorem visits_of_stopsAt {index : Nat} {fault : WalkFault SinkFault} {final : State}
    {calls : List SinkCall}
    (hstops : walker.StopsAt sink reads state index fault final calls)
    (hfirst : ∀ earlier < index, ∀ fault final calls,
      ¬ walker.StopsAt sink reads state earlier fault final calls)
    (stats : WalkStats) (noted : List SinkCall) :
    reads.foldlM (walker.visit sink.recorded) stats (state, noted) =
      .error fault (final, noted ++ walker.callsOf (reads.take index) ++ calls) := by
  induction reads generalizing state index stats noted with
  | nil =>
      obtain ⟨_, _, _, hfound, _⟩ := hstops
      cases hfound
  | cons read reads ih =>
      rw [List.foldlM_cons]
      cases index with
      | zero =>
          have hvisit := visit_of_stops (stopsAt_zero_iff.mp hstops) stats noted
          rw [List.take_zero]
          simpa [callsOf] using Outcome.run_bind_of_error hvisit
      | succ index =>
          have hread : ∀ fault final calls,
              ¬ walker.Stops sink state read fault final calls := by
            intro fault final calls hread
            exact hfirst 0 (Nat.zero_lt_succ index) fault final calls
              (stopsAt_zero_iff.mpr hread)
          obtain ⟨next, hnext, hvisit⟩ := visit_of_not_stops hread stats noted
          have hrest : ∀ earlier < index, ∀ fault final calls,
              ¬ walker.StopsAt sink reads next earlier fault final calls := by
            intro earlier hearlier fault final calls hstop
            exact hfirst (earlier + 1) (Nat.succ_lt_succ hearlier) fault final calls
              ((stopsAt_succ_iff hnext).mpr hstop)
          have hvisits := ih ((stopsAt_succ_iff hnext).mp hstops) hrest
            (stats.add (walker.tally [read])) (noted ++ walker.callsOf [read])
          rw [List.take_succ_cons, callsOf_cons, ← List.append_assoc]
          exact (Outcome.run_bind_of_ok hvisit).trans hvisits

/-- The walk that stops nowhere does not stop at any single entry. -/
theorem exists_not_stops_of_mem
    (hgoes : ∀ index fault final calls,
      ¬ walker.StopsAt sink reads state index fault final calls) (hmem : read ∈ reads) :
    ∃ before, ∀ fault final calls, ¬ walker.Stops sink before read fault final calls := by
  obtain ⟨index, hindex⟩ := List.mem_iff_getElem?.mp hmem
  have hfeed : ∃ before, sink.feed (walker.callsOf (reads.take index)) state = .ok () before := by
    obtain ⟨final, hfinal, _⟩ := visits_of_not_stopsAt hgoes WalkStats.zero []
    rw [← List.take_append_drop index reads, callsOf, List.filterMap_append,
      Sink.feed_append, Outcome.run_bind_eq_ok_iff] at hfinal
    obtain ⟨_, before, hbefore, _⟩ := hfinal
    exact ⟨before, hbefore⟩
  obtain ⟨before, hbefore⟩ := hfeed
  refine ⟨before, fun fault final calls hstops => ?_⟩
  exact hgoes index fault final calls ⟨before, read, hbefore, hindex, hstops⟩

/-- A walk that stops nowhere has met classes and skipped entries only. -/
theorem tally_entries_of_not_stopsAt
    (hgoes : ∀ index fault final calls,
      ¬ walker.StopsAt sink reads state index fault final calls) :
    (walker.tally reads).classEntries + (walker.tally reads).skippedEntries = reads.length := by
  have hkinds : reads.countP EntryRead.isSkipped =
      reads.countP (fun read => !read.isClass) := by
    apply List.countP_congr
    intro read hmem
    obtain ⟨before, hread⟩ := exists_not_stops_of_mem hgoes hmem
    match read with
    | .error fault => exact absurd (Stops.read fault) (hread _ _ _)
    | .ok (.skipped name) => simp [EntryRead.isSkipped, EntryRead.isClass]
    | .ok (.classFile name data) => simp [EntryRead.isSkipped, EntryRead.isClass]
  calc (walker.tally reads).classEntries + (walker.tally reads).skippedEntries
      = reads.countP EntryRead.isClass + reads.countP (fun read => !read.isClass) := by
        rw [tally, hkinds]
    _ = reads.length := by
        rw [List.length_eq_countP_add_countP EntryRead.isClass]
        simp only [Bool.not_eq_true, Bool.decide_eq_false]

/-- A walk that aborts at classes that cannot be decoded and stops nowhere has
met none. -/
theorem tally_failed_of_not_stopsAt (hpolicy : walker.policy = .abort)
    (hgoes : ∀ index fault final calls,
      ¬ walker.StopsAt sink reads state index fault final calls) :
    (walker.tally reads).failedEntries = 0 := by
  apply List.countP_eq_zero.mpr
  intro read hmem
  obtain ⟨before, hread⟩ := exists_not_stops_of_mem hgoes hmem
  match read with
  | .error fault => exact absurd (Stops.read fault) (hread _ _ _)
  | .ok (.skipped name) => simp [EntryRead.isRejected]
  | .ok (.classFile name data) =>
      cases hparse : ClassFile.parse data with
      | error fault => exact absurd (Stops.undecodable hpolicy hparse) (hread _ _ _)
      | ok decoded => simp [EntryRead.isRejected, hparse, Except.isOk, Except.toBool]

end Run

/-- The contract of a walk, for every archive, filter, policy and sink and for
both ways to walk.  A walk that stops nowhere returns the counts of all entries
and has called the sink once for every class that can be decoded.  Any other
walk returns the fault of the first entry at which it stops and has called the
sink for the classes before it and, if the sink refused, for the class of the
entry.  The recorded sink tells the calls. -/
theorem walk_contract (walker : Walker) (parallel : Bool) (sink : Sink State SinkFault)
    (reads : List EntryRead) (state : State) :
    ((∀ index fault final calls,
        ¬ walker.StopsAt sink reads state index fault final calls) →
      ∃ final, sink.feed (walker.callsOf reads) state = .ok () final ∧
        walker.walk parallel sink reads state = .ok (walker.tally reads) final ∧
        walker.walk parallel sink.recorded reads (state, []) =
          .ok (walker.tally reads) (final, walker.callsOf reads) ∧
        (walker.tally reads).classEntries + (walker.tally reads).skippedEntries =
          reads.length ∧
        (walker.policy = .abort → (walker.tally reads).failedEntries = 0)) ∧
    ∀ index fault final calls,
      walker.StopsAt sink reads state index fault final calls →
      (∀ earlier < index, ∀ fault final calls,
        ¬ walker.StopsAt sink reads state earlier fault final calls) →
      walker.walk parallel sink reads state = .error fault final ∧
        walker.walk parallel sink.recorded reads (state, []) =
          .error fault (final, walker.callsOf (reads.take index) ++ calls) := by
  have hplain := records_walk walker parallel sink reads (state, [])
  constructor
  · intro hgoes
    obtain ⟨final, hfinal, hvisits⟩ := visits_of_not_stopsAt hgoes WalkStats.zero []
    have hwalk : walker.walk parallel sink.recorded reads (state, []) =
        .ok (walker.tally reads) (final, walker.callsOf reads) := by
      rw [walk_eq_sequential, sequential, hvisits, WalkStats.zero_add, List.nil_append]
    rw [hwalk] at hplain
    refine ⟨final, hfinal, hplain.symm, hwalk, tally_entries_of_not_stopsAt hgoes, ?_⟩
    intro hpolicy
    exact tally_failed_of_not_stopsAt hpolicy hgoes
  · intro index fault final calls hstops hfirst
    have hwalk : walker.walk parallel sink.recorded reads (state, []) =
        .error fault (final, walker.callsOf (reads.take index) ++ calls) := by
      rw [walk_eq_sequential, sequential, visits_of_stopsAt hstops hfirst, List.nil_append]
    rw [hwalk] at hplain
    exact ⟨hplain.symm, hwalk⟩

/-- A walk over a skipped entry, a class and an entry that cannot be read stops at
the last one and has handed on the class. -/
theorem walk_contract_of_corrupt_entry :
    ∃ edges, (Walker.mk .everything .abort).walk true
      (Sink.recorded (fun _ edges count => .ok () (count + edges.length)))
      [.ok (.skipped "a"), .ok (.classFile "A.class" ClassFile.callingClass),
        .error (.corrupt "b")] (0, []) =
      .error (.read (.corrupt "b") : WalkFault String) (edges.length, [("A.class", edges)]) := by
  obtain ⟨decoded, hparsed, _⟩ := ClassFile.exists_parse_callingClass
  generalize ClassFile.callingClass = data at hparsed ⊢
  let walker := Walker.mk .everything .abort
  let sink : Sink Nat String := fun _ edges count => .ok () (count + edges.length)
  let reads : List EntryRead := [.ok (.skipped "a"),
    .ok (.classFile "A.class" data), .error (.corrupt "b")]
  have hskipped : sink.feed (walker.callsOf [.ok (.skipped "a")]) 0 = .ok () 0 := rfl
  have hclass : sink.feed (walker.callsOf [.ok (.classFile "A.class" data)]) 0 =
      .ok () (decoded.edges .everything).length := by
    rw [callsOf_parsed walker hparsed, ← Nat.zero_add (decoded.edges .everything).length]
    rfl
  have hstops : walker.StopsAt sink reads 0 2 (.read (.corrupt "b"))
      (decoded.edges .everything).length [] := by
    rw [stopsAt_succ_iff hskipped, stopsAt_succ_iff hclass, stopsAt_zero_iff]
    exact Stops.read _
  have hfirst : ∀ earlier < 2, ∀ fault final calls,
      ¬ walker.StopsAt sink reads 0 earlier fault final calls := by
    intro earlier hearlier fault final calls hstop
    have hcases : earlier = 0 ∨ earlier = 0 + 1 := by omega
    rcases hcases with rfl | rfl
    · cases stopsAt_zero_iff.mp hstop
    · rw [stopsAt_succ_iff hskipped, stopsAt_zero_iff] at hstop
      cases hstop with
      | undecodable _ hrejected => simp [hparsed] at hrejected
      | sink _ hrefused => cases hrefused
  have hcalls : walker.callsOf (reads.take 2) = [("A.class", decoded.edges .everything)] := by
    have htaken : reads.take 2 = [.ok (.skipped "a"), .ok (.classFile "A.class" data)] := rfl
    rw [htaken, callsOf_cons, callsOf_skipped, callsOf_parsed walker hparsed, List.nil_append]
  have hwalk := ((walk_contract walker true sink reads 0).2 2 _ _ _ hstops hfirst).2
  rw [hcalls, List.append_nil] at hwalk
  exact ⟨decoded.edges .everything, hwalk⟩

end Walker

end JvmCalls

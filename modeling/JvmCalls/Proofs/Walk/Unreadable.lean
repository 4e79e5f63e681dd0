import JvmCalls.Proofs.Walk.Course
import JvmCalls.Proofs.Zip.Entry
import JvmCalls.Walk.Sinks

/-!
# Walks over entries that cannot be read

A walk ends with the fault of an entry exactly if it goes on behind all entries
before that one and its sink takes their calls.  So it does for an archive, in both
ways to walk, except that the calls of a chunk are lost if the run is given up at
one of its entries.
-/

namespace JvmCalls

namespace Chunk

theorem mem_of_mem_surviving {reads : List EntryRead} {read : EntryRead}
    (hmem : read ∈ surviving reads) : read ∈ reads := by
  fun_induction surviving reads with
  | case1 => exact hmem
  | case2 first rest chunk fault hfault hends =>
      rw [List.mem_singleton.mp hmem]
      exact mem_of_fault_read hfault
  | case3 => exact hmem
  | case4 first rest chunk hfault ih =>
      rcases List.mem_append.mp hmem with htaken | hrest
      · exact List.mem_of_mem_take htaken
      · exact (rest_read_suffix capacity (first :: rest)).mem (ih hrest)

section FirstFault

variable {before after : List EntryRead} {fault : ArchiveFault}

/-- A chunk either comes to the first entry that cannot be read or ends before
it. -/
theorem read_append_error (hreadable : ∀ cause, .error cause ∉ before) (room : Nat) :
    let chunk := read room (before ++ .error fault :: after)
    chunk.fault = some fault ∨
      (chunk.fault = none ∧ ∃ taken left, before = taken ++ left ∧
        chunk.rest = left ++ .error fault :: after) := by
  induction before generalizing room with
  | nil =>
      cases room with
      | zero => exact .inr ⟨rfl, [], [], rfl, rfl⟩
      | succ room => exact .inl rfl
  | cons first before ih =>
      have hrest : ∀ cause, .error cause ∉ before := fun cause hmem =>
        hreadable cause (List.mem_cons_of_mem _ hmem)
      cases room with
      | zero => exact .inr ⟨rfl, [], first :: before, rfl, rfl⟩
      | succ room =>
          match first with
          | .error cause => exact absurd List.mem_cons_self (hreadable cause)
          | .ok (.skipped name) =>
              rcases ih hrest (room + 1) with hfault | ⟨hnone, taken, left, rfl, hleft⟩
              · exact .inl hfault
              · exact .inr ⟨hnone, .ok (.skipped name) :: taken, left, rfl, hleft⟩
          | .ok (.classFile name data) =>
              rcases ih hrest room with hfault | ⟨hnone, taken, left, rfl, hleft⟩
              · exact .inl hfault
              · exact .inr ⟨hnone, .ok (.classFile name data) :: taken, left, rfl, hleft⟩

/-- The first entry that cannot be read survives, behind all entries before it
unless the run is given up there. -/
theorem exists_surviving {reads : List EntryRead} :
    ∀ before : List EntryRead, before ++ .error fault :: after = reads →
      (∀ cause, .error cause ∉ before) →
      ∃ kept rest, surviving reads = kept ++ .error fault :: rest ∧
        kept <+: before ∧ (fault.endsRun = false → kept = before) := by
  fun_induction surviving reads with
  | case1 =>
      intro before hreads
      simp at hreads
  | case2 first rest chunk other hfault hends =>
      intro before hreads hreadable
      obtain rfl : other = fault := by
        rcases read_append_error hreadable capacity with hsame | ⟨hnone, _⟩
        · rw [hreads] at hsame
          exact Option.some.inj (hfault.symm.trans hsame)
        · rw [hreads] at hnone
          cases hfault.symm.trans hnone
      refine ⟨[], [], rfl, List.nil_prefix, fun hkept => ?_⟩
      rw [hkept] at hends
      cases hends
  | case3 first rest chunk other hfault hends =>
      intro before hreads hreadable
      exact ⟨before, after, hreads.symm, List.prefix_rfl, fun _ => rfl⟩
  | case4 first rest chunk hnone ih =>
      intro before hreads hreadable
      rcases read_append_error hreadable capacity with hsome | ⟨_, taken, left, rfl, hleft⟩
      · rw [hreads] at hsome
        cases hnone.symm.trans hsome
      · rw [hreads] at hleft
        have hreadableLeft : ∀ cause, .error cause ∉ left := fun cause hmem =>
          hreadable cause (List.mem_append_right _ hmem)
        obtain ⟨kept, last, hlast, hprefix, hall⟩ := ih left hleft.symm hreadableLeft
        have htaken : (first :: rest).take ((first :: rest).length - chunk.rest.length) =
            taken := by
          rw [← hreads, List.append_assoc, ← hleft, take_of_rest]
        refine ⟨taken ++ kept, last, ?_, (List.prefix_append_right_inj taken).mpr hprefix,
          fun hkept => by rw [hall hkept]⟩
        rw [htaken, hlast, List.append_assoc]

end FirstFault

end Chunk

namespace Walker

variable {State SinkFault : Type} {walker : Walker} {before after : List EntryRead}
variable {fault : ArchiveFault}

theorem exists_course_of_passes {read : EntryRead} (hpasses : walker.passes read = true)
    (reads : List EntryRead) (stats : WalkStats) :
    ∃ next, (walker.course (read :: reads) stats).2 = (walker.course reads next).2 := by
  match read with
  | .ok (.skipped name) => exact ⟨stats.countSkipped, rfl⟩
  | .ok (.classFile name data) =>
      cases hparsed : ClassFile.parse data with
      | ok decoded =>
          rw [course, callsOfBytes_of_parse hparsed]
          exact ⟨_, rfl⟩
      | error cause =>
          have hskip : walker.policy = .skip := by
            simpa [passes, hparsed, Except.isOk, Except.toBool] using hpasses
          rw [course, callsOfBytes_of_rejected hparsed, hskip]
          exact ⟨_, rfl⟩

theorem exists_course_append (hpasses : ∀ read ∈ before, walker.passes read = true)
    (reads : List EntryRead) (stats : WalkStats) :
    ∃ next, (walker.course (before ++ reads) stats).2 = (walker.course reads next).2 := by
  induction before generalizing stats with
  | nil => exact ⟨stats, rfl⟩
  | cons first before ih =>
      rw [List.forall_mem_cons] at hpasses
      obtain ⟨middle, hfirst⟩ := exists_course_of_passes hpasses.1 (before ++ reads) stats
      obtain ⟨next, hrest⟩ := ih hpasses.2 middle
      exact ⟨next, hfirst.trans hrest⟩

theorem course_of_not_passes {name : String} {data : Bytes}
    (hstops : ¬ walker.passes (.ok (.classFile name data)) = true) (reads : List EntryRead)
    (stats : WalkStats) :
    ∃ cause, (walker.course (.ok (.classFile name data) :: reads) stats).2 =
      .error (.undecodable name cause) := by
  cases hparsed : ClassFile.parse data with
  | ok decoded => simp [passes, hparsed, Except.isOk, Except.toBool] at hstops
  | error cause =>
      have habort : walker.policy = .abort := by
        cases hpolicy : walker.policy with
        | abort => rfl
        | skip => simp [passes, hpolicy] at hstops
      rw [course, callsOfBytes_of_rejected hparsed, habort]
      exact ⟨cause, rfl⟩

/-- A course ends with the fault of an entry exactly if it goes on behind all entries
before that one. -/
theorem course_eq_read_iff {reads : List EntryRead} {stats : WalkStats} :
    (walker.course reads stats).2 = .error (.read fault) ↔
      ∃ before after, reads = before ++ .error fault :: after ∧
        ∀ read ∈ before, walker.passes read = true := by
  constructor
  · intro hcourse
    induction reads generalizing stats with
    | nil => cases hcourse
    | cons first reads ih =>
        by_cases hpasses : walker.passes first = true
        · obtain ⟨next, hnext⟩ := exists_course_of_passes hpasses reads stats
          obtain ⟨before, after, rfl, hbefore⟩ := ih (hnext.symm.trans hcourse)
          exact ⟨first :: before, after, rfl, List.forall_mem_cons.mpr ⟨hpasses, hbefore⟩⟩
        · match first with
          | .error cause =>
              cases hcourse
              exact ⟨[], reads, rfl, nofun⟩
          | .ok (.skipped name) => exact absurd rfl hpasses
          | .ok (.classFile name data) =>
              obtain ⟨cause, hcause⟩ := course_of_not_passes hpasses reads stats
              cases hcause.symm.trans hcourse
  · rintro ⟨before, after, rfl, hpasses⟩
    obtain ⟨next, hnext⟩ := exists_course_append hpasses (.error fault :: after) stats
    rw [hnext]
    rfl

theorem conclude_eq_read_iff {ending : Except (WalkFault Empty) WalkStats}
    {fed : EStateM.Result SinkFault State Unit} {final : State} :
    conclude ending fed = .error (.read fault) final ↔
      ending = .error (.read fault) ∧ fed = .ok () final := by
  cases fed with
  | error cause last => simp [conclude]
  | ok value last =>
      cases ending with
      | ok stats => simp [conclude]
      | error cause =>
          cases cause with
          | read cause => simp [conclude, WalkFault.lift]
          | undecodable entry cause => simp [conclude, WalkFault.lift]
          | sink cause => exact cause.elim

theorem allCalls_append_error (hpasses : ∀ read ∈ before, walker.passes read = true) :
    walker.allCalls (before ++ .error fault :: after) = walker.callsOf before := by
  rw [allCalls_eq, List.takeWhile_append_of_pos hpasses,
    List.takeWhile_cons_of_neg Bool.false_ne_true, List.append_nil]

/-- A walk ends with the fault of an entry exactly if it goes on behind all entries
before that one and its sink takes their calls. -/
theorem walk_eq_read_iff {parallel : Bool} {sink : Sink State SinkFault}
    {reads : List EntryRead} {state final : State} :
    walker.walk parallel sink reads state = .error (.read fault) final ↔
      ∃ before after, reads = before ++ .error fault :: after ∧
        (∀ read ∈ before, walker.passes read = true) ∧
        sink.feed (walker.callsOf before) state = .ok () final := by
  rw [walk_eq_conclude, conclude_eq_read_iff, ending, course_eq_read_iff]
  constructor
  · rintro ⟨⟨before, after, rfl, hpasses⟩, hfed⟩
    rw [allCalls_append_error hpasses] at hfed
    exact ⟨before, after, rfl, hpasses, hfed⟩
  · rintro ⟨before, after, rfl, hpasses, hfed⟩
    refine ⟨⟨before, after, rfl, hpasses⟩, ?_⟩
    rw [allCalls_append_error hpasses]
    exact hfed

theorem not_error_of_passes (hpasses : ∀ read ∈ before, walker.passes read = true)
    (cause : ArchiveFault) : .error cause ∉ before := by
  intro hmem
  cases hpasses _ hmem

section Archives

variable {parallel : Bool} {sink : Sink State SinkFault} {archive : Archive} {index : Nat}
variable {state final : State}

variable (parallel) in
/-- A walk that comes to an entry that cannot be read ends with its fault.  The sink has
taken the calls of all entries before that one, unless the run is given up there. -/
theorem exists_walkArchive (hunreadable : archive.Unreadable index fault)
    (hpasses : ∀ read ∈ archive.entries.take index, walker.passes read = true)
    (hfed : sink.feed (walker.callsOf (archive.entries.take index)) state = .ok () final) :
    ∃ last, walker.walkArchive parallel sink archive state = .error (.read fault) last ∧
      (fault.endsRun = false → last = final) := by
  have hentries := Archive.entries_eq_of_unreadable hunreadable
  cases parallel with
  | false => exact ⟨final, walk_eq_read_iff.mpr ⟨_, _, hentries, hpasses, hfed⟩, fun _ => rfl⟩
  | true =>
      obtain ⟨kept, rest, hsurviving, ⟨lost, hlost⟩, hall⟩ :=
        Chunk.exists_surviving _ hentries.symm (not_error_of_passes hpasses)
      have hcalls : walker.callsOf (archive.entries.take index) =
          walker.callsOf kept ++ walker.callsOf lost := by
        rw [← hlost, callsOf, List.filterMap_append]
        rfl
      rw [hcalls, Sink.feed_append, Outcome.run_bind_eq_ok_iff] at hfed
      obtain ⟨_, middle, hkept, hrest⟩ := hfed
      refine ⟨middle, walk_eq_read_iff.mpr ⟨kept, rest, hsurviving, ?_, hkept⟩, ?_⟩
      · intro read hmem
        exact hpasses read (hlost ▸ List.mem_append_left lost hmem)
      · intro hends
        have hnone : lost = [] := by
          rw [hall hends] at hlost
          exact List.append_right_eq_self.mp hlost
        rw [hnone] at hrest
        cases hrest
        rfl

/-- A walk ends with the fault of the entry at an index, and its sink has taken the
calls of all classes before that entry and no others. -/
structure EndsAt (walker : Walker) (parallel : Bool) (sink : Sink State SinkFault)
    (archive : Archive) (state final : State) (index : Nat) (fault : ArchiveFault) : Prop where
  result : walker.walkArchive parallel sink archive state = .error (.read fault) final
  calls : walker.walkArchive parallel sink.recorded archive (state, []) =
    .error (.read fault) (final, walker.callsOf (archive.entries.take index))

theorem endsAt_of_unreadable (hunreadable : archive.Unreadable index fault)
    (hkept : fault.endsRun = false)
    (hpasses : ∀ read ∈ archive.entries.take index, walker.passes read = true)
    (hfed : sink.feed (walker.callsOf (archive.entries.take index)) state = .ok () final) :
    walker.EndsAt parallel sink archive state final index fault := by
  constructor
  · obtain ⟨last, hresult, hlast⟩ := exists_walkArchive parallel hunreadable hpasses hfed
    rw [hresult, hlast hkept]
  · have hnoted : sink.recorded.feed (walker.callsOf (archive.entries.take index)) (state, []) =
        .ok () (final, walker.callsOf (archive.entries.take index)) :=
      Sink.feed_recorded_of_ok hfed
    obtain ⟨last, hresult, hlast⟩ := exists_walkArchive parallel hunreadable hpasses hnoted
    rw [hresult, hlast hkept]

/-- What an entry that cannot be read does to a walk, in both ways to walk and under
both policies.  Let the walk go on behind all entries before the one at `index`, and
let its sink take their calls.  If that entry cannot be located, be it for its method,
its header or its encryption, then the walk ends with a fault of the archive.  If it is
a class whose content cannot be decompressed or does not match its checksum, then the
walk ends with a fault of the content.  In both cases the sink has taken the calls of
the classes before the entry and no others. -/
theorem walkArchive_ends_at_unreadable (walker : Walker) (parallel : Bool)
    (sink : Sink State SinkFault) (archive : Archive) (state final : State) (index : Nat)
    (hpasses : ∀ read ∈ archive.entries.take index, walker.passes read = true)
    (hfed : sink.feed (walker.callsOf (archive.entries.take index)) state = .ok () final) :
    (∀ record cause, archive.records[index]? = some record →
      archive.compressed record = .error cause →
        walker.EndsAt parallel sink archive state final index (.archive cause)) ∧
    ∀ record data, archive.Asks index record data →
      Archive.reservation record ≤ Archive.maxReservation →
      Archive.content record data = none →
        walker.EndsAt parallel sink archive state final index (.corrupt record.name) := by
  constructor
  · intro record cause hrecord hlocated
    exact endsAt_of_unreadable (.unlocated hrecord hlocated) rfl hpasses hfed
  · intro record data hasks hsize hcontent
    exact endsAt_of_unreadable (.broken hasks hsize hcontent) rfl hpasses hfed

end Archives

end Walker

namespace Archive

/-- The bytes of an archive with the class `ClassFile.callingClass` and behind it an
entry `B.class`, which the method is said to have compressed to the single byte 7. -/
def twoClassJar (method : UInt8) : Bytes :=
  let entry : Bytes :=
    [80, 75, 3, 4, 20, 0, 0, 0, method, 0, 0, 0, 33, 0, 0, 0, 0, 0, 1, 0, 0, 0, 1, 0, 0, 0,
      7, 0, 0, 0, 66, 46, 99, 108, 97, 115, 115, 7]
  let record : Bytes :=
    [80, 75, 1, 2, 20, 0, 20, 0, 0, 0, method, 0, 0, 0, 33, 0, 0, 0, 0, 0, 1, 0, 0, 0,
      1, 0, 0, 0, 7, 0, 0, 0, 0, 0, 0, 0, 0, 0, 0, 0, 0, 0, 0x91, 0, 0, 0,
      66, 46, 99, 108, 97, 115, 115]
  callingEntry ++ entry ++ callingRecord ++ record ++ endRecord 2 106 0xB7

def twoClassArchive (method : UInt8) : Archive where
  source := { data := twoClassJar method, path := none }
  records := #[classRecord "A.class" 0 0x2F07A6CD 108 0, classRecord "B.class" method 0 1 145]

set_option maxRecDepth 4000 in
theorem ofBytes_twoClassJar :
    ∀ method ∈ [8, 12], ofBytes (twoClassJar method) = .ok (twoClassArchive method) := by
  decide +kernel

end Archive

namespace Walker

open Archive

set_option maxRecDepth 4000 in
theorem walkArchive_ends_at_second_class :
    let walker : Walker := { filter := .everything, policy := .skip }
    let sink : Sink Device OutputFault := lineSink .readable
    ∃ final, final.bytes = Utf8.encode "A f A f ()void\nA f A f ()void\n" ∧
      walker.EndsAt true sink (twoClassArchive 8) Device.unlimited final 1
        (.corrupt "B.class") ∧
      walker.EndsAt true sink (twoClassArchive 12) Device.unlimited final 1
        (.archive (.unsupportedMethod "B.class" 12)) := by
  intro walker sink
  have htaken : ∀ method ∈ [8, 12], (twoClassArchive method).entries.take 1 =
      [.ok (.classFile "A.class" ClassFile.callingClass)] := by decide +kernel
  have hpasses : ∀ read ∈ [.ok (.classFile "A.class" ClassFile.callingClass)],
      walker.passes read = true := by decide +kernel
  have hbytes : (Outcome.final (sink.feed (walker.callsOf
      [.ok (.classFile "A.class" ClassFile.callingClass)]) Device.unlimited)).bytes =
        Utf8.encode "A f A f ()void\nA f A f ()void\n" := by decide +kernel
  have hverdict : Outcome.verdict (sink.feed (walker.callsOf
      [.ok (.classFile "A.class" ClassFile.callingClass)]) Device.unlimited) = .ok () := by
    decide +kernel
  generalize hfed : sink.feed (walker.callsOf
    [.ok (.classFile "A.class" ClassFile.callingClass)]) Device.unlimited = fed at hbytes hverdict
  cases fed with
  | error fault final => cases hverdict
  | ok value final =>
      have hcorrupt := walkArchive_ends_at_unreadable walker true sink (twoClassArchive 8)
        Device.unlimited final 1 (by rw [htaken 8 (by decide)]; exact hpasses)
        (by rw [htaken 8 (by decide)]; exact hfed)
      have hunsupported := walkArchive_ends_at_unreadable walker true sink (twoClassArchive 12)
        Device.unlimited final 1 (by rw [htaken 12 (by decide)]; exact hpasses)
        (by rw [htaken 12 (by decide)]; exact hfed)
      refine ⟨final, hbytes, hcorrupt.2 _ [7] ⟨rfl, ?_, ?_⟩ ?_ ?_, hunsupported.1 _ _ rfl ?_⟩
      all_goals decide +kernel

set_option maxRecDepth 4000 in
/-- Broken content does not end a walk with a fault of the archive. -/
theorem walkArchive_corrupt_not_archive :
    ofBytes (twoClassJar 8) = .ok (twoClassArchive 8) ∧
    (twoClassArchive 8).entry 0 = .ok (.classFile "A.class" ClassFile.callingClass) ∧
    (twoClassArchive 8).entry 1 = .error (.corrupt "B.class") ∧
    ∀ policy ∈ [DecodePolicy.abort, DecodePolicy.skip], ∀ parallel ∈ [false, true],
      let walker : Walker := { filter := .everything, policy }
      let result := walker.walkArchive parallel (lineSink .readable) (twoClassArchive 8)
        Device.unlimited
      Outcome.verdict result = .error (.read (.corrupt "B.class")) ∧
      (Outcome.final result).bytes = Utf8.encode "A f A f ()void\nA f A f ()void\n" := by
  exact ⟨ofBytes_twoClassJar 8 (by decide), by decide +kernel⟩

end Walker

end JvmCalls

import JvmCalls.Proofs.Command.Run
import JvmCalls.Proofs.Walk.Unreadable

/-!
# Walks that are given up

Before the content of a class is read, a block of the recorded size is asked for.
The record may claim any size, whatever the content is, and no block has the
greatest of them.  An archive with such a record is the only one at which a run can
be given up, and it is given up there if it comes to the entry.
-/

namespace JvmCalls

namespace Walker

variable {State SinkFault : Type} {walker : Walker} {parallel : Bool}
variable {sink : Sink State SinkFault} {archive : Archive} {state : State}

/-- The walk, and the run with it, is given up. -/
def GivesUp (result : EStateM.Result (WalkFault SinkFault) State WalkStats) : Prop :=
  ∃ fault, Outcome.verdict result = .error (.read fault) ∧ fault.endsRun = true

theorem givesUp_iff {result : EStateM.Result (WalkFault SinkFault) State WalkStats} :
    GivesUp result ↔ ∃ fault final, result = .error (.read fault) final ∧ fault.endsRun = true := by
  constructor
  · rintro ⟨fault, hverdict, hends⟩
    cases result with
    | ok stats final => cases hverdict
    | error cause final =>
        cases hverdict
        exact ⟨fault, final, rfl, hends⟩
  · rintro ⟨fault, final, rfl, hends⟩
    exact ⟨fault, rfl, hends⟩

theorem givesUp_sequential_iff :
    GivesUp (walker.walkArchive false sink archive state) ↔
      ∃ index final, archive.IsBoundless index ∧
        (∀ read ∈ archive.entries.take index, walker.passes read = true) ∧
        sink.feed (walker.callsOf (archive.entries.take index)) state = .ok () final := by
  rw [givesUp_iff]
  constructor
  · rintro ⟨fault, final, hresult, hends⟩
    obtain ⟨before, after, hentries, hpasses, hfed⟩ := walk_eq_read_iff.mp hresult
    rw [if_neg Bool.false_ne_true] at hentries
    have htaken : archive.entries.take before.length = before := by
      rw [hentries, List.take_left]
    refine ⟨before.length, final, ?_, ?_, ?_⟩
    · exact Archive.exists_endsRun_iff.mp ⟨fault, Archive.entry_of_entries_eq hentries, hends⟩
    · rw [htaken]
      exact hpasses
    · rw [htaken]
      exact hfed
  · rintro ⟨index, final, ⟨record, data, hasks, hsize⟩, hpasses, hfed⟩
    obtain ⟨last, hresult, _⟩ := exists_walkArchive false (.boundless hasks hsize) hpasses hfed
    exact ⟨_, last, hresult, rfl⟩

theorem givesUp_parallel_of_sequential
    (hsequential : GivesUp (walker.walkArchive false sink archive state)) :
    GivesUp (walker.walkArchive true sink archive state) := by
  obtain ⟨index, final, ⟨record, data, hasks, hsize⟩, hpasses, hfed⟩ :=
    givesUp_sequential_iff.mp hsequential
  obtain ⟨last, hresult, _⟩ := exists_walkArchive true (.boundless hasks hsize) hpasses hfed
  exact givesUp_iff.mpr ⟨_, last, hresult, rfl⟩

theorem exists_isBoundless_of_givesUp
    (hgivesUp : GivesUp (walker.walkArchive parallel sink archive state)) :
    ∃ index, archive.IsBoundless index := by
  obtain ⟨fault, final, hresult, hends⟩ := givesUp_iff.mp hgivesUp
  obtain ⟨before, after, hreads, _⟩ := walk_eq_read_iff.mp hresult
  have hmem : .error fault ∈ archive.entries := by
    have hreached : .error fault ∈ before ++ .error fault :: after := by simp
    rw [← hreads] at hreached
    cases parallel with
    | false => exact hreached
    | true => exact Chunk.mem_of_mem_surviving hreached
  obtain ⟨index, hentry⟩ := Archive.exists_entry_of_mem_entries hmem
  exact ⟨index, Archive.exists_endsRun_iff.mp ⟨fault, hentry, hends⟩⟩

/-- When reading an entry, and a walk with it, does not return.  Reading an entry
returns unless more memory is asked for its content than a block can have.  So every
walk of an archive without such an entry returns, in both ways to walk and under both
policies.  One entry after another, a walk is given up exactly if it comes to such an
entry, and chunk by chunk it is then given up as well. -/
theorem returns_unless_boundless (archive : Archive) :
    (∀ index, (∃ fault, archive.entry index = .error fault ∧ fault.endsRun = true) ↔
      archive.IsBoundless index) ∧
    ∀ {State SinkFault : Type} (walker : Walker) (sink : Sink State SinkFault) (state : State),
      (∀ parallel, GivesUp (walker.walkArchive parallel sink archive state) →
        ∃ index, archive.IsBoundless index) ∧
      (GivesUp (walker.walkArchive false sink archive state) ↔
        ∃ index final, archive.IsBoundless index ∧
          (∀ read ∈ archive.entries.take index, walker.passes read = true) ∧
          sink.feed (walker.callsOf (archive.entries.take index)) state = .ok () final) ∧
      (GivesUp (walker.walkArchive false sink archive state) →
        GivesUp (walker.walkArchive true sink archive state)) :=
  ⟨fun _ => Archive.exists_endsRun_iff, fun _ _ _ =>
    ⟨fun _ => exists_isBoundless_of_givesUp, givesUp_sequential_iff,
      givesUp_parallel_of_sequential⟩⟩

end Walker

namespace Archive

def boundlessArchive : Archive where
  source := { data := Command.boundlessJar, path := none }
  records := #[{ classRecord "B.class" 0 0 0 0 with size := 0x8000000000000000 }]

theorem ofBytes_boundlessJar : ofBytes Command.boundlessJar = .ok boundlessArchive := by
  decide +kernel

/-- A run goes on behind an archive that cannot be opened. -/
theorem endsRun_of_ofPath_eq_error {path : String} {content : PathContent}
    {fault : ArchiveFault} (hopened : ofPath path content = .error fault) :
    fault.endsRun = false := by
  simp only [ofPath, load] at hopened
  split at hopened
  · cases hopened
    rfl
  · split at hopened
    · cases hopened
      rfl
    · split at hopened
      · cases hopened
        rfl
      · cases hopened

end Archive

namespace Walker

open Archive

theorem returns_unless_boundless_boundlessJar :
    let walker : Walker := { filter := .everything, policy := .skip }
    let sink : Sink Device OutputFault := lineSink .readable
    ofBytes Command.boundlessJar = .ok boundlessArchive ∧ boundlessArchive.IsBoundless 0 ∧
      GivesUp (walker.walkArchive false sink boundlessArchive Device.unlimited) ∧
      GivesUp (walker.walkArchive true sink boundlessArchive Device.unlimited) := by
  intro walker sink
  obtain ⟨hentries, hwalks⟩ := returns_unless_boundless boundlessArchive
  obtain ⟨_, hsequential, hparallel⟩ := hwalks walker sink Device.unlimited
  have hboundless : boundlessArchive.IsBoundless 0 :=
    (hentries 0).mp ⟨.excessiveSize "B.class" 0x8000000000000000, by decide +kernel, rfl⟩
  have hgivesUp := hsequential.mpr ⟨0, Device.unlimited, hboundless, nofun, rfl⟩
  exact ⟨ofBytes_boundlessJar, hboundless, hgivesUp, hparallel hgivesUp⟩

/-- Reading an entry does not return for every size that a record may claim. -/
theorem entry_boundlessJar_not_returns :
    ofBytes Command.boundlessJar = .ok boundlessArchive ∧
    boundlessArchive.entry 0 = .error (.excessiveSize "B.class" 0x8000000000000000) ∧
    ∀ policy ∈ [DecodePolicy.abort, DecodePolicy.skip], ∀ parallel ∈ [false, true],
      let walker : Walker := { filter := .everything, policy }
      let result := walker.walkArchive parallel (lineSink .readable) boundlessArchive
        Device.unlimited
      ∃ fault, Outcome.verdict result = .error (.read fault) ∧ fault.endsRun = true := by
  refine ⟨ofBytes_boundlessJar, by decide +kernel, ?_⟩
  intro policy hpolicy parallel hparallel
  have hresult : ∀ policy ∈ [DecodePolicy.abort, DecodePolicy.skip], ∀ parallel ∈ [false, true],
      Outcome.verdict ((Walker.mk .everything policy).walkArchive parallel (lineSink .readable)
        boundlessArchive Device.unlimited) =
        .error (.read (.excessiveSize "B.class" 0x8000000000000000)) := by
    decide +kernel
  exact ⟨_, hresult policy hpolicy parallel hparallel, rfl⟩

end Walker

namespace Command

/-- A run is given up only at an archive with an entry for which more memory is asked
than there can be. -/
theorem exists_isBoundless_of_isGivenUp {options : Options} {contentOf : String → PathContent}
    {path : String} (hgivenUp : isGivenUp options contentOf path = true) :
    ∃ archive index, Archive.ofPath path (contentOf path) = .ok archive ∧
      archive.IsBoundless index := by
  have hgivesUp : Walker.GivesUp (alone options contentOf path) := by
    rw [isGivenUp] at hgivenUp
    split at hgivenUp
    · next fault hverdict => exact ⟨fault, hverdict, hgivenUp⟩
    · cases hgivenUp
  rw [alone, extractPath] at hgivesUp
  cases hopened : Archive.ofPath path (contentOf path) with
  | error fault =>
      rw [hopened] at hgivesUp
      obtain ⟨cause, hverdict, hends⟩ := hgivesUp
      cases hverdict
      rw [Archive.endsRun_of_ofPath_eq_error hopened] at hends
      cases hends
  | ok archive =>
      rw [hopened] at hgivesUp
      change Walker.GivesUp (options.walker.walkArchive options.parallel options.sink archive
        Device.unlimited) at hgivesUp
      obtain ⟨index, hboundless⟩ := Walker.exists_isBoundless_of_givesUp hgivesUp
      exact ⟨archive, index, rfl, hboundless⟩

end Command

end JvmCalls

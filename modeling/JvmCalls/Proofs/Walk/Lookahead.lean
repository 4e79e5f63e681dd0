import JvmCalls.Proofs.Call.Extraction
import JvmCalls.Proofs.Outcome
import JvmCalls.Proofs.Walk.Chunked
import JvmCalls.Proofs.Walk.Loop
import JvmCalls.Proofs.Zip.Entry
import JvmCalls.Walk.Sinks

/-!
# Reading ahead

What the chunk loop still has to do at a moment is to visit some entries one after
another: those of the classes it holds, and of the entries that it did not yet read those
that survive.  A step leaves the outcome of that as it is, so that the loop does what the
chunked walk does.  With this go the bounds on what the loop has read and holds.
-/

namespace JvmCalls

variable {State SinkFault : Type}

namespace Archive

variable {archive : Archive} {index : Nat}

/-- The entries from one on are this entry and those behind it. -/
theorem drop_entries (hindex : index < archive.size) :
    archive.entries.drop index = archive.entry index :: archive.entries.drop (index + 1) := by
  have hlength : index < archive.entries.length := by
    rwa [entries, List.length_map, List.length_range]
  rw [List.drop_eq_getElem_cons hlength]
  simp only [entries, List.getElem_map, List.getElem_range]

theorem drop_entries_of_le (hsize : archive.size ≤ index) : archive.entries.drop index = [] := by
  apply List.drop_eq_nil_of_le
  rwa [entries, List.length_map, List.length_range]

end Archive

namespace Chunk

/-- Whether the run is given up at an entry of the chunk. -/
def isLost (chunk : Chunk) : Bool := chunk.fault.any ArchiveFault.endsRun

/-- The entries that the walk deals with from within a chunk that has room for some more
classes. -/
def survivingFrom (room : Nat) (reads : List EntryRead) : List EntryRead :=
  let chunk := read room reads
  match chunk.fault with
  | some fault => if fault.endsRun then [.error fault] else reads
  | none => reads.take (reads.length - chunk.rest.length) ++ surviving chunk.rest

theorem survivingFrom_full (reads : List EntryRead) :
    survivingFrom 0 reads = surviving reads := by
  simp only [survivingFrom, read, Nat.sub_self, List.take_zero, List.nil_append]

theorem survivingFrom_nil (room : Nat) : survivingFrom room [] = surviving [] := by
  cases room <;> rfl

theorem survivingFrom_capacity (reads : List EntryRead) :
    survivingFrom capacity reads = surviving reads := by
  cases reads with
  | nil => exact survivingFrom_nil capacity
  | cons first rest =>
      cases hchunk : read capacity (first :: rest) with
      | mk classes skipped fault unread =>
          cases fault <;> simp only [surviving, survivingFrom, hchunk]

/-- An entry that can be read is dealt with, unless the run is given up behind it. -/
theorem survivingFrom_cons {first : EntryRead} {rest : List EntryRead} {room left : Nat}
    (hfault : (read room (first :: rest)).fault = (read left rest).fault)
    (hrest : (read room (first :: rest)).rest = (read left rest).rest) :
    survivingFrom room (first :: rest) =
      if (read left rest).isLost then survivingFrom left rest
      else first :: survivingFrom left rest := by
  have hle := length_rest_read_le left rest
  simp only [survivingFrom, isLost, hfault, hrest]
  generalize read left rest = chunk at hle ⊢
  obtain ⟨classes, skipped, fault, unread⟩ := chunk
  cases fault with
  | none =>
      simp only [List.length_cons, Nat.succ_sub hle, List.take_succ_cons]
      rfl
  | some fault => cases hends : fault.endsRun <;> simp [hends]

/-- Behind a chunk at which the run is given up only its fault is left. -/
theorem exists_survivingFrom_of_isLost {room : Nat} {reads : List EntryRead}
    (hlost : (read room reads).isLost = true) :
    ∃ fault, survivingFrom room reads = [.error fault] := by
  simp only [survivingFrom]
  generalize read room reads = chunk at hlost ⊢
  obtain ⟨classes, skipped, fault, unread⟩ := chunk
  cases fault with
  | none => cases hlost
  | some fault => exact ⟨fault, if_pos hlost⟩

end Chunk

namespace Walker

variable (walker : Walker) (sink : Sink State SinkFault) (stats : WalkStats)

/-- A skipped entry may be counted before the entries in front of it. -/
theorem foldlM_visit_skipped (front rest : List EntryRead) (name : String) :
    (front ++ .ok (.skipped name) :: rest).foldlM (walker.visit sink) stats =
      (front ++ rest).foldlM (walker.visit sink) stats.countSkipped := by
  induction front generalizing stats with
  | nil =>
      rw [List.nil_append, List.foldlM_cons, visit, pure_bind]
      rfl
  | cons first front ih =>
      have hcount : ∀ stats : WalkStats, stats.countSkipped = (skips 1).add stats :=
        fun stats => addSkipped_eq_add stats 1
      rw [List.cons_append, List.cons_append, List.foldlM_cons, List.foldlM_cons, hcount,
        visit_add, bind_map_left]
      apply bind_congr
      intro next
      rw [ih, hcount]

/-- Nothing is visited behind an entry that cannot be read. -/
theorem foldlM_visit_error (front rest : List EntryRead) (fault : ArchiveFault) :
    (front ++ Except.error fault :: rest).foldlM (walker.visit sink) stats =
      (front ++ [Except.error fault]).foldlM (walker.visit sink) stats := by
  rw [List.foldlM_append, List.foldlM_append]
  apply bind_congr
  intro next
  rfl

end Walker

namespace Moment

/-- The result of the loop from a moment in a phase on. -/
def outcome (walker : Walker) (sink : Sink State SinkFault) (archive : Archive)
    (moment : Moment State SinkFault) :
    Phase State SinkFault → EStateM.Result (WalkFault SinkFault) State WalkStats :=
  let ahead := archive.entries.drop moment.index
  let visits := fun reads => List.foldlM (walker.visit sink) moment.stats reads moment.state
  fun
  | .choosing => visits (Chunk.surviving ahead)
  | .reading =>
      let room := Chunk.capacity - moment.held.length
      if (Chunk.read room ahead).isLost then visits (Chunk.survivingFrom room ahead)
      else visits (moment.held.map HeldClass.read ++ Chunk.survivingFrom room ahead)
  | .delivering none => visits (moment.held.map HeldClass.read ++ Chunk.surviving ahead)
  | .delivering (some fault) => visits (moment.held.map HeldClass.read ++ [.error fault])
  | .ended result => result

section Outcome

variable {walker : Walker} {sink : Sink State SinkFault} {archive : Archive}
variable {moment : Moment State SinkFault}

theorem outcome_take (hphase : moment.phase = .reading) (hindex : moment.index < archive.size)
    (hroom : moment.held.length < Chunk.capacity) :
    let next := moment.take (archive.entry moment.index)
    next.outcome walker sink archive next.phase = moment.outcome walker sink archive .reading := by
  obtain ⟨left, hleft⟩ : ∃ left, Chunk.capacity - moment.held.length = left + 1 :=
    ⟨Chunk.capacity - moment.held.length - 1, by omega⟩
  have hahead := Archive.drop_entries hindex
  generalize hrest : archive.entries.drop (moment.index + 1) = rest at hahead
  match hentry : archive.entry moment.index with
  | .ok (.skipped name) =>
      have hcons : Chunk.survivingFrom (left + 1) (.ok (.skipped name) :: rest) =
          if (Chunk.read (left + 1) rest).isLost then Chunk.survivingFrom (left + 1) rest
          else .ok (.skipped name) :: Chunk.survivingFrom (left + 1) rest :=
        Chunk.survivingFrom_cons rfl rfl
      have hsame : (Chunk.read (left + 1) (.ok (.skipped name) :: rest)).isLost =
          (Chunk.read (left + 1) rest).isLost := rfl
      simp only [Moment.take, hphase, outcome, hahead, hrest, hentry, hleft, hcons, hsame]
      by_cases hlost : (Chunk.read (left + 1) rest).isLost = true
      · obtain ⟨fault, hfault⟩ := Chunk.exists_survivingFrom_of_isLost hlost
        simp only [if_pos hlost, hfault]
        rfl
      · simp only [if_neg hlost, Walker.foldlM_visit_skipped]
  | .ok (.classFile name data) =>
      have hcons : Chunk.survivingFrom (left + 1) (.ok (.classFile name data) :: rest) =
          if (Chunk.read left rest).isLost then Chunk.survivingFrom left rest
          else .ok (.classFile name data) :: Chunk.survivingFrom left rest :=
        Chunk.survivingFrom_cons rfl rfl
      have hsame : (Chunk.read (left + 1) (.ok (.classFile name data) :: rest)).isLost =
          (Chunk.read left rest).isLost := rfl
      have hnext : Chunk.capacity - (moment.held.length + 1) = left := by omega
      simp only [Moment.take, hphase, outcome, hahead, hrest, hentry, hleft, hcons, hsame,
        List.length_append, List.length_singleton, hnext, List.map_append, List.map_singleton]
      by_cases hlost : (Chunk.read left rest).isLost = true
      · simp only [if_pos hlost]
      · simp only [if_neg hlost, HeldClass.read, List.append_assoc, List.singleton_append]
  | .error fault =>
      have hlost : (Chunk.read (left + 1) (.error fault :: rest)).isLost = fault.endsRun := rfl
      have hrests : Chunk.survivingFrom (left + 1) (.error fault :: rest) =
          if fault.endsRun then [.error fault] else .error fault :: rest := rfl
      by_cases hends : fault.endsRun = true
      · simp only [Moment.take, outcome, hahead, hentry, hleft, hlost, hrests, if_pos hends]
        rfl
      · simp only [Moment.take, outcome, hahead, hentry, hleft, hlost, hrests, if_neg hends,
          Walker.foldlM_visit_error]

/-- A chunk without room and one at the end of the archive lose nothing. -/
theorem outcome_full
    (hfull : ¬ (moment.index < archive.size ∧ moment.held.length < Chunk.capacity)) :
    moment.outcome walker sink archive (.delivering none) =
      moment.outcome walker sink archive .reading := by
  by_cases hindex : moment.index < archive.size
  · have hroom : Chunk.capacity - moment.held.length = 0 := by omega
    simp only [outcome, hroom, Chunk.survivingFrom_full, Chunk.isLost, Chunk.read,
      Option.any_none, Bool.false_eq_true, if_false]
  · have hahead := Archive.drop_entries_of_le (Nat.not_lt.mp hindex)
    simp only [outcome, hahead, Chunk.survivingFrom_nil]
    cases Chunk.capacity - moment.held.length <;> rfl

theorem outcome_closeChunk (hheld : moment.held = []) (fault : Option ArchiveFault) :
    let next := moment.closeChunk fault
    next.outcome walker sink archive next.phase =
      moment.outcome walker sink archive (.delivering fault) := by
  cases fault with
  | none => simp only [closeChunk, outcome, hheld, List.map_nil, List.nil_append]
  | some fault =>
      simp only [closeChunk, outcome, hheld, List.map_nil, List.nil_append]
      rfl

theorem outcome_handOn {fault : Option ArchiveFault} {item : HeldClass} {rest : List HeldClass}
    (hphase : moment.phase = .delivering fault) (hheld : moment.held = item :: rest) :
    let next := moment.handOn item rest
      (walker.deliverHeld sink moment.stats item moment.state)
    next.outcome walker sink archive next.phase =
      moment.outcome walker sink archive (.delivering fault) := by
  have hvisit : walker.visit sink moment.stats item.read moment.state =
      walker.deliverHeld sink moment.stats item moment.state := rfl
  cases hresult : walker.deliverHeld sink moment.stats item moment.state with
  | ok stats state =>
      have hfirst := hvisit.trans hresult
      cases fault <;> simp only [handOn, hphase, outcome, hheld, List.map_cons,
        List.cons_append, List.foldlM_cons, Outcome.run_bind_of_ok hfirst]
  | error flaw state =>
      have hfirst := hvisit.trans hresult
      cases fault <;> simp only [handOn, outcome, hheld, List.map_cons,
        List.cons_append, List.foldlM_cons, Outcome.run_bind_of_error hfirst]

/-- One step leaves the result as it is. -/
theorem Sound.outcome_advance (hsound : moment.Sound walker sink archive) :
    let next := walker.advance sink archive moment
    next.outcome walker sink archive next.phase =
      moment.outcome walker sink archive moment.phase := by
  cases hphase : moment.phase with
  | choosing =>
      obtain ⟨hheld, _⟩ : moment.Suits walker sink archive .choosing := hphase ▸ hsound.suits
      simp only [Walker.advance, hphase]
      split
      · simp only [outcome, hheld, List.length_nil, Nat.sub_zero, List.map_nil, List.nil_append,
          Chunk.survivingFrom_capacity, ite_self]
      · next hend =>
          simp only [outcome, Archive.drop_entries_of_le (Nat.not_lt.mp hend), Chunk.surviving]
          rfl
  | reading =>
      simp only [Walker.advance, hphase]
      split
      · next hmore => exact outcome_take hphase hmore.1 hmore.2
      · next hfull => exact outcome_full hfull
  | delivering fault =>
      simp only [Walker.advance, hphase]
      cases hheld : moment.held with
      | nil => exact outcome_closeChunk hheld fault
      | cons item rest => exact outcome_handOn hphase hheld
  | ended result => simp only [Walker.advance, hphase]

/-- The result of the loop is that of the chunked walk. -/
theorem outcome_momentAfter (walker : Walker) (sink : Sink State SinkFault) (archive : Archive)
    (state : State) (count : Nat) :
    let moment := walker.momentAfter sink archive state count
    moment.outcome walker sink archive moment.phase =
      walker.walkArchive true sink archive state := by
  induction count with
  | zero =>
      rw [Walker.walkArchive, Walker.walk, if_pos rfl, if_pos rfl, Walker.chunked,
        Walker.chunkedFrom_eq_foldlM]
      rfl
  | succ count ih =>
      exact (sound_momentAfter walker sink archive state count).outcome_advance.trans ih

end Outcome

end Moment

/-- The chunk loop makes progress and is bounded.  For every archive and sink it ends, with
the result of the chunked walk.  At every moment the entries before the next one were read
in order, each of them once, and nothing behind an entry that cannot be read.  The chunk
holds at most 64 classes, and none where it is decided whether there is another chunk.
The classes that were read are those handed on and behind them those held, and the ones
handed on begin with all classes before the chunk.  In front of every entry of the chunk
that was read it had fewer than 64 classes.  The loop ends with all classes handed on that
were read, unless one of them was refused or the run is given up at an entry. -/
theorem Walker.chunk_loop_bounded (walker : Walker) (sink : Sink State SinkFault)
    (archive : Archive) (state : State) :
    (∃ count ≤ 5 * archive.size + 1, (walker.momentAfter sink archive state count).phase =
      .ended (walker.walkArchive true sink archive state)) ∧
    ∀ count,
      let moment := walker.momentAfter sink archive state count
      moment.read = List.range moment.index ∧ moment.index ≤ archive.size ∧
      archive.ReadableBelow (moment.index - 1) ∧
      moment.held.length ≤ Chunk.capacity ∧ (moment.phase = .choosing → moment.held = []) ∧
      moment.delivered ++ moment.held.map HeldClass.index =
        archive.classesBefore moment.index ∧
      archive.classesBefore moment.chunkStart <+: moment.delivered ∧
      (∀ index, moment.chunkStart ≤ index → index < moment.index →
        (archive.classesBefore index).length <
          (archive.classesBefore moment.chunkStart).length + Chunk.capacity) ∧
      ∀ result, moment.phase = .ended result → moment.Concludes walker sink archive result := by
  constructor
  · obtain ⟨count, hcount, result, hended⟩ := Moment.exists_ended walker sink archive state
    have hresult : (walker.momentAfter sink archive state count).outcome walker sink archive
        (.ended result) = walker.walkArchive true sink archive state :=
      hended ▸ Moment.outcome_momentAfter walker sink archive state count
    exact ⟨count, hcount, hended.trans (congrArg _ hresult)⟩
  · intro count
    have hsound := Moment.sound_momentAfter walker sink archive state count
    refine ⟨hsound.read, hsound.within, hsound.readable, hsound.capacity, fun hphase => ?_,
      hsound.account, hsound.behind, hsound.ahead, fun result hphase => ?_⟩
    · exact (hphase ▸ hsound.suits : Moment.Suits walker sink archive _ .choosing).1
    · exact (hphase ▸ hsound.suits : Moment.Suits walker sink archive _ (.ended result))

namespace Archive

/-- The bytes of an archive with the class `ClassFile.callingClass` and behind it an empty
entry `B.class`, whose record claims a size of half the address space. -/
def lostJar : Bytes :=
  callingEntry ++ emptyEntry ++ callingRecord ++ boundlessRecord 0x91 ++ endRecord 2 118 0xB6

def lostArchive : Archive where
  source := { data := lostJar, path := none }
  records := #[classRecord "A.class" 0 0x2F07A6CD 108 0,
    { classRecord "B.class" 0 0 0 145 with size := 0x8000000000000000 }]

set_option maxRecDepth 4000 in
theorem ofBytes_lostJar : ofBytes lostJar = .ok lostArchive := by
  decide +kernel

end Archive

namespace Walker

set_option maxRecDepth 4000 in
/-- A class that was read may be lost although no class was refused. -/
theorem chunk_loop_loses_class :
    Archive.ofBytes Archive.lostJar = .ok Archive.lostArchive ∧
    Archive.lostArchive.entry 0 = .ok (.classFile "A.class" ClassFile.callingClass) ∧
    ∀ policy, ∃ count fault final,
      let moment := (Walker.mk .everything policy).momentAfter (lineSink .readable)
        Archive.lostArchive Device.unlimited count
      moment.read = [0, 1] ∧ moment.delivered = [] ∧
        moment.phase = .ended (.error (.read fault) final) := by
  have hclass : Archive.lostArchive.entry 0 =
      .ok (.classFile "A.class" ClassFile.callingClass) := by
    decide +kernel
  have hboundless : Archive.lostArchive.entry 1 =
      .error (.excessiveSize "B.class" 0x8000000000000000) := by
    decide +kernel
  refine ⟨Archive.ofBytes_lostJar, hclass, fun policy => ?_⟩
  refine ⟨3, .excessiveSize "B.class" 0x8000000000000000, Device.unlimited, ?_⟩
  have hsize : Archive.lostArchive.size = 2 := rfl
  simp [momentAfter, advance, Moment.start, Moment.take, hsize, hclass, hboundless, Chunk.capacity,
    ArchiveFault.endsRun]

end Walker

end JvmCalls

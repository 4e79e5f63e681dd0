import JvmCalls.Proofs.Walk.Counts
import JvmCalls.Proofs.Walk.Recorded
import JvmCalls.Proofs.Zip.Entry

/-!
# Chunked walks are sequential walks

Reading ahead changes neither what a sink receives nor how a walk ends.  The
walk of one chunk followed by the sequential walk of the remaining entries is
the sequential walk of all of them, for a chunk of any size and wherever it
ends: in front of a class, behind skipped entries, at an entry that cannot be
read or at the end of the archive.  Only a run that is given up in the middle of
a chunk loses what was read into it.
-/

namespace JvmCalls

namespace Chunk

theorem rest_read_suffix (room : Nat) (reads : List EntryRead) :
    (read room reads).rest <:+ reads := by
  fun_induction read room reads with
  | case1 reads => exact List.suffix_rfl
  | case2 room => exact List.suffix_rfl
  | case3 room fault rest => exact List.suffix_cons _ _
  | case4 room name rest chunk ih => exact ih.trans (List.suffix_cons _ _)
  | case5 room name data rest chunk ih => exact ih.trans (List.suffix_cons _ _)

theorem mem_of_fault_read {room : Nat} {reads : List EntryRead} {fault : ArchiveFault}
    (hfault : (read room reads).fault = some fault) : .error fault ∈ reads := by
  fun_induction read room reads with
  | case1 reads => cases hfault
  | case2 room => cases hfault
  | case3 room other rest =>
      cases hfault
      exact List.mem_cons_self
  | case4 room name rest chunk ih => exact List.mem_cons_of_mem _ (ih hfault)
  | case5 room name data rest chunk ih => exact List.mem_cons_of_mem _ (ih hfault)

/-- The entries that a chunk takes are those in front of the rest. -/
theorem take_of_rest (taken rest : List EntryRead) :
    (taken ++ rest).take ((taken ++ rest).length - rest.length) = taken := by
  rw [List.length_append, Nat.add_sub_cancel, List.take_left]

/-- All entries survive unless the run is given up at one of them. -/
theorem surviving_eq_self {reads : List EntryRead}
    (hkept : ∀ fault, .error fault ∈ reads → fault.endsRun = false) :
    surviving reads = reads := by
  fun_induction surviving reads with
  | case1 => rfl
  | case2 first rest chunk fault hfault hends =>
      rw [hkept fault (mem_of_fault_read hfault)] at hends
      cases hends
  | case3 => rfl
  | case4 first rest chunk hfault ih =>
      have hsuffix : chunk.rest <:+ first :: rest := rest_read_suffix capacity (first :: rest)
      rw [ih (fun fault hmem => hkept fault (hsuffix.mem hmem))]
      obtain ⟨taken, htaken⟩ := hsuffix
      rw [← htaken, take_of_rest]

end Chunk

namespace Walker

variable {State SinkFault : Type}

/-- The counts of a chunk whose entries are no classes. -/
def skips (count : Nat) : WalkStats := { WalkStats.zero with skippedEntries := count }

theorem addSkipped_eq_add (stats : WalkStats) (count : Nat) :
    { stats with skippedEntries := stats.skippedEntries + count } = (skips count).add stats := by
  apply WalkStats.ext <;> simp [skips, WalkStats.add, WalkStats.zero, Nat.add_comm]

/-- A chunk without classes that was read without a fault leaves the sink
alone. -/
theorem deliverChunk_empty (walker : Walker) (sink : Sink State SinkFault)
    (rest : List EntryRead) (stats : WalkStats) :
    walker.deliverChunk sink { classes := [], skipped := 0, fault := none, rest } stats =
      pure stats := rfl

/-- The fault of a chunk without classes ends the walk. -/
theorem deliverChunk_fault (walker : Walker) (sink : Sink State SinkFault)
    (fault : ArchiveFault) (rest : List EntryRead) (stats : WalkStats) :
    walker.deliverChunk sink { classes := [], skipped := 0, fault := some fault, rest } stats =
      throw (.read fault) := rfl

/-- A skipped entry may be counted before its chunk. -/
theorem deliverChunk_skipped (walker : Walker) (sink : Sink State SinkFault)
    (chunk : Chunk) (stats : WalkStats) :
    walker.deliverChunk sink { chunk with skipped := chunk.skipped + 1 } stats =
      walker.deliverChunk sink chunk stats.countSkipped := by
  have hcount : stats.skippedEntries + (chunk.skipped + 1) =
      stats.countSkipped.skippedEntries + chunk.skipped := by
    simp only [WalkStats.countSkipped]
    omega
  simp only [deliverChunk, hcount]
  rfl

/-- The first class of a chunk may be visited before the rest of it. -/
theorem deliverChunk_class (walker : Walker) (sink : Sink State SinkFault)
    (name : String) (data : Bytes) (chunk : Chunk) (stats : WalkStats) :
    walker.deliverChunk sink { chunk with classes := (name, data) :: chunk.classes } stats =
      walker.visit sink stats (.ok (.classFile name data)) >>=
        walker.deliverChunk sink chunk := by
  have hfirst : walker.deliverNext sink ((skips chunk.skipped).add stats)
      (name, callsOfBytes walker.filter data) =
        (skips chunk.skipped).add <$>
          walker.visit sink stats (.ok (.classFile name data)) := by
    simp only [deliverNext, visit, WalkStats.countClass_add]
    exact deliver_add walker sink name _ _ _
  simp only [deliverChunk, List.map_cons, List.foldlM_cons, addSkipped_eq_add]
  rw [hfirst, bind_map_left, bind_assoc]
  apply bind_congr
  intro next
  simp only [deliverChunk, addSkipped_eq_add]

/-- The walk of a chunk and then of the remaining entries is the walk of all
entries, whatever the room of the chunk is. -/
theorem deliverChunk_read (walker : Walker) (sink : Sink State SinkFault) (room : Nat)
    (reads : List EntryRead) (stats : WalkStats) :
    (walker.deliverChunk sink (Chunk.read room reads) stats >>= fun final =>
        (Chunk.read room reads).rest.foldlM (walker.visit sink) final) =
      reads.foldlM (walker.visit sink) stats := by
  fun_induction Chunk.read room reads generalizing stats with
  | case1 reads => rw [deliverChunk_empty, pure_bind]
  | case2 room => rw [deliverChunk_empty, pure_bind]
  | case3 room fault rest =>
      rw [deliverChunk_fault, List.foldlM_cons]
      rfl
  | case4 room name rest chunk ih =>
      rw [deliverChunk_skipped, List.foldlM_cons, visit, pure_bind]
      exact ih stats.countSkipped
  | case5 room name data rest chunk ih =>
      rw [deliverChunk_class, bind_assoc, List.foldlM_cons]
      exact bind_congr ih

/-- Walking chunk by chunk from given counts on is walking entry by entry. -/
theorem chunkedFrom_eq_foldlM (walker : Walker) (sink : Sink State SinkFault)
    (reads : List EntryRead) (stats : WalkStats) :
    walker.chunkedFrom sink reads stats = reads.foldlM (walker.visit sink) stats := by
  fun_induction chunkedFrom walker sink reads stats with
  | case1 stats => rfl
  | case2 stats first rest chunk ih =>
      rw [← deliverChunk_read walker sink Chunk.capacity (first :: rest) stats]
      exact bind_congr ih

theorem chunked_eq_sequential (walker : Walker) (sink : Sink State SinkFault)
    (reads : List EntryRead) :
    walker.chunked sink reads = walker.sequential sink reads :=
  chunkedFrom_eq_foldlM walker sink reads WalkStats.zero

/-- Both ways to walk are one walk. -/
theorem walk_eq_sequential (walker : Walker) (parallel : Bool)
    (sink : Sink State SinkFault) (reads : List EntryRead) :
    walker.walk parallel sink reads = walker.sequential sink reads := by
  cases parallel with
  | false => rfl
  | true => exact chunked_eq_sequential walker sink reads

/-- A recorded walk is the walk with the given sink and its calls, in both
ways to walk. -/
theorem records_walk (walker : Walker) (parallel : Bool) (sink : Sink State SinkFault)
    (reads : List EntryRead) :
    Records (walker.walk parallel sink.recorded reads) (walker.walk parallel sink reads) := by
  rw [walk_eq_sequential, walk_eq_sequential]
  exact records_visits walker sink WalkStats.zero reads

/-- Reading an archive ahead loses nothing unless more memory is asked for an entry than a
block can have. -/
theorem walkArchive_eq_sequential (walker : Walker) (parallel : Bool)
    (sink : Sink State SinkFault) {archive : Archive}
    (hbounded : ∀ index, ¬ archive.IsBoundless index) :
    walker.walkArchive parallel sink archive = walker.sequential sink archive.entries := by
  have hkept : ∀ fault, .error fault ∈ archive.entries → fault.endsRun = false := by
    intro fault hmem
    obtain ⟨index, hentry⟩ := Archive.exists_entry_of_mem_entries hmem
    rw [← Bool.not_eq_true]
    exact fun hends => hbounded index (Archive.exists_endsRun_iff.mp ⟨fault, hentry, hends⟩)
  rw [walkArchive, walk_eq_sequential, Chunk.surviving_eq_self hkept, ite_self]

/-- Without such an entry both ways to walk an archive are one walk, for every sink and so
also for the one that notes the calls. -/
theorem walkArchive_parallel_eq (walker : Walker) (sink : Sink State SinkFault)
    {archive : Archive} (hbounded : ∀ index, ¬ archive.IsBoundless index) :
    walker.walkArchive true sink archive = walker.walkArchive false sink archive := by
  rw [walkArchive_eq_sequential walker true sink hbounded,
    walkArchive_eq_sequential walker false sink hbounded]

/-- The chunked walk refines the sequential one.  For every archive, filter,
policy and sink, both end with the same counts or the same fault and leave the
sink in the same state.  They also make the same calls in the same order: the
recorded sink, which notes them behind `calls` and otherwise is the given sink,
ends with the same notes. -/
theorem chunked_refines_sequential (walker : Walker) (sink : Sink State SinkFault)
    (reads : List EntryRead) (state : State) (calls : List SinkCall) :
    walker.walk true sink reads state = walker.walk false sink reads state ∧
      walker.walk true sink.recorded reads (state, calls) =
        walker.walk false sink.recorded reads (state, calls) ∧
      ∀ parallel, forgetCalls (walker.walk parallel sink.recorded reads (state, calls)) =
        walker.walk parallel sink reads state := by
  refine ⟨?_, ?_, ?_⟩
  · rw [walk_eq_sequential, walk_eq_sequential]
  · rw [walk_eq_sequential, walk_eq_sequential]
  · intro parallel
    exact records_walk walker parallel sink reads (state, calls)

end Walker

end JvmCalls

import JvmCalls.Proofs.Instruction.Stream

/-!
# Instructions between two cursors

`Instruction.Passes` relates two cursors in the code of a method to the
instructions that stand between them.  Decoding passes over as many
instructions as it can: it succeeds if that takes it to the end of the code,
and otherwise fails with the fault of the instruction that it cannot read.
What holds of single instructions in two codes carries over to such passages.
-/

namespace JvmCalls.Instruction

/-- The instructions stand one after another from the first cursor to the
second one. -/
inductive Passes : Cursor → List Instruction → Cursor → Prop
  | done {cursor : Cursor} : Passes cursor [] cursor
  | step {cursor next last : Cursor} {instruction : Instruction} {rest : List Instruction}
      (hread : decode cursor = .ok instruction next) (hrest : Passes next rest last) :
      Passes cursor (instruction :: rest) last

def stop (instruction : Instruction) : Nat := instruction.offset + instruction.size

theorem stop_of_decode {cursor next : Cursor} {instruction : Instruction}
    (hread : decode cursor = .ok instruction next) : instruction.stop = next.position := by
  obtain ⟨first, start, _, hbody⟩ := decode_eq_ok hread
  obtain ⟨hoffset, hsize, _⟩ := decodeBody_eq_ok hbody
  have hmoved := (position_lt_of_decode hread).2
  rw [stop, hoffset, hsize]
  omega

namespace Passes

variable {cursor middle last : Cursor} {instructions left right : List Instruction}

theorem append (hleft : Passes cursor left middle) (hright : Passes middle right last) :
    Passes cursor (left ++ right) last := by
  induction hleft with
  | done => exact hright
  | step hread _ ih => exact .step hread (ih hright)

theorem data_eq (hpasses : Passes cursor instructions last) : last.data = cursor.data := by
  induction hpasses with
  | done => rfl
  | step hread _ ih => exact ih.trans (position_lt_of_decode hread).1

theorem position_le (hpasses : Passes cursor instructions last) :
    cursor.position ≤ last.position := by
  induction hpasses with
  | done => exact Nat.le_refl _
  | step hread _ ih => exact Nat.le_trans (Nat.le_of_lt (position_lt_of_decode hread).2) ih

/-- Every instruction that is passed ends behind the first cursor and not behind
the last one. -/
theorem stop_between (hpasses : Passes cursor instructions last) :
    ∀ instruction ∈ instructions,
      cursor.position < instruction.stop ∧ instruction.stop ≤ last.position := by
  induction hpasses with
  | done =>
      intro instruction hmem
      cases hmem
  | step hread hrest ih =>
      have hmoved := (position_lt_of_decode hread).2
      intro instruction hmem
      rcases List.mem_cons.mp hmem with rfl | hlater
      · rw [stop_of_decode hread]
        exact ⟨hmoved, hrest.position_le⟩
      · obtain ⟨hbehind, hwithin⟩ := ih instruction hlater
        exact ⟨Nat.lt_trans hmoved hbehind, hwithin⟩

/-- The last cursor stands behind one of the instructions, unless there are
none. -/
theorem eq_or_exists_stop (hpasses : Passes cursor instructions last) :
    last.position = cursor.position ∨
      ∃ instruction ∈ instructions, instruction.stop = last.position := by
  induction hpasses with
  | done => exact .inl rfl
  | @step cursor next last instruction rest hread _ ih =>
      apply Or.inr
      rcases ih with hsame | ⟨later, hmem, hstop⟩
      · exact ⟨instruction, List.mem_cons_self, (stop_of_decode hread).trans hsame.symm⟩
      · exact ⟨later, List.mem_cons_of_mem _ hmem, hstop⟩

/-- Up to any position, the instructions that end there or before stand one
after another.  If they do not take up all bytes, then the position is inside of
the next one. -/
theorem exists_cut (hpasses : Passes cursor instructions last) {cut : Nat}
    (hstart : cursor.position ≤ cut) (hend : cut ≤ last.position) :
    ∃ middle,
      Passes cursor (instructions.filter (fun instruction => instruction.stop ≤ cut)) middle ∧
      middle.position ≤ cut ∧
      (middle.position < cut → ∃ instruction next,
        decode middle = .ok instruction next ∧ cut < next.position) := by
  induction hpasses with
  | @done cursor => exact ⟨cursor, .done, hstart, by omega⟩
  | @step cursor next last instruction rest hread hrest ih =>
      have hstop := stop_of_decode hread
      by_cases hinside : next.position ≤ cut
      · obtain ⟨middle, hpassed, hmiddle⟩ := ih hinside hend
        refine ⟨middle, ?_, hmiddle⟩
        rw [List.filter_cons_of_pos (by simpa [hstop])]
        exact .step hread hpassed
      · have hbehind : cut < next.position := Nat.lt_of_not_le hinside
        refine ⟨cursor, ?_, hstart, fun _ => ⟨instruction, next, hread, hbehind⟩⟩
        rw [List.filter_eq_nil_iff.mpr]
        · exact .done
        · intro later hmem
          rw [decide_eq_true_eq, Nat.not_le]
          rcases List.mem_cons.mp hmem with rfl | hlater
          · rwa [hstop]
          · exact Nat.lt_trans hbehind (hrest.stop_between later hlater).1

/-- If the instructions that are read at some cursors are read at related ones,
too, up to a conversion, then the same holds of all that are passed.  Only those
up to the last cursor count. -/
theorem follow (related : Cursor → Cursor → Prop) (convert : Instruction → Instruction)
    (hpasses : Passes cursor instructions last)
    (hstep : ∀ {start other instruction next}, related start other →
      decode start = .ok instruction next → next.position ≤ last.position →
      ∃ stop, decode other = .ok (convert instruction) stop ∧ related next stop)
    {other : Cursor} (hrelated : related cursor other) :
    ∃ stop, Passes other (instructions.map convert) stop ∧ related last stop := by
  induction hpasses generalizing other with
  | done => exact ⟨other, .done, hrelated⟩
  | step hread hrest ih =>
      obtain ⟨middle, hfirst, hmiddle⟩ := hstep hrelated hread hrest.position_le
      obtain ⟨stop, hpassed, hstop⟩ := ih hstep hmiddle
      exact ⟨stop, .step hfirst hpassed, hstop⟩

end Passes

theorem reads_iff_passes {cursor : Cursor} {instructions : List Instruction} :
    Reads cursor instructions ↔ ∃ last, Passes cursor instructions last ∧ last.atEnd = true := by
  constructor
  · intro hreads
    induction hreads with
    | done hend => exact ⟨_, .done, hend⟩
    | step hread _ ih =>
        obtain ⟨last, hpasses, hend⟩ := ih
        exact ⟨last, .step hread hpasses, hend⟩
  · rintro ⟨last, hpasses, hend⟩
    induction hpasses with
    | done => exact .done hend
    | step hread _ ih => exact .step hread (ih hend)

/-- Decoding fails if it passes over some instructions to one that it cannot
read. -/
theorem complete_collect_eq_error_iff {cursor : Cursor} {before : List Instruction}
    {fault : Fault} :
    (Disassembly.collect cursor before).complete = .error fault ↔
      ∃ instructions last stop, Passes cursor instructions last ∧ last.atEnd = false ∧
        decode last = .error fault stop := by
  fun_induction Disassembly.collect cursor before with
  | case1 cursor before hend =>
      simp only [Disassembly.complete, reduceCtorEq, false_iff]
      rintro ⟨instructions, last, stop, hpasses, hmore, _⟩
      cases hpasses with
      | done => simp [hmore] at hend
      | step hread => simp [atEnd_eq_false_of_decode hread] at hend
  | case2 cursor before hmore instruction next hread ih =>
      rw [ih]
      constructor
      · rintro ⟨instructions, last, stop, hpasses, hfault⟩
        exact ⟨instruction :: instructions, last, stop, .step hread hpasses, hfault⟩
      · rintro ⟨instructions, last, stop, hpasses, hstuck, hfault⟩
        cases hpasses with
        | done =>
            rw [hread] at hfault
            cases hfault
        | step hother hrest =>
            rw [hread] at hother
            cases hother
            exact ⟨_, last, stop, hrest, hstuck, hfault⟩
  | case3 cursor before hmore found stop hread =>
      simp only [Disassembly.complete, Except.error.injEq]
      constructor
      · rintro rfl
        exact ⟨[], cursor, stop, .done, Bool.eq_false_iff.mpr hmore, hread⟩
      · rintro ⟨instructions, last, stop, hpasses, _, hfault⟩
        cases hpasses with
        | done =>
            rw [hread] at hfault
            cases hfault
            rfl
        | step hother =>
            rw [hread] at hother
            cases hother

theorem decodeAll_eq_ok_iff_passes {code : Bytes} {instructions : List Instruction} :
    decodeAll code = .ok instructions ↔
      ∃ last, Passes (.start code) instructions last ∧ last.atEnd = true := by
  rw [decodeAll_eq_ok_iff, reads_iff_passes]

theorem decodeAll_eq_error_iff {code : Bytes} {fault : Fault} :
    decodeAll code = .error fault ↔
      ∃ instructions last stop, Passes (.start code) instructions last ∧ last.atEnd = false ∧
        decode last = .error fault stop :=
  complete_collect_eq_error_iff

end JvmCalls.Instruction

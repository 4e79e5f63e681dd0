import JvmCalls.Instruction.Decode
import JvmCalls.Instruction.InvokeKind
import JvmCalls.Proofs.Bytes.Ensures

/-!
# Streams of instructions

`Instruction.Reads` relates a cursor to the instructions that stand between it
and the end of the code, and `decodeAll` finds exactly these.  Two facts about
every stream follow by induction on it: its offsets ascend, and an instruction
has a constant pool index exactly if its opcode asks for one.  The opcodes of
the four kinds of invocations do.
-/

namespace JvmCalls

def OperandKind.isIndexed : OperandKind → Bool
  | .constant8 | .constant16 | .interfaceCall | .dynamicCall | .arrayCreation => true
  | _ => false

/-- All invocations name their method by an index into the constant pool. -/
theorem InvokeKind.isIndexed_of_ofByte? {opcode : Opcode} {kind : InvokeKind}
    (hkind : InvokeKind.ofByte? opcode.byte = some kind) :
    opcode.info.operand.isIndexed = true := by
  have hbyte : kind.byte = opcode.byte := InvokeKind.ofByte?_eq_some_iff.mp hkind
  obtain ⟨byte, hassigned⟩ := opcode
  subst hbyte
  cases kind with
  | virtual => rfl
  | special => rfl
  | static => rfl
  | interface => rfl

namespace Operand

open Decoder

/-- The operand that is read behind an opcode has a constant pool index exactly
if the layout of the opcode has one. -/
theorem ensures_decode (offset : Nat) (wide : Bool) (opcode : Opcode) :
    Ensures (decode offset wide opcode)
      (fun operand => operand.constantIndex?.isSome = opcode.info.operand.isIndexed) := by
  rw [decode.eq_def]
  cases opcode.info.operand with
  | empty => exact ensures_pure rfl
  | int8 => exact ensures_then (fun _ => ensures_pure rfl)
  | int16 => exact ensures_then (fun _ => ensures_pure rfl)
  | uint8 => exact ensures_then (fun _ => ensures_pure rfl)
  | slot => exact ensures_then (fun _ => ensures_pure rfl)
  | constant8 => exact ensures_then (fun _ => ensures_pure rfl)
  | constant16 => exact ensures_then (fun _ => ensures_pure rfl)
  | branch16 => exact ensures_then (fun _ => ensures_pure rfl)
  | branch32 => exact ensures_then (fun _ => ensures_pure rfl)
  | increment => exact ensures_then (fun _ => ensures_then (fun _ => ensures_pure rfl))
  | interfaceCall =>
      exact ensures_then (fun _ => ensures_then (fun _ => ensures_then (fun _ =>
        ensures_pure rfl)))
  | dynamicCall => exact ensures_then (fun _ => ensures_then (fun _ => ensures_pure rfl))
  | arrayCreation => exact ensures_then (fun _ => ensures_then (fun _ => ensures_pure rfl))
  | tableSwitch =>
      refine ensures_then (fun _ => ensures_then (fun default => ensures_then (fun low =>
        ensures_then (fun high => ?_))))
      split
      · exact ensures_throw _ _
      · exact ensures_then (fun _ => ensures_then (fun _ => ensures_pure rfl))
  | lookupSwitch =>
      refine ensures_then (fun _ => ensures_then (fun default => ensures_then (fun count => ?_)))
      split
      · exact ensures_throw _ _
      · exact ensures_then (fun _ => ensures_then (fun _ => ensures_pure rfl))
  | wide => exact ensures_throw _ _

end Operand

namespace Instruction

theorem checkOffset_eq_ok {offset : Nat} {cursor next : Cursor}
    (hcheck : checkOffset offset cursor = .ok () next) : next = cursor := by
  simp only [checkOffset] at hcheck
  split at hcheck
  · cases hcheck
    rfl
  · cases hcheck

theorem opcodeOf_eq_ok {offset : Nat} {byte : UInt8} {opcode : Opcode}
    {cursor next : Cursor} (hopcode : opcodeOf offset byte cursor = .ok opcode next) :
    Opcode.ofByte? byte = some opcode ∧ next = cursor := by
  simp only [opcodeOf] at hopcode
  cases hfound : Opcode.ofByte? byte with
  | none =>
      rw [hfound] at hopcode
      cases hopcode
  | some found =>
      rw [hfound] at hopcode
      cases hopcode
      exact ⟨rfl, rfl⟩

/-- What is known of an instruction that was read at `offset` from its first
byte on: the opcode stands behind the mark of the wide form or is the first
byte, and the operand ends where the instruction does. -/
theorem decodeBody_eq_ok {offset : Nat} {first : UInt8} {cursor next : Cursor}
    {instruction : Instruction} (hread : decodeBody offset first cursor = .ok instruction next) :
    instruction.offset = offset ∧
      instruction.size = next.position - offset ∧
      instruction.wide = (first == Opcode.wideByte) ∧
      (instruction.wide = true → instruction.opcode.isWidenable = true) ∧
      ∃ byte middle, opcodeByte instruction.wide first cursor = .ok byte middle ∧
        Opcode.ofByte? byte = some instruction.opcode ∧
        Operand.decode offset instruction.wide instruction.opcode middle =
          .ok instruction.operand next := by
  obtain ⟨byte, start, hbyte, htail⟩ := Outcome.run_bind_eq_ok_iff.mp hread
  obtain ⟨opcode, same, hopcode, hchecked⟩ := Outcome.run_bind_eq_ok_iff.mp htail
  obtain ⟨hassigned, rfl⟩ := opcodeOf_eq_ok hopcode
  split at hchecked
  · cases hchecked
  · next hwide =>
      obtain ⟨operand, stop, hoperand, hsized⟩ := Outcome.run_bind_eq_ok_iff.mp hchecked
      obtain ⟨finish, last, hfinish, hlast⟩ := Outcome.run_bind_eq_ok_iff.mp hsized
      cases hfinish
      obtain ⟨_, final, hsize, hresult⟩ := Outcome.run_bind_eq_ok_iff.mp hlast
      have hfinal := checkOffset_eq_ok hsize
      subst hfinal
      cases hresult
      have hwidenable : first = Opcode.wideByte → opcode.isWidenable = true := by
        simpa using hwide
      refine ⟨rfl, rfl, rfl, ?_, byte, same, hbyte, hassigned, hoperand⟩
      intro hmarked
      exact hwidenable (by simpa using hmarked)

/-- An instruction is read from its first byte on, and its offset is the
position it is read at. -/
theorem decode_eq_ok {cursor next : Cursor} {instruction : Instruction}
    (hread : decode cursor = .ok instruction next) :
    ∃ first start, Decoder.uint8 cursor = .ok first start ∧
      decodeBody cursor.position first start = .ok instruction next := by
  obtain ⟨offset, same, hoffset, hchecked⟩ := Outcome.run_bind_eq_ok_iff.mp hread
  cases hoffset
  obtain ⟨_, checked, hcheck, hbody⟩ := Outcome.run_bind_eq_ok_iff.mp hchecked
  have hsame := checkOffset_eq_ok hcheck
  subst hsame
  exact Outcome.run_bind_eq_ok_iff.mp hbody

theorem offset_of_decode {cursor next : Cursor} {instruction : Instruction}
    (hread : decode cursor = .ok instruction next) : instruction.offset = cursor.position := by
  obtain ⟨first, start, _, hbody⟩ := decode_eq_ok hread
  exact (decodeBody_eq_ok hbody).1

/-- An instruction that was read has a constant pool index exactly if its
opcode asks for one. -/
theorem isSome_constantIndex? {cursor next : Cursor} {instruction : Instruction}
    (hread : decode cursor = .ok instruction next) :
    instruction.operand.constantIndex?.isSome = instruction.opcode.info.operand.isIndexed := by
  obtain ⟨first, start, _, hbody⟩ := decode_eq_ok hread
  obtain ⟨_, _, _, _, byte, middle, _, _, hoperand⟩ := decodeBody_eq_ok hbody
  exact Operand.ensures_decode _ _ _ hoperand

theorem atEnd_eq_false_of_decode {cursor next : Cursor} {instruction : Instruction}
    (hread : decode cursor = .ok instruction next) : cursor.atEnd = false := by
  have hshorter := decode_shortens hread
  rw [Cursor.atEnd, List.isEmpty_eq_false_iff_exists_mem]
  exact List.exists_mem_of_length_pos (Nat.zero_lt_of_lt hshorter)

/-- The instructions that stand one after another from a cursor to the end of
its code. -/
inductive Reads : Cursor → List Instruction → Prop
  | done {cursor : Cursor} (hend : cursor.atEnd = true) : Reads cursor []
  | step {cursor next : Cursor} {instruction : Instruction} {rest : List Instruction}
      (hread : decode cursor = .ok instruction next) (hrest : Reads next rest) :
      Reads cursor (instruction :: rest)

/-- Reading goes on behind the instructions so far and succeeds exactly if it
finds a stream up to the end. -/
theorem complete_collect_eq_ok_iff {cursor : Cursor} {before instructions : List Instruction} :
    (Disassembly.collect cursor before).complete = .ok instructions ↔
      ∃ rest, Reads cursor rest ∧ instructions = before.reverse ++ rest := by
  fun_induction Disassembly.collect cursor before with
  | case1 cursor before hend =>
      simp only [Disassembly.complete, Except.ok.injEq]
      constructor
      · intro heq
        exact ⟨[], Reads.done hend, by rw [List.append_nil, heq]⟩
      · rintro ⟨rest, hreads, rfl⟩
        cases hreads with
        | done => rw [List.append_nil]
        | step hread => simp [atEnd_eq_false_of_decode hread] at hend
  | case2 cursor before hmore instruction next hread ih =>
      rw [ih]
      constructor
      · rintro ⟨rest, hreads, rfl⟩
        exact ⟨instruction :: rest, Reads.step hread hreads, by simp⟩
      · rintro ⟨rest, hreads, rfl⟩
        cases hreads with
        | done hend => exact absurd hend hmore
        | step hother hrest =>
            rw [hread] at hother
            cases hother
            exact ⟨_, hrest, by simp⟩
  | case3 cursor before hmore fault stop hread =>
      simp only [Disassembly.complete, reduceCtorEq, false_iff]
      rintro ⟨rest, hreads, _⟩
      cases hreads with
      | done hend => exact hmore hend
      | step hother =>
          rw [hread] at hother
          cases hother

/-- Code is read completely exactly if its instructions stand one after another
from its start to its end. -/
theorem decodeAll_eq_ok_iff {code : Bytes} {instructions : List Instruction} :
    decodeAll code = .ok instructions ↔ Reads (.start code) instructions := by
  rw [decodeAll, Disassembly.ofCode, complete_collect_eq_ok_iff]
  simp

namespace Reads

variable {cursor : Cursor} {instructions : List Instruction}

/-- Every instruction of a stream was read at some cursor. -/
theorem exists_decode (hreads : Reads cursor instructions) {instruction : Instruction}
    (hmem : instruction ∈ instructions) :
    ∃ start stop, decode start = .ok instruction stop := by
  induction hreads with
  | done => cases hmem
  | step hread _ ih =>
      rcases List.mem_cons.mp hmem with rfl | hrest
      · exact ⟨_, _, hread⟩
      · exact ih hrest

theorem position_le_offset (hreads : Reads cursor instructions) :
    ∀ instruction ∈ instructions, cursor.position ≤ instruction.offset := by
  induction hreads with
  | done =>
      intro instruction hmem
      cases hmem
  | step hread _ ih =>
      intro instruction hmem
      rcases List.mem_cons.mp hmem with rfl | hrest
      · exact Nat.le_of_eq (offset_of_decode hread).symm
      · have hmoved := (position_lt_of_decode hread).2
        have hlater := ih instruction hrest
        omega

/-- The offsets of a stream ascend. -/
theorem pairwise_offset_lt (hreads : Reads cursor instructions) :
    instructions.Pairwise (fun left right => left.offset < right.offset) := by
  induction hreads with
  | done => exact List.Pairwise.nil
  | step hread hrest ih =>
      refine List.pairwise_cons.mpr ⟨fun later hlater => ?_, ih⟩
      rw [offset_of_decode hread]
      exact Nat.lt_of_lt_of_le (position_lt_of_decode hread).2
        (hrest.position_le_offset later hlater)

/-- Every invocation of a stream has a constant pool index. -/
theorem exists_constantIndex? (hreads : Reads cursor instructions) {instruction : Instruction}
    (hmem : instruction ∈ instructions) {kind : InvokeKind}
    (hkind : InvokeKind.ofByte? instruction.opcode.byte = some kind) :
    ∃ index, instruction.operand.constantIndex? = some index := by
  obtain ⟨start, stop, hread⟩ := hreads.exists_decode hmem
  apply Option.isSome_iff_exists.mp
  rw [isSome_constantIndex? hread]
  exact InvokeKind.isIndexed_of_ofByte? hkind

end Reads

end Instruction

end JvmCalls

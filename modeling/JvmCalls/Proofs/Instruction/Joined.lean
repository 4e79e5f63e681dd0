import JvmCalls.Proofs.Bytes.Moves
import JvmCalls.Proofs.Instruction.Truncation

/-!
# Joined code

An instruction is read behind aligned code as it is alone.  All that it takes
from the code before it is its offset, since padding needs that modulo four
only.  Decoding therefore takes code that is joined at an aligned boundary to
the instructions of its parts one after another, and fails behind the first
part as it does on the second part alone.
-/

namespace JvmCalls

open Decoder

variable {front : Bytes}

namespace Operand

theorem moves_require (count : Nat) : Moves front id (require count) (require count) := by
  intro alone joined hprepends
  rw [require, require, hprepends.rest]
  split
  · exact .ok hprepends
  · exact .error

theorem moves_decodeTableSwitch (haligned : 4 ∣ front.length) (offset : Nat) :
    Moves front id (decodeTableSwitch offset) (decodeTableSwitch (offset + front.length)) := by
  apply moves_bind (moves_align haligned)
  intro _
  apply moves_bind moves_int32
  intro default
  apply moves_bind moves_int32
  intro low
  apply moves_bind moves_int32
  intro high
  simp only [id]
  split
  · exact moves_throw _
  · exact moves_bind (moves_require _) (fun _ =>
      moves_bind (moves_replicate _ moves_int32) (fun _ => moves_pure _))

theorem moves_decodePair : Moves front id decodePair decodePair :=
  moves_bind moves_int32 (fun _ => moves_bind moves_int32 (fun _ => moves_pure _))

theorem moves_decodeLookupSwitch (haligned : 4 ∣ front.length) (offset : Nat) :
    Moves front id (decodeLookupSwitch offset) (decodeLookupSwitch (offset + front.length)) := by
  apply moves_bind (moves_align haligned)
  intro _
  apply moves_bind moves_int32
  intro default
  apply moves_bind moves_int32
  intro count
  simp only [id]
  split
  · exact moves_throw _
  · exact moves_bind (moves_require _) (fun _ =>
      moves_bind (moves_replicate _ moves_decodePair) (fun _ => moves_pure _))

theorem moves_decodeSlot (wide : Bool) : Moves front id (decodeSlot wide) (decodeSlot wide) := by
  cases wide with
  | false => exact moves_bind moves_uint8 (fun _ => moves_pure _)
  | true => exact moves_uint16

theorem moves_decodeDelta (wide : Bool) :
    Moves front id (decodeDelta wide) (decodeDelta wide) := by
  cases wide with
  | false => exact moves_bind moves_int8 (fun _ => moves_pure _)
  | true => exact moves_int16

/-- No operand depends on where its instruction stands. -/
theorem moves_decode (haligned : 4 ∣ front.length) (offset : Nat) (wide : Bool)
    (opcode : Opcode) :
    Moves front id (decode offset wide opcode) (decode (offset + front.length) wide opcode) := by
  rw [decode.eq_def, decode.eq_def]
  cases opcode.info.operand with
  | empty => exact moves_pure _
  | int8 => exact moves_bind moves_int8 (fun _ => moves_pure _)
  | int16 | branch16 => exact moves_bind moves_int16 (fun _ => moves_pure _)
  | uint8 | constant8 => exact moves_bind moves_uint8 (fun _ => moves_pure _)
  | slot => exact moves_bind (moves_decodeSlot wide) (fun _ => moves_pure _)
  | constant16 => exact moves_bind moves_uint16 (fun _ => moves_pure _)
  | branch32 => exact moves_bind moves_int32 (fun _ => moves_pure _)
  | increment =>
      exact moves_bind (moves_decodeSlot wide) (fun _ =>
        moves_bind (moves_decodeDelta wide) (fun _ => moves_pure _))
  | interfaceCall =>
      exact moves_bind moves_uint16 (fun _ => moves_bind moves_uint8 (fun _ =>
        moves_bind (moves_skip 1) (fun _ => moves_pure _)))
  | dynamicCall =>
      exact moves_bind moves_uint16 (fun _ => moves_bind (moves_skip 2) (fun _ => moves_pure _))
  | arrayCreation =>
      exact moves_bind moves_uint16 (fun _ => moves_bind moves_uint8 (fun _ => moves_pure _))
  | tableSwitch => exact moves_decodeTableSwitch haligned offset
  | lookupSwitch => exact moves_decodeLookupSwitch haligned offset
  | wide => exact moves_throw _

end Operand

namespace Instruction

open InstructionLayout

/-- The same instruction so many bytes further on. -/
def moved (distance : Nat) (instruction : Instruction) : Instruction :=
  { instruction with offset := instruction.offset + distance }

theorem moves_opcodeOf (offset : Nat) (byte : UInt8) :
    Moves front id (opcodeOf offset byte) (opcodeOf (offset + front.length) byte) := by
  rw [opcodeOf.eq_def, opcodeOf.eq_def]
  cases Opcode.ofByte? byte with
  | none => exact moves_throw _
  | some opcode => exact moves_pure opcode

theorem moves_opcodeByte (wide : Bool) (first : UInt8) :
    Moves front id (opcodeByte wide first) (opcodeByte wide first) := by
  cases wide with
  | false => exact moves_pure first
  | true => exact moves_uint8

theorem moves_decodeBody (haligned : 4 ∣ front.length) (offset : Nat) (first : UInt8) :
    Moves front (moved front.length) (decodeBody offset first)
      (decodeBody (offset + front.length) first) := by
  apply moves_bind (moves_opcodeByte _ first)
  intro byte
  apply moves_bind (moves_opcodeOf offset byte)
  intro opcode
  simp only [id]
  split
  · exact moves_throw _
  · apply moves_bind (Operand.moves_decode haligned offset _ opcode)
    intro operand
    apply moves_position_bind
    intro finish hsmall
    rw [Nat.add_sub_add_right, checkOffset_of_lt (by omega), pure_bind, pure_bind]
    exact moves_pure _

/-- An instruction that stands further on has another offset, and is the same
otherwise. -/
theorem moves_decode (haligned : 4 ∣ front.length) :
    Moves front (moved front.length) decode decode := by
  apply moves_position_bind
  intro offset hsmall
  rw [checkOffset_of_lt hsmall, checkOffset_of_lt (by omega), pure_bind, pure_bind]
  exact moves_bind moves_uint8 (fun first => moves_decodeBody haligned offset first)

namespace Passes

variable {tail : Bytes} {short long alone joined last : Cursor}
variable {instructions : List Instruction}

/-- What is passed in some code is passed in longer code. -/
theorem extended (hpasses : Passes short instructions last)
    (htruncates : Cursor.Truncates tail short long) :
    ∃ stop, Passes long instructions stop ∧ Cursor.Truncates tail last stop := by
  have hfollowed := hpasses.follow (Cursor.Truncates tail) id
    (fun hstart hread _ => local_decode.of_short hstart hread) htruncates
  rwa [List.map_id] at hfollowed

/-- What is passed in some code is passed behind other code. -/
theorem moved (haligned : 4 ∣ front.length) (hpasses : Passes alone instructions last)
    (hprepends : Cursor.Prepends front alone joined) :
    ∃ stop, Passes joined (instructions.map (Instruction.moved front.length)) stop ∧
      Cursor.Prepends front last stop :=
  hpasses.follow (Cursor.Prepends front) (Instruction.moved front.length)
    (fun hstart hread _ => (moves_decode haligned).of_ok hstart hread) hprepends

end Passes

/-- Decoding takes code that is joined at an aligned boundary to the
instructions of both parts.  Those of the second part have moved by the length
of the first one, and are unchanged otherwise.  If the second part cannot be
decoded, then the joined code cannot either, for the same reason found so much
further on. -/
theorem decodeAll_append {front back : Bytes} {before : List Instruction}
    (hfront : decodeAll front = .ok before) (haligned : 4 ∣ front.length)
    (hbound : front.length + back.length < 0x100000000) :
    (∀ after, decodeAll back = .ok after →
        decodeAll (front ++ back) = .ok (before ++ after.map (moved front.length))) ∧
      (∀ fault, decodeAll back = .error fault →
        decodeAll (front ++ back) = .error (fault.moved front.length)) := by
  obtain ⟨last, hpasses, hend⟩ := decodeAll_eq_ok_iff_passes.mp hfront
  obtain ⟨seam, hbefore, hseam⟩ := hpasses.extended (truncates_start front back)
  have hprepends : Cursor.Prepends front (.start back) seam := by
    have hlast : last.data = front := hpasses.data_eq
    constructor
    · rw [hseam.1, hlast]
      rfl
    · rw [hseam.2, Cursor.atEnd_iff.mp hend, hlast]
      exact (Nat.zero_add _).symm
    · rwa [hseam.1, hlast, List.length_append]
  constructor
  · intro after hback
    obtain ⟨stop, hafter, hstop⟩ := decodeAll_eq_ok_iff_passes.mp hback
    obtain ⟨target, hmoved, htarget⟩ := hafter.moved haligned hprepends
    rw [← htarget.atEnd] at hstop
    exact decodeAll_eq_ok_iff_passes.mpr ⟨target, hbefore.append hmoved, hstop⟩
  · intro fault hback
    obtain ⟨after, stop, final, hafter, hmore, hfault⟩ := decodeAll_eq_error_iff.mp hback
    obtain ⟨target, hmoved, htarget⟩ := hafter.moved haligned hprepends
    rw [← htarget.atEnd] at hmore
    obtain ⟨failed, hfailed⟩ := (moves_decode haligned).of_error htarget hfault
    exact decodeAll_eq_error_iff.mpr ⟨_, target, failed, hbefore.append hmoved, hmore, hfailed⟩

/-- Two `nop` and a `bipush`, which take four bytes together. -/
def alignedCode : Bytes := [0x00, 0x00, 0x10, 0x7F]

/-- A padded `tableswitch` behind these has all its distances, and an unassigned
opcode is found behind them. -/
theorem decodeAll_append_alignedCode :
    ∃ before after, decodeAll alignedCode = .ok before ∧
      decodeAll (encodeAll extremeLayouts) = .ok after ∧
      decodeAll (alignedCode ++ encodeAll extremeLayouts) = .ok (before ++ after.map (moved 4)) ∧
      decodeAll [0x00, 0xFF] = .error (.malformed (.invalidOpcode 0xFF 1)) ∧
      decodeAll (alignedCode ++ [0x00, 0xFF]) = .error (.malformed (.invalidOpcode 0xFF 5)) := by
  have hcounts : List.length <$> decodeAll alignedCode = .ok 3 ∧
      List.length <$> decodeAll (encodeAll extremeLayouts) = .ok 4 := by
    decide +kernel
  obtain ⟨before, hfront, _⟩ := Outcome.map_eq_ok_iff.mp hcounts.1
  obtain ⟨after, hback, _⟩ := Outcome.map_eq_ok_iff.mp hcounts.2
  have hfault : decodeAll [0x00, 0xFF] = .error (.malformed (.invalidOpcode 0xFF 1)) := by
    decide +kernel
  refine ⟨before, after, hfront, hback, ?_, hfault, ?_⟩
  · exact (decodeAll_append hfront (by decide) (by decide +kernel)).1 after hback
  · exact (decodeAll_append hfront (by decide) (by decide +kernel)).2 _ hfault

end Instruction

end JvmCalls

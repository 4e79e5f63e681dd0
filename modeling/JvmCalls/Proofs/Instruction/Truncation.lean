import JvmCalls.Proofs.Bytes.Local
import JvmCalls.Proofs.Instruction.Passes
import JvmCalls.Proofs.Instruction.RoundTrip

/-!
# Truncated code

Every read of an instruction is local, so an instruction that is cut off is
found to end too early, and one that is not is read as it was.  Code that is
cut behind an instruction is therefore read up to there, and code that is cut
anywhere else ends too early for its last instruction.
-/

namespace JvmCalls

open Decoder

namespace Operand

theorem local_require (count : Nat) : Local (require count) := by
  intro tail short long htruncates
  rw [require, require]
  by_cases hfits : count ≤ short.rest.length
  · have hlonger : count ≤ long.rest.length := by
      rw [htruncates.rest, List.length_append]
      omega
    rw [if_pos (hasAtLeast_iff.mpr hfits), if_pos (hasAtLeast_iff.mpr hlonger)]
    exact .inr (.ok htruncates)
  · rw [if_neg (by rwa [hasAtLeast_iff])]
    exact .inl ⟨short, rfl⟩

theorem local_decodeTableSwitch (offset : Nat) : Local (decodeTableSwitch offset) := by
  apply local_bind (local_align 4)
  intro _
  apply local_bind local_int32
  intro default
  apply local_bind local_int32
  intro low
  apply local_bind local_int32
  intro high
  split
  · exact local_throw _
  · exact local_bind (local_require _) (fun _ =>
      local_bind (local_replicate _ local_int32) (fun _ => local_pure _))

theorem local_decodePair : Local decodePair :=
  local_bind local_int32 (fun _ => local_bind local_int32 (fun _ => local_pure _))

theorem local_decodeLookupSwitch (offset : Nat) : Local (decodeLookupSwitch offset) := by
  apply local_bind (local_align 4)
  intro _
  apply local_bind local_int32
  intro default
  apply local_bind local_int32
  intro count
  split
  · exact local_throw _
  · exact local_bind (local_require _) (fun _ =>
      local_bind (local_replicate _ local_decodePair) (fun _ => local_pure _))

theorem local_decodeSlot (wide : Bool) : Local (decodeSlot wide) := by
  cases wide with
  | false => exact local_bind local_uint8 (fun _ => local_pure _)
  | true => exact local_uint16

theorem local_decodeDelta (wide : Bool) : Local (decodeDelta wide) := by
  cases wide with
  | false => exact local_bind local_int8 (fun _ => local_pure _)
  | true => exact local_int16

theorem local_decode (offset : Nat) (wide : Bool) (opcode : Opcode) :
    Local (decode offset wide opcode) := by
  rw [decode.eq_def]
  cases opcode.info.operand with
  | empty => exact local_pure _
  | int8 => exact local_bind local_int8 (fun _ => local_pure _)
  | int16 | branch16 => exact local_bind local_int16 (fun _ => local_pure _)
  | uint8 | constant8 => exact local_bind local_uint8 (fun _ => local_pure _)
  | slot => exact local_bind (local_decodeSlot wide) (fun _ => local_pure _)
  | constant16 => exact local_bind local_uint16 (fun _ => local_pure _)
  | branch32 => exact local_bind local_int32 (fun _ => local_pure _)
  | increment =>
      exact local_bind (local_decodeSlot wide) (fun _ =>
        local_bind (local_decodeDelta wide) (fun _ => local_pure _))
  | interfaceCall =>
      exact local_bind local_uint16 (fun _ => local_bind local_uint8 (fun _ =>
        local_bind (local_skip 1) (fun _ => local_pure _)))
  | dynamicCall =>
      exact local_bind local_uint16 (fun _ => local_bind (local_skip 2) (fun _ => local_pure _))
  | arrayCreation =>
      exact local_bind local_uint16 (fun _ => local_bind local_uint8 (fun _ => local_pure _))
  | tableSwitch => exact local_decodeTableSwitch offset
  | lookupSwitch => exact local_decodeLookupSwitch offset
  | wide => exact local_throw _

end Operand

namespace Instruction

open InstructionLayout

theorem local_checkOffset (offset : Nat) : Local (checkOffset offset) := by
  rw [checkOffset]
  split
  · exact local_pure ()
  · exact local_throw _

theorem local_opcodeOf (offset : Nat) (byte : UInt8) : Local (opcodeOf offset byte) := by
  rw [opcodeOf.eq_def]
  cases Opcode.ofByte? byte with
  | none => exact local_throw _
  | some opcode => exact local_pure opcode

theorem local_opcodeByte (wide : Bool) (first : UInt8) : Local (opcodeByte wide first) := by
  cases wide with
  | false => exact local_pure first
  | true => exact local_uint8

theorem local_decodeBody (offset : Nat) (first : UInt8) : Local (decodeBody offset first) := by
  apply local_bind (local_opcodeByte _ first)
  intro byte
  apply local_bind (local_opcodeOf offset byte)
  intro opcode
  split
  · exact local_throw _
  · apply local_bind (Operand.local_decode offset _ opcode)
    intro operand
    apply local_bind local_position
    intro finish
    exact local_bind (local_checkOffset _) (fun _ => local_pure _)

/-- An instruction is read from its own bytes alone. -/
theorem local_decode : Local decode := by
  apply local_bind local_position
  intro offset
  apply local_bind (local_checkOffset offset)
  intro _
  exact local_bind local_uint8 (fun first => local_decodeBody offset first)

theorem ensures_checkOffset (offset : Nat) :
    Ensures (checkOffset offset) (fun _ => offset < 0x100000000) := by
  rw [checkOffset]
  split
  · next hsmall => exact ensures_pure hsmall
  · exact ensures_throw _ _

theorem ensures_decodeBody (offset : Nat) (first : UInt8) :
    Ensures (decodeBody offset first) (fun instruction => instruction.size < 0x100000000) := by
  apply ensures_then
  intro byte
  apply ensures_then
  intro opcode
  split
  · exact ensures_throw _ _
  · exact ensures_then (fun _ => ensures_then (fun finish =>
      ensures_bind (ensures_checkOffset _) (fun _ hsmall => ensures_pure hsmall)))

/-- Where an instruction starts and how long it is takes four bytes to say. -/
theorem lt_of_decode {cursor next : Cursor} {instruction : Instruction}
    (hread : decode cursor = .ok instruction next) :
    cursor.position < 0x100000000 ∧ instruction.size < 0x100000000 := by
  have hsize : Ensures decode (fun instruction => instruction.size < 0x100000000) :=
    ensures_then (fun offset => ensures_then (fun _ => ensures_then (fun first =>
      ensures_decodeBody offset first)))
  obtain ⟨offset, same, hposition, hchecked⟩ := Outcome.run_bind_eq_ok_iff.mp hread
  cases hposition
  obtain ⟨_, _, hcheck, _⟩ := Outcome.run_bind_eq_ok_iff.mp hchecked
  exact ⟨ensures_checkOffset _ hcheck, hsize hread⟩

section Truncated

variable {tail : Bytes} {short long next : Cursor} {instruction : Instruction}

/-- An instruction that the shorter code holds is read from it. -/
theorem decode_of_truncates (htruncates : Cursor.Truncates tail short long)
    (hread : decode long = .ok instruction next) (hinside : next.position ≤ short.data.length) :
    ∃ stop, decode short = .ok instruction stop ∧ Cursor.Truncates tail stop next := by
  obtain ⟨hoffset, hsize⟩ := lt_of_decode hread
  obtain ⟨layout, hfits, hspans, rfl⟩ := exists_layout_of_decode hread
  obtain ⟨stop, hstands, hstop⟩ := htruncates.exists_spans hspans hinside
  rw [htruncates.2] at hfits hoffset ⊢
  exact ⟨stop, decode_of_spans hfits hstands hoffset hsize, hstop⟩

/-- An instruction that the shorter code does not hold ends too late for it. -/
theorem decode_of_cut (htruncates : Cursor.Truncates tail short long)
    (hread : decode long = .ok instruction next) (hcut : short.data.length < next.position) :
    ∃ stop, decode short = .error .outOfBounds stop := by
  rcases local_decode htruncates with hbounds | hsame
  · exact hbounds
  · rw [hread] at hsame
    generalize hshort : decode short = outcome at hsame
    cases hsame with
    | @ok _ stop _ hcursor =>
        have hbound := stop.position_le
        rw [(position_lt_of_decode hshort).1, ← hcursor.2] at hbound
        exact absurd hcut (Nat.not_lt.mpr hbound)

/-- The instructions that the shorter code holds are passed in it. -/
theorem Passes.of_truncates {instructions : List Instruction}
    (hpasses : Passes long instructions next) (htruncates : Cursor.Truncates tail short long)
    (hinside : next.position ≤ short.data.length) :
    ∃ stop, Passes short instructions stop ∧ Cursor.Truncates tail stop next := by
  have hfollowed := hpasses.follow
    (fun start other => Cursor.Truncates tail other start ∧ next.position ≤ other.data.length) id
    (by
      rintro start other instruction middle ⟨hstart, hlast⟩ hread hmiddle
      obtain ⟨stop, hfirst, hstop⟩ :=
        decode_of_truncates hstart hread (Nat.le_trans hmiddle hlast)
      rw [← (position_lt_of_decode hfirst).1] at hlast
      exact ⟨stop, hfirst, hstop, hlast⟩)
    ⟨htruncates, hinside⟩
  rw [List.map_id] at hfollowed
  obtain ⟨stop, hpassed, hstop, _⟩ := hfollowed
  exact ⟨stop, hpassed, hstop⟩

end Truncated

/-- Whether a position is the start of a code or the end of one of its
instructions. -/
def IsBoundary (instructions : List Instruction) (position : Nat) : Prop :=
  position = 0 ∨ ∃ instruction ∈ instructions, instruction.stop = position

/-- A position is a boundary if the instructions up to there take up all bytes
before it. -/
theorem isBoundary_iff {code : Bytes} {instructions : List Instruction} {cut : Nat}
    {middle : Cursor} (hmiddle : middle.position ≤ cut)
    (hpasses : Passes (.start code)
      (instructions.filter (fun instruction => instruction.stop ≤ cut)) middle) :
    IsBoundary instructions cut ↔ middle.position = cut := by
  constructor
  · rintro (rfl | ⟨instruction, hmem, rfl⟩)
    · exact Nat.le_zero.mp hmiddle
    · have hkept : instruction ∈ instructions.filter (fun other => other.stop ≤ instruction.stop) :=
        List.mem_filter.mpr ⟨hmem, decide_eq_true (Nat.le_refl _)⟩
      exact Nat.le_antisymm hmiddle (hpasses.stop_between instruction hkept).2
  · rintro rfl
    rcases hpasses.eq_or_exists_stop with hstart | ⟨instruction, hkept, hstop⟩
    · exact .inl hstart
    · exact .inr ⟨instruction, (List.mem_filter.mp hkept).1, hstop⟩

/-- Truncated code is detected at every cut.  Up to a boundary, the
instructions that end there or before are read.  Everywhere else the code ends
too early for the next instruction. -/
theorem decodeAll_take {code : Bytes} {instructions : List Instruction}
    (hdecoded : decodeAll code = .ok instructions) {cut : Nat} (hcut : cut ≤ code.length) :
    (IsBoundary instructions cut → decodeAll (code.take cut) =
        .ok (instructions.filter (fun instruction => instruction.stop ≤ cut))) ∧
      (¬ IsBoundary instructions cut → decodeAll (code.take cut) = .error .outOfBounds) := by
  obtain ⟨last, hpasses, hend⟩ := decodeAll_eq_ok_iff_passes.mp hdecoded
  have hlength : (code.take cut).length = cut := List.length_take_of_le hcut
  have hwhole : last.position = code.length := by
    rw [Cursor.atEnd_iff.mp hend, hpasses.data_eq]
    rfl
  obtain ⟨middle, hbefore, hmiddle, hinside⟩ :=
    hpasses.exists_cut (Nat.zero_le cut) (by rwa [hwhole])
  have htruncates : Cursor.Truncates (code.drop cut) (.start (code.take cut)) (.start code) :=
    ⟨(List.take_append_drop cut code).symm, rfl⟩
  obtain ⟨stop, hpassed, hstop⟩ := hbefore.of_truncates htruncates (by rwa [← hlength] at hmiddle)
  have hdata : stop.data.length = cut := by
    rw [hpassed.data_eq]
    exact hlength
  have hat : stop.atEnd = true ↔ middle.position = cut := by
    rw [Cursor.atEnd_iff, hdata, hstop.2]
  rw [isBoundary_iff hmiddle hbefore, ← hat]
  constructor
  · intro hboundary
    exact decodeAll_eq_ok_iff_passes.mpr ⟨stop, hpassed, hboundary⟩
  · intro hother
    obtain ⟨instruction, next, hread, hcut⟩ :=
      hinside (Nat.lt_of_le_of_ne hmiddle (hother ∘ hat.mpr))
    obtain ⟨final, hbounds⟩ := decode_of_cut hstop hread (by rwa [hdata])
    exact decodeAll_eq_error_iff.mpr
      ⟨_, stop, final, hpassed, Bool.eq_false_iff.mpr hother, hbounds⟩

/-- A code cut behind its `iinc`, and cut in the padding of its `tableswitch`. -/
theorem decodeAll_take_extremeLayouts :
    ∃ instructions, decodeAll (encodeAll extremeLayouts) = .ok instructions ∧
      IsBoundary instructions 8 ∧
      decodeAll ((encodeAll extremeLayouts).take 8) =
        .ok (instructions.filter (fun instruction => instruction.stop ≤ 8)) ∧
      ¬ IsBoundary instructions 15 ∧
      decodeAll ((encodeAll extremeLayouts).take 15) = .error .outOfBounds := by
  have hstops : List.map stop <$> decodeAll (encodeAll extremeLayouts) = .ok [2, 8, 13, 32] := by
    decide +kernel
  obtain ⟨instructions, hdecoded, hmap⟩ := Outcome.map_eq_ok_iff.mp hstops
  have hends (cut : Nat) : IsBoundary instructions cut ↔ cut = 0 ∨ cut ∈ [2, 8, 13, 32] := by
    rw [IsBoundary, ← hmap, List.mem_map]
  have hbehind : IsBoundary instructions 8 := (hends 8).mpr (by decide)
  have hwithin : ¬ IsBoundary instructions 15 := fun hcut => absurd ((hends 15).mp hcut) (by decide)
  refine ⟨instructions, hdecoded, hbehind, ?_, hwithin, ?_⟩
  · exact (decodeAll_take hdecoded (by decide +kernel)).1 hbehind
  · exact (decodeAll_take hdecoded (by decide +kernel)).2 hwithin

end Instruction

end JvmCalls

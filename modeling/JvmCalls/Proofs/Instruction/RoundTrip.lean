import JvmCalls.Proofs.Instruction.Operand
import JvmCalls.Proofs.Instruction.Stream

/-!
# Code and its instructions

An instruction is read at a cursor exactly if the bytes there are those of a
layout that can stand at this position.  By induction over the instructions, a
byte string is read as a list of instructions exactly if it is their layouts
one after another, so that every sequence of layouts that fit is read back.
-/

namespace JvmCalls

open BigEndian Decoder Outcome

theorem Opcode.ofByte?_eq_some_iff {byte : UInt8} {opcode : Opcode} :
    Opcode.ofByte? byte = some opcode ↔ opcode.byte = byte := by
  constructor
  · intro hfound
    rw [ofByte?] at hfound
    split at hfound
    · cases hfound
      rfl
    · cases hfound
  · rintro rfl
    exact ofByte?_byte opcode

/-- The mark of the wide form is no opcode that an operand fits. -/
theorem Opcode.byte_ne_wideByte {opcode : Opcode} (hkind : opcode.info.operand ≠ .wide) :
    opcode.byte ≠ wideByte := by
  intro hbyte
  obtain ⟨byte, hassigned⟩ := opcode
  subst hbyte
  exact hkind rfl

namespace InstructionLayout

variable {cursor middle next : Cursor} {layout : InstructionLayout}

theorem kind_ne_wide {offset : Nat} (hfits : layout.Fits offset) :
    layout.opcode.info.operand ≠ .wide := by
  intro hkind
  have hoperand := hfits.2.1
  rw [hkind] at hoperand
  exact hoperand

/-- The head of an instruction tells its opcode and its form. -/
theorem spans_head_iff (hkind : layout.opcode.info.operand ≠ .wide) :
    cursor.Spans layout.head middle ↔
      ∃ first start, uint8 cursor = .ok first start ∧
        layout.wide = (first == Opcode.wideByte) ∧
        Instruction.opcodeByte layout.wide first start = .ok layout.opcode.byte middle := by
  have hbyte := Opcode.byte_ne_wideByte hkind
  simp only [uint8_eq_ok_iff, digits_one]
  rw [head]
  cases layout.wide with
  | false =>
      constructor
      · intro hspans
        exact ⟨layout.opcode.byte, middle, hspans, by simpa using hbyte, rfl⟩
      · rintro ⟨first, start, hfirst, _, hopcode⟩
        cases hopcode
        exact hfirst
  | true =>
      rw [if_pos rfl, ← List.singleton_append, Cursor.spans_append_iff]
      constructor
      · rintro ⟨start, hmark, hopcode⟩
        rw [← digits_one, ← uint8_eq_ok_iff] at hopcode
        exact ⟨Opcode.wideByte, start, hmark, by simp, hopcode⟩
      · rintro ⟨first, start, hfirst, hmark, hopcode⟩
        have hsame : first = Opcode.wideByte := by simpa using hmark.symm
        have hread : uint8 start = .ok layout.opcode.byte middle := hopcode
        rw [uint8_eq_ok_iff, digits_one] at hread
        rw [hsame] at hfirst
        exact ⟨start, hfirst, hread⟩

theorem length_head_pos (layout : InstructionLayout) : 0 < layout.head.length := by
  rw [head]
  split <;> simp

theorem encodeAll_cons (layout : InstructionLayout) (layouts : List InstructionLayout) :
    encodeAll (layout :: layouts) = layout.encode ++ encodeAll layouts :=
  List.flatMap_cons

theorem length_encode_pos (layout : InstructionLayout) : 0 < layout.encode.length := by
  rw [encode, List.length_append]
  exact Nat.add_pos_left layout.length_head_pos _

end InstructionLayout

namespace Instruction

open InstructionLayout

variable {cursor next : Cursor} {instruction : Instruction}

/-- What is read as an instruction is the layout of that instruction. -/
theorem exists_layout_of_decode (hread : decode cursor = .ok instruction next) :
    ∃ layout : InstructionLayout, layout.Fits cursor.position ∧
      cursor.Spans layout.encode next ∧ layout.toInstruction cursor.position = instruction := by
  obtain ⟨first, start, hfirst, hbody⟩ := decode_eq_ok hread
  obtain ⟨hoffset, hsize, hwide, hwidenable, byte, middle, hbyte, hopcode, hoperand⟩ :=
    decodeBody_eq_ok hbody
  obtain ⟨hfits, ignored, hlength, hspans⟩ := Operand.decode_eq_ok_iff.mp hoperand
  let layout : InstructionLayout :=
    { opcode := instruction.opcode, wide := instruction.wide, operand := instruction.operand,
      ignored }
  have hkind : layout.opcode.info.operand ≠ .wide := by
    intro hkind
    rw [show instruction.opcode.info.operand = .wide from hkind] at hfits
    exact hfits
  have hhead : cursor.Spans layout.head middle := by
    rw [Opcode.ofByte?_eq_some_iff.mp hopcode |>.symm] at hbyte
    exact (spans_head_iff hkind).mpr ⟨first, start, hfirst, hwide, hbyte⟩
  have hlayout : cursor.Spans layout.encode next := hhead.append hspans
  rw [hhead.position] at hlength
  refine ⟨layout, ⟨hwidenable, hfits, hlength⟩, hlayout, ?_⟩
  rw [hlayout.position, Nat.add_sub_cancel_left] at hsize
  exact Instruction.ext hoffset.symm hsize.symm rfl rfl rfl

theorem checkOffset_of_lt {offset : Nat} (hsmall : offset < 0x100000000) :
    checkOffset offset = pure () :=
  if_pos hsmall

/-- An instruction is read as its operand is, behind its head. -/
theorem decode_of_head {layout : InstructionLayout} {middle : Cursor}
    (hkind : layout.opcode.info.operand ≠ .wide)
    (hwidenable : layout.wide = true → layout.opcode.isWidenable = true)
    (hhead : cursor.Spans layout.head middle) (hoffset : cursor.position < 0x100000000) :
    decode cursor =
      (Operand.decode cursor.position layout.wide layout.opcode >>= fun operand => do
        let size := (← position) - cursor.position
        checkOffset size
        return Instruction.mk cursor.position size layout.opcode layout.wide operand) middle := by
  obtain ⟨first, start, hfirst, hwide, hopcode⟩ := (spans_head_iff hkind).mp hhead
  have hassigned : opcodeOf cursor.position layout.opcode.byte middle =
      .ok layout.opcode middle := by
    rw [opcodeOf, Opcode.ofByte?_byte]
    rfl
  have hform : (layout.wide && !layout.opcode.isWidenable) = false := by
    cases hmark : layout.wide with
    | false => rfl
    | true => simp [hwidenable hmark]
  change (checkOffset cursor.position >>= _) cursor = _
  rw [checkOffset_of_lt hoffset, pure_bind, run_bind_of_ok hfirst, decodeBody, ← hwide,
    run_bind_of_ok hopcode, run_bind_of_ok hassigned, hform, if_neg Bool.false_ne_true]

/-- A layout that can stand at the cursor and does is read from there. -/
theorem decode_of_spans {layout : InstructionLayout} (hfits : layout.Fits cursor.position)
    (hspans : cursor.Spans layout.encode next) (hoffset : cursor.position < 0x100000000)
    (hlength : layout.encode.length < 0x100000000) :
    decode cursor = .ok (layout.toInstruction cursor.position) next := by
  have hstop := hspans.position
  have hkind := kind_ne_wide hfits
  obtain ⟨middle, hhead, hrest⟩ := Cursor.spans_append_iff.mp hspans
  obtain ⟨hwidenable, hoperand, hignored⟩ := hfits
  rw [← hhead.position] at hignored
  have hread : Operand.decode cursor.position layout.wide layout.opcode middle =
      .ok layout.operand next :=
    Operand.decode_eq_ok_iff.mpr ⟨hoperand, layout.ignored, hignored, hrest⟩
  have hsize : next.position - cursor.position < 0x100000000 := by omega
  rw [decode_of_head hkind hwidenable hhead hoffset, run_bind_of_ok hread]
  change (checkOffset (next.position - cursor.position) >>= _) next = _
  rw [checkOffset_of_lt hsize, pure_bind, hstop, Nat.add_sub_cancel_left]
  rfl

namespace Reads

variable {instructions : List Instruction}

/-- A stream is the layouts of its instructions, one after another. -/
theorem exists_layouts (hreads : Reads cursor instructions) :
    ∃ layouts, FitsFrom cursor.position layouts ∧ cursor.rest = encodeAll layouts ∧
      toInstructions cursor.position layouts = instructions := by
  induction hreads with
  | done hend => exact ⟨[], trivial, List.isEmpty_iff.mp hend, rfl⟩
  | step hread _ ih =>
      obtain ⟨layout, hfits, hspans, hinstruction⟩ := exists_layout_of_decode hread
      obtain ⟨layouts, hfrom, hrest, hothers⟩ := ih
      rw [hspans.position] at hfrom hothers
      refine ⟨layout :: layouts, ⟨hfits, hfrom⟩, ?_, ?_⟩
      · rw [hspans.2, hrest]
        rfl
      · rw [toInstructions, hinstruction, hothers]

/-- Layouts that fit one after another up to the end of the code are a
stream. -/
theorem of_fitsFrom {layouts : List InstructionLayout}
    (hfits : FitsFrom cursor.position layouts) (hrest : cursor.rest = encodeAll layouts)
    (hbound : cursor.position + (encodeAll layouts).length < 0x100000000) :
    Reads cursor (toInstructions cursor.position layouts) := by
  induction layouts generalizing cursor with
  | nil => exact Reads.done (List.isEmpty_iff.mpr hrest)
  | cons layout layouts ih =>
      rw [encodeAll_cons] at hrest hbound
      rw [List.length_append] at hbound
      obtain ⟨next, hspans, hothers⟩ := cursor.exists_spans hrest
      have hread := decode_of_spans hfits.1 hspans (by omega) (by omega)
      have hposition := hspans.position
      have hfrom := hfits.2
      rw [← hposition] at hfrom
      rw [toInstructions, ← hposition]
      exact Reads.step hread (ih hfrom hothers (by omega))

end Reads

/-- Code is read as a list of instructions only if it is made of their
layouts. -/
theorem exists_layouts_of_decodeAll {code : Bytes} {instructions : List Instruction}
    (hdecoded : decodeAll code = .ok instructions) :
    ∃ layouts, FitsFrom 0 layouts ∧ code = encodeAll layouts ∧
      toInstructions 0 layouts = instructions :=
  (decodeAll_eq_ok_iff.mp hdecoded).exists_layouts

theorem decodeAll_of_fitsFrom {layouts : List InstructionLayout} (hfits : FitsFrom 0 layouts)
    (hbound : (encodeAll layouts).length < 0x100000000) :
    decodeAll (encodeAll layouts) = .ok (toInstructions 0 layouts) := by
  apply decodeAll_eq_ok_iff.mpr
  apply Reads.of_fitsFrom hfits rfl
  rw [← Nat.zero_add (encodeAll layouts).length] at hbound
  exact hbound

end Instruction

namespace InstructionLayout

@[simp]
theorem length_toInstructions (offset : Nat) (layouts : List InstructionLayout) :
    (toInstructions offset layouts).length = layouts.length := by
  induction layouts generalizing offset with
  | nil => rfl
  | cons layout layouts ih => rw [toInstructions, List.length_cons, ih, List.length_cons]

theorem toInstructions_append (offset : Nat) (before after : List InstructionLayout) :
    toInstructions offset (before ++ after) =
      toInstructions offset before ++
        toInstructions (offset + (encodeAll before).length) after := by
  induction before generalizing offset with
  | nil => rfl
  | cons layout before ih =>
      rw [List.cons_append, toInstructions, ih, encodeAll_cons, List.length_append, Nat.add_assoc]
      rfl

theorem getElem?_toInstructions (offset : Nat) (before after : List InstructionLayout)
    (layout : InstructionLayout) :
    (toInstructions offset (before ++ layout :: after))[before.length]? =
      some (layout.toInstruction (offset + (encodeAll before).length)) := by
  rw [toInstructions_append, List.getElem?_append_right (by simp), length_toInstructions,
    Nat.sub_self]
  rfl

/-- Decoding accepts every sequence of instructions that fit, whatever stands
in the bytes without meaning, and finds as many instructions as were laid out.
Each has the offset at which it was laid out and the size of its layout, and
what its opcode stands for is read from the table of opcodes. -/
theorem decodeAll_encodeAll {layouts : List InstructionLayout} (hfits : FitsFrom 0 layouts)
    (hbound : (encodeAll layouts).length < 0x100000000) :
    ∃ instructions, Instruction.decodeAll (encodeAll layouts) = .ok instructions ∧
      instructions.length = layouts.length ∧
      ∀ before layout after, layouts = before ++ layout :: after →
        ∃ instruction, instructions[before.length]? = some instruction ∧
          instruction.offset = (encodeAll before).length ∧
          instruction.size = layout.encode.length ∧
          instruction.opcode = layout.opcode ∧
          instruction.wide = layout.wide ∧
          instruction.operand = layout.operand ∧
          instruction.mnemonic = layout.opcode.info.mnemonic ∧
          instruction.category = layout.opcode.info.category ∧
          instruction.flow = layout.opcode.info.flow := by
  have hdecoded := Instruction.decodeAll_of_fitsFrom hfits hbound
  refine ⟨_, hdecoded, length_toInstructions 0 layouts, ?_⟩
  rintro before layout after rfl
  have hfound := getElem?_toInstructions 0 before after layout
  rw [Nat.zero_add] at hfound
  exact ⟨_, hfound, rfl, rfl, rfl, rfl, rfl, rfl, rfl, rfl⟩

/-- Instructions with operands at the ends of their ranges: `bipush`, a wide
`iinc`, `invokeinterface` and a padded `tableswitch` with one distance. -/
def extremeLayouts : List InstructionLayout :=
  [{ opcode := ⟨0x10, by decide⟩, wide := false, operand := .immediate (-128), ignored := [] },
    { opcode := ⟨0x84, by decide⟩, wide := true, operand := .increment 65535 (-32768),
      ignored := [] },
    { opcode := ⟨0xB9, by decide⟩, wide := false, operand := .interfaceCall 65535 255,
      ignored := [7] },
    { opcode := ⟨0xAA, by decide⟩, wide := false,
      operand := .tableSwitch (-2147483648) 2147483647 2147483647 [-2147483648],
      ignored := [1, 2] }]

theorem decodeAll_encodeAll_extremeLayouts :
    ∃ instructions, Instruction.decodeAll (encodeAll extremeLayouts) = .ok instructions ∧
      instructions.length = 4 ∧
      ∃ instruction, instructions[3]? = some instruction ∧ instruction.offset = 13 ∧
        instruction.size = 19 ∧
        instruction.operand =
          .tableSwitch (-2147483648) 2147483647 2147483647 [-2147483648] := by
  have hfits : FitsFrom 0 extremeLayouts := by decide +kernel
  have hbound : (encodeAll extremeLayouts).length < 0x100000000 := by decide +kernel
  obtain ⟨instructions, hdecoded, hlength, heach⟩ := decodeAll_encodeAll hfits hbound
  obtain ⟨instruction, hfound, hoffset, hsize, _, _, hoperand, _⟩ :=
    heach (extremeLayouts.take 3) _ [] rfl
  have hstart : (encodeAll (extremeLayouts.take 3)).length = 13 := by decide +kernel
  exact ⟨instructions, hdecoded, hlength, instruction, hfound, hoffset.trans hstart, hsize,
    hoperand⟩

end InstructionLayout

end JvmCalls

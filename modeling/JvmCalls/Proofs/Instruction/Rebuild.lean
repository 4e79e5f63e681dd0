import JvmCalls.Proofs.Instruction.RoundTrip

/-!
# Code rebuilt from its instructions

The instructions of a code tile it from its first byte to its last, and
writing them again gives back every byte that says something.  So decoding
loses nothing: two codes with the same instructions differ at most in the
padding of jump tables, in the last byte of an interface call and in the last
two bytes of a dynamic call site.
-/

namespace JvmCalls

/-! ## Byte strings that agree outside some positions -/

/-- The two byte strings, which start at the same position, are equally long
and differ at most at the given positions. -/
def AgreeOutside (silent : Nat → Prop) (start : Nat) (left right : Bytes) : Prop :=
  left.length = right.length ∧
    ∀ index, ¬ silent (start + index) → left[index]? = right[index]?

namespace AgreeOutside

variable {silent : Nat → Prop} {start : Nat} {left right other : Bytes}

theorem refl (silent : Nat → Prop) (start : Nat) (bytes : Bytes) :
    AgreeOutside silent start bytes bytes :=
  ⟨rfl, fun _ _ => rfl⟩

theorem symm (hagree : AgreeOutside silent start left right) :
    AgreeOutside silent start right left :=
  ⟨hagree.1.symm, fun index hspoken => (hagree.2 index hspoken).symm⟩

theorem trans (hfirst : AgreeOutside silent start left right)
    (hsecond : AgreeOutside silent start right other) :
    AgreeOutside silent start left other :=
  ⟨hfirst.1.trans hsecond.1, fun index hspoken =>
    (hfirst.2 index hspoken).trans (hsecond.2 index hspoken)⟩

theorem mono {more : Nat → Prop} (hagree : AgreeOutside silent start left right)
    (hmore : ∀ position, silent position → more position) :
    AgreeOutside more start left right :=
  ⟨hagree.1, fun index hspoken => hagree.2 index (fun hsilent => hspoken (hmore _ hsilent))⟩

theorem append {left' right' : Bytes} (hfirst : AgreeOutside silent start left right)
    (hsecond : AgreeOutside silent (start + left.length) left' right') :
    AgreeOutside silent start (left ++ left') (right ++ right') := by
  obtain ⟨hlength, hbytes⟩ := hfirst
  obtain ⟨hlength', hbytes'⟩ := hsecond
  refine ⟨by rw [List.length_append, List.length_append, hlength, hlength'], ?_⟩
  intro index hspoken
  by_cases hinside : index < left.length
  · rw [List.getElem?_append_left hinside, List.getElem?_append_left (hlength ▸ hinside)]
    exact hbytes index hspoken
  · have hbehind : left.length ≤ index := Nat.le_of_not_lt hinside
    rw [List.getElem?_append_right hbehind, List.getElem?_append_right (hlength ▸ hbehind),
      ← hlength]
    apply hbytes'
    rw [Nat.add_assoc, Nat.add_sub_cancel' hbehind]
    exact hspoken

/-- Bytes that all stand at the given positions need not be equal. -/
theorem of_silent (hlength : left.length = right.length)
    (hsilent : ∀ index < left.length, silent (start + index)) :
    AgreeOutside silent start left right := by
  refine ⟨hlength, ?_⟩
  intro index hspoken
  have hpast : left.length ≤ index := by
    by_contra hinside
    exact hspoken (hsilent index (Nat.lt_of_not_le hinside))
  rw [List.getElem?_eq_none hpast, List.getElem?_eq_none (hlength ▸ hpast)]

end AgreeOutside

namespace Instruction

/-- The byte at `position` of the code belongs to the instruction and says
nothing: it pads a jump table to a multiple of four bytes, or it is the last
byte of an interface call or one of the last two of a dynamic call site. -/
def Ignores (instruction : Instruction) (position : Nat) : Prop :=
  match instruction.opcode.info.operand with
  | .interfaceCall => position = instruction.offset + 4
  | .dynamicCall => position = instruction.offset + 3 ∨ position = instruction.offset + 4
  | .tableSwitch | .lookupSwitch =>
      instruction.offset < position ∧ position < (instruction.offset + 4) / 4 * 4
  | _ => False

def Ignored (instructions : List Instruction) (position : Nat) : Prop :=
  ∃ instruction ∈ instructions, instruction.Ignores position

/-- Every instruction starts where the one before it ends, the first one at
`start`, and the last one ends at `stop`. -/
def Tiles : (start : Nat) → List Instruction → (stop : Nat) → Prop
  | start, [], stop => start = stop
  | start, instruction :: instructions, stop =>
      instruction.offset = start ∧ 1 ≤ instruction.size ∧
        Tiles (start + instruction.size) instructions stop

/-- The bytes of an instruction that is written at `start`.  Bytes that say
nothing are written as zeros. -/
def write (start : Nat) (instruction : Instruction) : Bytes :=
  let head := if instruction.wide then [Opcode.wideByte, instruction.opcode.byte]
    else [instruction.opcode.byte]
  let kind := instruction.opcode.info.operand
  let zeros := List.replicate (kind.ignoredCount (start + head.length)) 0
  head ++ instruction.operand.encode instruction.wide zeros kind

/-- The bytes of instructions that are written one after another from `start`
on.  Where they stood before and how long they were is not looked at. -/
def rebuildFrom : (start : Nat) → List Instruction → Bytes
  | _, [] => []
  | start, instruction :: instructions =>
      let written := instruction.write start
      written ++ rebuildFrom (start + written.length) instructions

end Instruction

namespace InstructionLayout

open Instruction Operand

variable {start : Nat} {layout : InstructionLayout} {layouts : List InstructionLayout}

theorem length_head_of_not_isWidenable (hfits : layout.Fits start)
    (hkind : layout.opcode.isWidenable = false) : layout.head.length = 1 := by
  have hnarrow : layout.wide = false := by
    by_contra hwide
    have hwidenable := hfits.1 (by simpa using hwide)
    rw [hkind] at hwidenable
    cases hwidenable
  rw [head, hnarrow]
  rfl

/-- The padding of a jump table that starts at `start` need not be the same. -/
theorem padding_agrees {ignored ignored' : Bytes} (hlength : ignored.length = ignored'.length)
    (hcount : ignored'.length = (4 - (start + 1) % 4) % 4) :
    AgreeOutside (fun position => start < position ∧ position < (start + 4) / 4 * 4)
      (start + 1) ignored ignored' := by
  apply AgreeOutside.of_silent hlength
  intro position hposition
  constructor
  · omega
  · omega

/-- Operands that differ only in bytes without meaning have the same bytes
elsewhere. -/
theorem operand_agrees (hfits : layout.Fits start) {ignored : Bytes}
    (hlength : ignored.length = layout.ignored.length) :
    AgreeOutside (layout.toInstruction start).Ignores (start + layout.head.length)
      (layout.operand.encode layout.wide ignored layout.opcode.info.operand)
      (layout.operand.encode layout.wide layout.ignored layout.opcode.info.operand) := by
  have hhead := length_head_of_not_isWidenable hfits
  obtain ⟨_, hoperand, hcount⟩ := hfits
  have hignores : (layout.toInstruction start).Ignores = fun position =>
      match layout.opcode.info.operand with
      | .interfaceCall => position = start + 4
      | .dynamicCall => position = start + 3 ∨ position = start + 4
      | .tableSwitch | .lookupSwitch => start < position ∧ position < (start + 4) / 4 * 4
      | _ => False := rfl
  rw [hignores]
  rw [Opcode.isWidenable] at hhead
  cases hkind : layout.opcode.info.operand with
  | interfaceCall =>
      rw [hkind] at hhead hcount hoperand
      have hcount : layout.ignored.length = 1 := hcount
      rw [hhead rfl]
      cases hshape : layout.operand with
      | interfaceCall index count =>
          refine AgreeOutside.append (AgreeOutside.refl _ _ _) ?_
          refine AgreeOutside.append (AgreeOutside.refl _ _ [count]) ?_
          refine AgreeOutside.of_silent hlength ?_
          intro position hposition
          simp only [BigEndian.length_digits, List.length_singleton]
          omega
      | _ =>
          rw [hshape] at hoperand
          exact hoperand.elim
  | dynamicCall =>
      rw [hkind] at hhead hcount hoperand
      have hcount : layout.ignored.length = 2 := hcount
      rw [hhead rfl]
      cases hshape : layout.operand with
      | constant index =>
          refine AgreeOutside.append (AgreeOutside.refl _ _ _) ?_
          refine AgreeOutside.of_silent hlength ?_
          intro position hposition
          rw [BigEndian.length_digits]
          omega
      | _ =>
          rw [hshape] at hoperand
          exact hoperand.elim
  | tableSwitch =>
      rw [hkind] at hhead hcount hoperand
      rw [hhead rfl] at hcount ⊢
      have hpadding := padding_agrees hlength hcount
      cases hshape : layout.operand with
      | tableSwitch default low high distances =>
          have hdefault := hpadding.append (AgreeOutside.refl _ _ (encodeSigned 4 default))
          have hlow := hdefault.append (AgreeOutside.refl _ _ (encodeSigned 4 low))
          have hhigh := hlow.append (AgreeOutside.refl _ _ (encodeSigned 4 high))
          exact hhigh.append (AgreeOutside.refl _ _ _)
      | _ =>
          rw [hshape] at hoperand
          exact hoperand.elim
  | lookupSwitch =>
      rw [hkind] at hhead hcount hoperand
      rw [hhead rfl] at hcount ⊢
      have hpadding := padding_agrees hlength hcount
      cases hshape : layout.operand with
      | lookupSwitch default pairs =>
          have hdefault := hpadding.append (AgreeOutside.refl _ _ (encodeSigned 4 default))
          have hcount := hdefault.append (AgreeOutside.refl _ _ (BigEndian.digits 4 pairs.length))
          exact hcount.append (AgreeOutside.refl _ _ _)
      | _ =>
          rw [hshape] at hoperand
          exact hoperand.elim
  | _ =>
      rw [hkind] at hcount
      have hnone : layout.ignored = [] := List.eq_nil_of_length_eq_zero hcount
      rw [hnone] at hlength
      rw [hnone, List.eq_nil_of_length_eq_zero hlength]
      exact AgreeOutside.refl _ _ _

/-- An instruction that is written where it was read has the same bytes, up to
those without meaning. -/
theorem write_agrees (hfits : layout.Fits start) :
    AgreeOutside (layout.toInstruction start).Ignores start
      ((layout.toInstruction start).write start) layout.encode := by
  have hzeros : (List.replicate
      (layout.opcode.info.operand.ignoredCount (start + layout.head.length)) (0 : UInt8)).length =
        layout.ignored.length := by
    rw [List.length_replicate]
    exact hfits.2.2.symm
  exact (AgreeOutside.refl _ _ layout.head).append (operand_agrees hfits hzeros)

theorem rebuildFrom_agrees (hfits : FitsFrom start layouts) :
    AgreeOutside (Ignored (toInstructions start layouts)) start
      (rebuildFrom start (toInstructions start layouts)) (encodeAll layouts) := by
  induction layouts generalizing start with
  | nil => exact AgreeOutside.refl _ _ _
  | cons layout layouts ih =>
      obtain ⟨hlayout, hothers⟩ := hfits
      have hwritten := write_agrees hlayout
      have hbehind := ih hothers
      rw [← hwritten.1] at hbehind
      rw [encodeAll_cons, toInstructions, rebuildFrom, ← hwritten.1]
      apply AgreeOutside.append
      · apply hwritten.mono
        intro position hsilent
        exact ⟨_, List.mem_cons_self, hsilent⟩
      · apply hbehind.mono
        rintro position ⟨instruction, hmem, hsilent⟩
        exact ⟨instruction, List.mem_cons_of_mem _ hmem, hsilent⟩

theorem tiles_toInstructions (start : Nat) (layouts : List InstructionLayout) :
    Tiles start (toInstructions start layouts) (start + (encodeAll layouts).length) := by
  induction layouts generalizing start with
  | nil => rfl
  | cons layout layouts ih =>
      rw [encodeAll_cons, List.length_append, ← Nat.add_assoc]
      exact ⟨rfl, layout.length_encode_pos, ih _⟩

end InstructionLayout

namespace Instruction

variable {code : Bytes} {instructions : List Instruction}

theorem rebuild_agrees (hdecoded : decodeAll code = .ok instructions) :
    AgreeOutside (Ignored instructions) 0 (rebuildFrom 0 instructions) code := by
  obtain ⟨layouts, hfits, rfl, rfl⟩ := exists_layouts_of_decodeAll hdecoded
  exact InstructionLayout.rebuildFrom_agrees hfits

/-- Decoding loses nothing.  The instructions of a code tile it, and writing
them one after another gives back the code at every byte but those that say
nothing.  So does every other code with the same instructions. -/
theorem decodeAll_loses_nothing (hdecoded : decodeAll code = .ok instructions) :
    Tiles 0 instructions code.length ∧
      AgreeOutside (Ignored instructions) 0 (rebuildFrom 0 instructions) code ∧
      ∀ other, decodeAll other = .ok instructions →
        AgreeOutside (Ignored instructions) 0 other code := by
  have hrebuilt := rebuild_agrees hdecoded
  refine ⟨?_, hrebuilt, ?_⟩
  · obtain ⟨layouts, _, rfl, rfl⟩ := exists_layouts_of_decodeAll hdecoded
    have htiles := InstructionLayout.tiles_toInstructions 0 layouts
    rw [Nat.zero_add] at htiles
    exact htiles
  · intro other hother
    exact (rebuild_agrees hother).symm.trans hrebuilt

/-- The code of a `nop`, a wide `iinc`, an `invokeinterface` and a
`tableswitch`, with the given byte wherever a byte says nothing. -/
def codeWith (filler : UInt8) : Bytes :=
  [0x00, 0xC4, 0x84, 0x01, 0x00, 0xFF, 0xFE, 0xB9, 0x00, 0x05, 0x02, filler,
    0xAA, filler, filler, filler, 0, 0, 0, 20, 0xFF, 0xFF, 0xFF, 0xFF, 0xFF, 0xFF, 0xFF, 0xFF,
    0, 0, 0, 4]

theorem decodeAll_loses_nothing_codeWith :
    ∃ instructions, decodeAll (codeWith 0) = .ok instructions ∧
      decodeAll (codeWith 9) = .ok instructions ∧ Tiles 0 instructions 32 ∧
      AgreeOutside (Ignored instructions) 0 (rebuildFrom 0 instructions) (codeWith 9) ∧
      AgreeOutside (Ignored instructions) 0 (codeWith 0) (codeWith 9) := by
  have hsame : decodeAll (codeWith 0) = decodeAll (codeWith 9) := by decide +kernel
  have hcount : List.length <$> decodeAll (codeWith 9) = .ok 4 := by decide +kernel
  obtain ⟨instructions, hdecoded, _⟩ := Outcome.map_eq_ok_iff.mp hcount
  rw [hdecoded] at hsame
  obtain ⟨htiles, hrebuilt, hothers⟩ := decodeAll_loses_nothing hdecoded
  exact ⟨instructions, hsame, hdecoded, htiles, hrebuilt, hothers _ hsame⟩

end Instruction

end JvmCalls

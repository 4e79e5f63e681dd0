import JvmCalls.Bytes.Progress
import JvmCalls.Instruction.Basic

/-!
# Decoding instructions

`Instruction.decode` reads one instruction at the cursor, which must stand in
the code of the whole method because jump tables are padded relative to its
start.  `Disassembly.ofCode` reads one instruction after another; it ends
because every instruction takes at least one byte.
-/

namespace JvmCalls

namespace Operand

/-- Fails unless `count` more bytes exist; does not move. -/
def require (count : Nat) : Decoder Unit := fun cursor =>
  if hasAtLeast cursor.rest count then .ok () cursor else .error .outOfBounds cursor

/-- Reads a jump table with a distance for each key of a range.  The table is
refused before it is read if the code cannot hold it. -/
def decodeTableSwitch (offset : Nat) : Decoder Operand := do
  Decoder.align 4
  let default ← Decoder.int32
  let low ← Decoder.int32
  let high ← Decoder.int32
  if high < low then
    Decoder.malformed (.reversedBounds offset low high)
  else
    let count := (high.toInt - low.toInt + 1).toNat
    require (4 * count)
    return tableSwitch default low high (← Decoder.replicate count Decoder.int32)

def decodePair : Decoder (Int32 × Int32) := do
  let key ← Decoder.int32
  let distance ← Decoder.int32
  return (key, distance)

/-- Reads a jump table of pairs.  The table is refused before it is read if
the code cannot hold it. -/
def decodeLookupSwitch (offset : Nat) : Decoder Operand := do
  Decoder.align 4
  let default ← Decoder.int32
  let count ← Decoder.int32
  if count < 0 then
    Decoder.malformed (.negativePairCount offset count)
  else
    require (8 * count.toInt.toNat)
    return lookupSwitch default (← Decoder.replicate count.toInt.toNat decodePair)

def decodeSlot (wide : Bool) : Decoder UInt16 := do
  if wide then Decoder.uint16 else return (← Decoder.uint8).toUInt16

def decodeDelta (wide : Bool) : Decoder Int16 := do
  if wide then Decoder.int16 else return (← Decoder.int8).toInt16

/-- Reads the operand of the instruction at `offset` with the given opcode. -/
def decode (offset : Nat) (wide : Bool) (opcode : Opcode) : Decoder Operand :=
  match opcode.info.operand with
  | .empty => return empty
  | .int8 => do return immediate (← Decoder.int8).toInt32
  | .int16 => do return immediate (← Decoder.int16).toInt32
  | .uint8 => do return immediate (← Decoder.uint8).toUInt32.toInt32
  | .slot => do return slot (← decodeSlot wide)
  | .constant8 => do return constant (← Decoder.uint8).toUInt16
  | .constant16 => do return constant (← Decoder.uint16)
  | .branch16 => do return branch (← Decoder.int16).toInt32
  | .branch32 => do return branch (← Decoder.int32)
  | .increment => do
      let slot ← decodeSlot wide
      return increment slot (← decodeDelta wide)
  | .interfaceCall => do
      let index ← Decoder.uint16
      let count ← Decoder.uint8
      Decoder.skip 1
      return interfaceCall index count
  | .dynamicCall => do
      let index ← Decoder.uint16
      Decoder.skip 2
      return constant index
  | .arrayCreation => do
      let index ← Decoder.uint16
      return arrayCreation index (← Decoder.uint8)
  | .tableSwitch => decodeTableSwitch offset
  | .lookupSwitch => decodeLookupSwitch offset
  | .wide => Decoder.malformed (.unwidenable opcode.info.mnemonic offset)

end Operand

namespace Instruction

def checkOffset (offset : Nat) : Decoder Unit :=
  if offset < BigEndian.capacity 4 then return () else Decoder.malformed (.excessiveOffset offset)

def opcodeOf (offset : Nat) (byte : UInt8) : Decoder Opcode :=
  match Opcode.ofByte? byte with
  | some opcode => return opcode
  | none => Decoder.malformed (.invalidOpcode byte offset)

/-- The byte with the opcode: the one behind the mark in the wide form. -/
def opcodeByte (wide : Bool) (first : UInt8) : Decoder UInt8 :=
  if wide then Decoder.uint8 else return first

/-- Reads the rest of the instruction at `offset` whose first byte is given. -/
def decodeBody (offset : Nat) (first : UInt8) : Decoder Instruction := do
  let wide := first == Opcode.wideByte
  let opcode ← opcodeOf offset (← opcodeByte wide first)
  if wide && !opcode.isWidenable then
    Decoder.malformed (.unwidenable opcode.info.mnemonic offset)
  else
    let operand ← Operand.decode offset wide opcode
    let size := (← Decoder.position) - offset
    checkOffset size
    return { offset, size, opcode, wide, operand }

def decode : Decoder Instruction := do
  let offset ← Decoder.position
  checkOffset offset
  decodeBody offset (← Decoder.uint8)

section Progress

open Decoder

theorem forward_require (count : Nat) : Forward (Operand.require count) := by
  intro cursor
  unfold Operand.require
  split <;> exact ⟨rfl, Nat.le_refl _⟩

theorem forward_decodeSlot (wide : Bool) : Forward (Operand.decodeSlot wide) := by
  cases wide
  · exact forward_bind forward_uint8 (fun _ => forward_pure _)
  · exact forward_uint16

theorem forward_decodeDelta (wide : Bool) : Forward (Operand.decodeDelta wide) := by
  cases wide
  · exact forward_bind forward_int8 (fun _ => forward_pure _)
  · exact forward_int16

theorem forward_decodeTableSwitch (offset : Nat) :
    Forward (Operand.decodeTableSwitch offset) := by
  refine forward_bind (forward_align 4) (fun _ => ?_)
  refine forward_bind forward_int32 (fun default => ?_)
  refine forward_bind forward_int32 (fun low => ?_)
  refine forward_bind forward_int32 (fun high => ?_)
  split
  · exact forward_throw _
  · refine forward_bind (forward_require _) (fun _ => ?_)
    exact forward_bind (forward_replicate _ forward_int32) (fun _ => forward_pure _)

theorem forward_decodePair : Forward Operand.decodePair :=
  forward_bind forward_int32 (fun _ => forward_bind forward_int32 (fun _ => forward_pure _))

theorem forward_decodeLookupSwitch (offset : Nat) :
    Forward (Operand.decodeLookupSwitch offset) := by
  refine forward_bind (forward_align 4) (fun _ => ?_)
  refine forward_bind forward_int32 (fun default => ?_)
  refine forward_bind forward_int32 (fun count => ?_)
  split
  · exact forward_throw _
  · refine forward_bind (forward_require _) (fun _ => ?_)
    exact forward_bind (forward_replicate _ forward_decodePair) (fun _ => forward_pure _)

theorem forward_decodeOperand (offset : Nat) (wide : Bool) (opcode : Opcode) :
    Forward (Operand.decode offset wide opcode) := by
  unfold Operand.decode
  split
  · exact forward_pure _
  · exact forward_bind forward_int8 (fun _ => forward_pure _)
  · exact forward_bind forward_int16 (fun _ => forward_pure _)
  · exact forward_bind forward_uint8 (fun _ => forward_pure _)
  · exact forward_bind (forward_decodeSlot wide) (fun _ => forward_pure _)
  · exact forward_bind forward_uint8 (fun _ => forward_pure _)
  · exact forward_bind forward_uint16 (fun _ => forward_pure _)
  · exact forward_bind forward_int16 (fun _ => forward_pure _)
  · exact forward_bind forward_int32 (fun _ => forward_pure _)
  · exact forward_bind (forward_decodeSlot wide) (fun _ =>
      forward_bind (forward_decodeDelta wide) (fun _ => forward_pure _))
  · exact forward_bind forward_uint16 (fun _ => forward_bind forward_uint8 (fun _ =>
      forward_bind (forward_skip 1) (fun _ => forward_pure _)))
  · exact forward_bind forward_uint16 (fun _ =>
      forward_bind (forward_skip 2) (fun _ => forward_pure _))
  · exact forward_bind forward_uint16 (fun _ =>
      forward_bind forward_uint8 (fun _ => forward_pure _))
  · exact forward_decodeTableSwitch offset
  · exact forward_decodeLookupSwitch offset
  · exact forward_throw _

theorem forward_checkOffset (offset : Nat) : Forward (checkOffset offset) := by
  unfold checkOffset
  split
  · exact forward_pure _
  · exact forward_throw _

theorem forward_opcodeOf (offset : Nat) (byte : UInt8) : Forward (opcodeOf offset byte) := by
  unfold opcodeOf
  split
  · exact forward_pure _
  · exact forward_throw _

theorem forward_opcodeByte (wide : Bool) (first : UInt8) :
    Forward (opcodeByte wide first) := by
  unfold opcodeByte
  split
  · exact forward_uint8
  · exact forward_pure _

theorem forward_decodeBody (offset : Nat) (first : UInt8) :
    Forward (decodeBody offset first) := by
  unfold decodeBody
  refine forward_bind (forward_opcodeByte _ first) (fun byte => ?_)
  refine forward_bind (forward_opcodeOf offset byte) (fun opcode => ?_)
  split
  · exact forward_throw _
  · refine forward_bind (forward_decodeOperand offset _ opcode) (fun operand => ?_)
    refine forward_bind forward_position (fun finish => ?_)
    exact forward_bind (forward_checkOffset _) (fun _ => forward_pure _)

theorem forward_decode : Forward decode := by
  refine forward_bind forward_position (fun offset => ?_)
  refine forward_bind (forward_checkOffset offset) (fun _ => ?_)
  exact forward_bind forward_uint8 (fun first => forward_decodeBody offset first)

/-- An instruction that was read lies behind the cursor and takes at least one
byte. -/
theorem position_lt_of_decode {cursor next : Cursor} {instruction : Instruction}
    (hread : decode cursor = .ok instruction next) :
    next.data = cursor.data ∧ cursor.position < next.position := by
  simp only [decode, Decoder.position, checkOffset, bind, EStateM.bind] at hread
  by_cases hsmall : cursor.position < BigEndian.capacity 4
  · simp only [hsmall, if_true, pure, EStateM.pure] at hread
    cases hfirst : uint8 cursor with
    | error fault middle => simp [hfirst] at hread
    | ok first middle =>
        simp only [hfirst] at hread
        have hmiddle := position_of_uint8 hfirst
        have hbody := forward_decodeBody cursor.position first middle
        rw [hread] at hbody
        refine ⟨hbody.1.trans hmiddle.1, Nat.lt_of_lt_of_le ?_ hbody.2⟩
        omega
  · rw [if_neg hsmall] at hread
    cases hread

theorem decode_shortens {cursor next : Cursor} {instruction : Instruction}
    (hread : decode cursor = .ok instruction next) :
    next.rest.length < cursor.rest.length := by
  have hmoved := position_lt_of_decode hread
  have hbound := next.position_le
  rw [Cursor.length_rest, Cursor.length_rest, hmoved.1]
  rw [hmoved.1] at hbound
  omega

end Progress

end Instruction

/-- The instructions of a byte string, up to its end or the first fault. -/
structure Disassembly where
  instructions : List Instruction
  fault : Option Fault
  position : Nat
  deriving DecidableEq, Repr

namespace Disassembly

/-- Reads instructions from the cursor on; `instructions` are those before it,
the last one first. -/
def collect (cursor : Cursor) (instructions : List Instruction) : Disassembly :=
  if cursor.atEnd then
    { instructions := instructions.reverse, fault := none, position := cursor.position }
  else
    match _hread : Instruction.decode cursor with
    | .ok instruction next => collect next (instruction :: instructions)
    | .error fault stop =>
        { instructions := instructions.reverse, fault := some fault, position := stop.position }
termination_by cursor.rest.length
decreasing_by exact Instruction.decode_shortens _hread

def ofCode (code : Bytes) : Disassembly :=
  collect (.start code) []

/-- The instructions, if the whole code could be read. -/
def complete (disassembly : Disassembly) : Except Fault (List Instruction) :=
  match disassembly.fault with
  | none => .ok disassembly.instructions
  | some fault => .error fault

end Disassembly

def Instruction.decodeAll (code : Bytes) : Except Fault (List Instruction) :=
  (Disassembly.ofCode code).complete

end JvmCalls

import JvmCalls.Proofs.Instruction.JumpTable
import JvmCalls.Proofs.Trapping.Booking

/-!
# Instructions

The count of a jump table comes from the data.  It is computed in signed words,
cast, and compared with the bytes that are left before a vector of that size is
asked for, so that neither the arithmetic nor the vector can trap: a table that
is refused is refused before there is a vector.  The size of an instruction is
the difference of two positions of which the second is not the smaller one,
since reads do not move backwards.
-/

namespace JvmCalls.Trapping

open Checked Reading

namespace Operand

open JvmCalls (Operand Opcode)

/-- The count of the distances of a jump table with a key for each of them. -/
def tableCount (low high : Int32) : Checked Defect Nat := do
  let difference ← SignedWord.sub high.toInt low.toInt
  Word.ofInt (← SignedWord.add difference 1)

def decodePair : Reading (Int32 × Int32) := do
  let key ← int32
  let distance ← int32
  return (key, distance)

def decodeSlot (wide : Bool) : Reading UInt16 := do
  if wide then uint16 else return (← uint8).toUInt16

def decodeDelta (wide : Bool) : Reading Int16 := do
  if wide then int16 else return (← int8).toInt16

/-- The division that bounds a vector compares its bytes with those that are left. -/
theorem div_lt_iff {size count bytes : Nat} (hsize : 0 < size) :
    bytes / size < count ↔ bytes < size * count := by
  rw [Nat.div_lt_iff_lt_mul hsize, Nat.mul_comm]

/-- The difference of two signed numbers of 32 bits is far from the ends of the
signed words. -/
theorem tableCount_eq {low high : Int32} (horder : ¬ high < low) :
    tableCount low high = .ok (high.toInt - low.toInt + 1).toNat := by
  have hlow := low.toInt_lt
  have hlow' := low.le_toInt
  have hhigh := high.toInt_lt
  have hhigh' := high.le_toInt
  rw [Int32.lt_iff_toInt_lt] at horder
  rw [tableCount, SignedWord.sub_eq (by constructor <;> omega), ok_bind,
    SignedWord.add_eq (by constructor <;> omega), ok_bind, Word.ofInt_eq (by omega) (by omega)]

theorem follows_decodePair : Follows decodePair JvmCalls.Operand.decodePair :=
  follows_then follows_int32 (fun _ => follows_then follows_int32 (fun _ => follows_pure _))

theorem follows_decodeSlot (wide : Bool) :
    Follows (decodeSlot wide) (JvmCalls.Operand.decodeSlot wide) := by
  cases wide with
  | true => exact follows_uint16
  | false => exact follows_then follows_uint8 (fun _ => follows_pure _)

theorem follows_decodeDelta (wide : Bool) :
    Follows (decodeDelta wide) (JvmCalls.Operand.decodeDelta wide) := by
  cases wide with
  | true => exact follows_int16
  | false => exact follows_then follows_int8 (fun _ => follows_pure _)

end Operand

namespace Instruction

open JvmCalls (Instruction Opcode)

def checkOffset (offset : Nat) : Reading Unit :=
  if offset < 2 ^ 32 then return () else malformed (.excessiveOffset offset)

/-- The byte with the opcode: the one behind the mark in the wide form. -/
def opcodeByte (wide : Bool) (first : UInt8) : Reading UInt8 :=
  if wide then uint8 else return first

theorem follows_checkOffset (offset : Nat) :
    Follows (checkOffset offset) (JvmCalls.Instruction.checkOffset offset) := by
  rw [checkOffset, JvmCalls.Instruction.checkOffset, show BigEndian.capacity 4 = 2 ^ 32 from rfl]
  split
  · exact follows_pure _
  · exact follows_malformed _

theorem follows_opcodeByte (wide : Bool) (first : UInt8) :
    Follows (opcodeByte wide first) (JvmCalls.Instruction.opcodeByte wide first) := by
  cases wide with
  | true => exact follows_uint8
  | false => exact follows_pure first

end Instruction

namespace Booking

open JvmCalls (Operand Opcode Instruction)
open Trapping.Operand (decodeDelta decodePair decodeSlot tableCount)
open Trapping.Instruction (checkOffset opcodeByte)

variable {Value : Type}

/-- `count` values in a vector that is asked to hold them all, unless fewer bytes are
left than they take, which is `size` for each of them. -/
def boundedVector (size count : Nat) (item : Reading Value) : Booking (List Value) := do
  if (← left) / size < count then
    fail .outOfBounds
  else
    reserve count size
    replicate count item

def decodeTableSwitch (offset : Nat) : Booking Operand := do
  align 4
  let default ← int32
  let low ← int32
  let high ← int32
  if high < low then
    malformed (.reversedBounds offset low high)
  else
    let count ← ofChecked (tableCount low high)
    return .tableSwitch default low high (← boundedVector 4 count int32)

def decodeLookupSwitch (offset : Nat) : Booking Operand := do
  align 4
  let default ← int32
  let count ← int32
  if count < 0 then
    malformed (.negativePairCount offset count)
  else
    let pairs ← ofChecked (Word.ofInt count.toInt)
    return .lookupSwitch default (← boundedVector 8 pairs decodePair)

def decodeOperand (offset : Nat) (wide : Bool) (opcode : Opcode) : Booking Operand :=
  match opcode.info.operand with
  | .empty => return .empty
  | .int8 => do return .immediate (← int8).toInt32
  | .int16 => do return .immediate (← int16).toInt32
  | .uint8 => do return .immediate (← uint8).toUInt32.toInt32
  | .slot => do return .slot (← decodeSlot wide)
  | .constant8 => do return .constant (← uint8).toUInt16
  | .constant16 => do return .constant (← uint16)
  | .branch16 => do return .branch (← int16).toInt32
  | .branch32 => do return .branch (← int32)
  | .increment => do
      let slot ← decodeSlot wide
      return .increment slot (← decodeDelta wide)
  | .interfaceCall => do
      let index ← uint16
      let count ← uint8
      skip 1
      return .interfaceCall index count
  | .dynamicCall => do
      let index ← uint16
      skip 2
      return .constant index
  | .arrayCreation => do
      let index ← uint16
      return .arrayCreation index (← uint8)
  | .tableSwitch => decodeTableSwitch offset
  | .lookupSwitch => decodeLookupSwitch offset
  | .wide => malformed (.unwidenable opcode.info.mnemonic offset)

def decodeBody (offset : Nat) (first : UInt8) : Booking Instruction := do
  let wide := first == Opcode.wideByte
  let byte ← opcodeByte wide first
  match Opcode.ofByte? byte with
  | none => malformed (.invalidOpcode byte offset)
  | some opcode =>
      if wide && !opcode.isWidenable then
        malformed (.unwidenable opcode.info.mnemonic offset)
      else
        let operand ← decodeOperand offset wide opcode
        let finish ← position
        let size ← ofChecked (Word.sub finish offset)
        checkOffset size
        return { offset, size, opcode, wide, operand }

def decode : Booking Instruction := do
  let offset ← position
  checkOffset offset
  decodeBody offset (← uint8)

variable {start : Nat}

/-- The vector for the items of a table is booked if the bytes left could fill it, and
then they do fill it.  It takes no more than the bytes that are left, which are in
memory. -/
theorem books_boundedVector {Item : Type} {table : JumpTable Item} (hregular : table.Regular)
    {item : Reading Item} (hitem : Follows item table.item) (count : Nat) :
    Books start (boundedVector table.width count item)
      (JvmCalls.Operand.require (table.width * count) >>= fun _ =>
        Decoder.replicate count table.item) (fun items => [items.length]) := by
  intro cursor hsmall _ before
  have hbytes := cursor.length_rest
  have hleft : (liftM left : Booking Nat) { reader := .ofCursor cursor, reserved := before } =
      .ok cursor.rest.length { reader := .ofCursor cursor, reserved := before } := by
    rw [lift_apply, left_ofCursor]
  rw [boundedVector, Outcome.run_bind_of_ok hleft]
  by_cases hshort : cursor.rest.length < table.width * count
  · rw [if_pos ((Operand.div_lt_iff hregular.width_pos).mpr hshort),
      Outcome.run_bind_of_error (JvmCalls.Operand.require_of_lt hshort)]
    exact .fault .outOfBounds cursor [] (fun _ => rfl)
  · have hroom := Nat.le_of_not_lt hshort
    obtain ⟨items, next, hcount, hspans⟩ := hregular.exists_spans hroom
    have hread : Decoder.replicate count table.item cursor = .ok items next :=
      (Decoder.replicate_eq_ok_iff hregular.item_iff).mpr ⟨hcount, hspans⟩
    have hmemory : count * table.width < 2 ^ 63 := by
      rw [Nat.mul_comm]
      omega
    have hreserve := reserve_apply hmemory (.ofCursor cursor) before
    obtain ⟨hrun, _⟩ := follows_replicate count hitem cursor hsmall
    rw [if_neg (fun hless => hshort ((Operand.div_lt_iff hregular.width_pos).mp hless)),
      Outcome.run_bind_of_ok hreserve, lift_apply, hrun,
      Outcome.run_bind_of_ok (JvmCalls.Operand.require_of_le hroom), hread, ← hcount]
    exact .value items next

theorem books_decodeTableSwitch (offset : Nat) :
    Books start (decodeTableSwitch offset) (JvmCalls.Operand.decodeTableSwitch offset)
      JvmCalls.Operand.tableSizes := by
  refine books_then (books_lift (follows_align (by decide) (by decide)))
    (Decoder.forward_align 4) (fun _ => ?_)
  refine books_then (books_lift follows_int32) Decoder.forward_int32 (fun default => ?_)
  refine books_then (books_lift follows_int32) Decoder.forward_int32 (fun low => ?_)
  refine books_then (books_lift follows_int32) Decoder.forward_int32 (fun high => ?_)
  by_cases horder : high < low
  · rw [if_pos horder, if_pos horder]
    exact books_malformed _
  · rw [if_neg horder, if_neg horder, Operand.tableCount_eq horder, lift_ofChecked_ok,
      pure_bind]
    simp only
    rw [← bind_assoc]
    exact books_return (JvmCalls.Operand.tableSwitch default low high)
      (books_boundedVector (JumpTable.regular_ofRange default low high) follows_int32 _)
      (fun distances => rfl)

theorem books_decodeLookupSwitch (offset : Nat) :
    Books start (decodeLookupSwitch offset) (JvmCalls.Operand.decodeLookupSwitch offset)
      JvmCalls.Operand.tableSizes := by
  refine books_then (books_lift (follows_align (by decide) (by decide)))
    (Decoder.forward_align 4) (fun _ => ?_)
  refine books_then (books_lift follows_int32) Decoder.forward_int32 (fun default => ?_)
  refine books_then (books_lift follows_int32) Decoder.forward_int32 (fun count => ?_)
  by_cases hnegative : count < 0
  · rw [if_pos hnegative, if_pos hnegative]
    exact books_malformed _
  · have hhigh := count.toInt_lt
    have hlow : ¬ count.toInt < 0 := fun hless => hnegative (Int32.lt_iff_toInt_lt.mpr hless)
    rw [if_neg hnegative, if_neg hnegative, Word.ofInt_eq (by omega) (by omega),
      lift_ofChecked_ok, pure_bind, ← bind_assoc]
    exact books_return (JvmCalls.Operand.lookupSwitch default)
      (books_boundedVector (JumpTable.regular_ofPairs default count) Operand.follows_decodePair _)
      (fun pairs => rfl)

theorem books_decodeOperand (offset : Nat) (wide : Bool) (opcode : Opcode) :
    Books start (decodeOperand offset wide opcode) (JvmCalls.Operand.decode offset wide opcode)
      JvmCalls.Operand.tableSizes := by
  rw [decodeOperand, JvmCalls.Operand.decode]
  cases opcode.info.operand with
  | empty => exact books_pure rfl
  | int8 => exact books_return _ (books_lift follows_int8) (fun _ => rfl)
  | int16 | branch16 => exact books_return _ (books_lift follows_int16) (fun _ => rfl)
  | uint8 | constant8 => exact books_return _ (books_lift follows_uint8) (fun _ => rfl)
  | constant16 => exact books_return _ (books_lift follows_uint16) (fun _ => rfl)
  | branch32 => exact books_return _ (books_lift follows_int32) (fun _ => rfl)
  | slot =>
      exact books_return _ (books_lift (Operand.follows_decodeSlot wide)) (fun _ => rfl)
  | increment =>
      refine books_then (books_lift (Operand.follows_decodeSlot wide))
        (Instruction.forward_decodeSlot wide) (fun slot => ?_)
      exact books_return _ (books_lift (Operand.follows_decodeDelta wide)) (fun _ => rfl)
  | interfaceCall =>
      refine books_then (books_lift follows_uint16) Decoder.forward_uint16 (fun index => ?_)
      refine books_then (books_lift follows_uint8) Decoder.forward_uint8 (fun count => ?_)
      exact books_return _ (books_lift (follows_skip 1)) (fun _ => rfl)
  | dynamicCall =>
      refine books_then (books_lift follows_uint16) Decoder.forward_uint16 (fun index => ?_)
      exact books_return _ (books_lift (follows_skip 2)) (fun _ => rfl)
  | arrayCreation =>
      refine books_then (books_lift follows_uint16) Decoder.forward_uint16 (fun index => ?_)
      exact books_return _ (books_lift follows_uint8) (fun _ => rfl)
  | tableSwitch => exact books_decodeTableSwitch offset
  | lookupSwitch => exact books_decodeLookupSwitch offset
  | wide => exact books_malformed _

/-- An instruction ends in the code, so its size is refused only in code that is longer
than offsets count. -/
theorem books_size {offset : Nat} {wide : Bool} {opcode : Opcode} {booking : Booking Operand}
    {decoder : Decoder Operand} (hbooks : Books offset booking decoder JvmCalls.Operand.tableSizes)
    (hforward : Decoder.Forward decoder) :
    Books offset
      (do let operand ← booking
          let finish ← position
          let size ← ofChecked (Word.sub finish offset)
          checkOffset size
          return JvmCalls.Instruction.mk offset size opcode wide operand)
      (do let operand ← decoder
          let size := (← Decoder.position) - offset
          JvmCalls.Instruction.checkOffset size
          return JvmCalls.Instruction.mk offset size opcode wide operand)
      (fun instruction => instruction.operand.tableSizes) := by
  intro cursor hsmall hstart before
  have hbooks := hbooks cursor hsmall hstart before
  have hmoved := hforward cursor
  generalize hrun : booking { reader := .ofCursor cursor, reserved := before } = result at hbooks
  generalize hread : decoder cursor = result' at hbooks hmoved
  cases hbooks with
  | value operand next =>
      obtain ⟨hdata, hposition⟩ := hmoved
      simp only [Decoder.reached] at hdata hposition
      have hbound := hdata ▸ next.position_le
      rw [Outcome.run_bind_of_ok hrun, Outcome.run_bind_of_ok hread]
      change Accounts _ _ _
        ((JvmCalls.Instruction.checkOffset (next.position - offset) >>= _) next)
        (((liftM (ofChecked (Word.sub next.position offset)) : Booking Nat) >>= _) _)
      rw [Word.sub_eq (Nat.le_trans hstart hposition), lift_ofChecked_ok, pure_bind,
        checkOffset]
      by_cases hsize : next.position - offset < 2 ^ 32
      · rw [if_pos hsize, JvmCalls.Instruction.checkOffset_of_lt hsize]
        exact .value (JvmCalls.Instruction.mk offset _ opcode wide operand) next
      · have hrefused : JvmCalls.Instruction.checkOffset (next.position - offset) =
            Decoder.malformed (.excessiveOffset (next.position - offset)) := if_neg hsize
        rw [if_neg hsize, hrefused]
        exact .fault _ next operand.tableSizes (fun hshort => absurd hsize (by omega))
  | fault fault next vain hvain =>
      rw [Outcome.run_bind_of_error hrun, Outcome.run_bind_of_error hread]
      exact .fault fault next vain hvain

theorem books_decodeBody (offset : Nat) (first : UInt8) :
    Books offset (decodeBody offset first) (JvmCalls.Instruction.decodeBody offset first)
      (fun instruction => instruction.operand.tableSizes) := by
  refine books_then (books_lift (Instruction.follows_opcodeByte _ first))
    (JvmCalls.Instruction.forward_opcodeByte _ first) (fun byte => ?_)
  rw [JvmCalls.Instruction.opcodeOf]
  cases Opcode.ofByte? byte with
  | none => exact books_malformed _
  | some opcode =>
      simp only [pure_bind]
      split
      · exact books_malformed _
      · exact books_size (books_decodeOperand offset _ opcode)
          (JvmCalls.Instruction.forward_decodeOperand offset _ opcode)

/-- Reading an instruction books the items of the jump table that its operand is. -/
theorem books_decode :
    Books 0 decode JvmCalls.Instruction.decode
      (fun instruction => instruction.operand.tableSizes) := by
  intro cursor hsmall _
  have hbooks : Books cursor.position
      (do checkOffset cursor.position
          decodeBody cursor.position (← uint8))
      (do JvmCalls.Instruction.checkOffset cursor.position
          JvmCalls.Instruction.decodeBody cursor.position (← Decoder.uint8))
      (fun instruction => instruction.operand.tableSizes) :=
    books_then (books_lift (Instruction.follows_checkOffset _))
      (JvmCalls.Instruction.forward_checkOffset _) (fun _ =>
        books_then (books_lift follows_uint8) Decoder.forward_uint8 (fun first =>
          books_decodeBody cursor.position first))
  exact hbooks cursor hsmall (Nat.le_refl _)

theorem decode_eq_booked {cursor : Cursor} (hshort : cursor.data.length < 2 ^ 32)
    (before : List Nat) :
    decode { reader := .ofCursor cursor, reserved := before } =
      booked (fun instruction => instruction.operand.tableSizes) before
        (JvmCalls.Instruction.decode cursor) :=
  (books_decode cursor (by omega) (Nat.zero_le _) before).eq_booked hshort

end Booking

namespace Instruction

open JvmCalls (Instruction Opcode)

def decode : Reading Instruction := Booking.decode.toReading

/-- Reads instructions to the end of the code; `instructions` are those before
the reader. -/
def streamFrom (reader : Reader) (instructions : List Instruction) :
    Checked Fault (List Instruction) :=
  if reader.position < reader.data.length then
    match decode reader with
    | .ok instruction next =>
        if next.left < reader.left then
          streamFrom next (instructions ++ [instruction])
        else
          trap .stall
    | .error halt _ => .error halt
  else
    return instructions
termination_by reader.left

theorem follows_decode : Follows decode JvmCalls.Instruction.decode :=
  Booking.books_decode.follows JvmCalls.Instruction.forward_decode

/-- The loop ends, because each instruction takes a byte, and reads what is read
instruction by instruction. -/
theorem streamFrom_eq (cursor : Cursor) (hsmall : cursor.data.length < 2 ^ 63)
    (instructions : List Instruction) :
    streamFrom (.ofCursor cursor) instructions.reverse =
      total (Disassembly.collect cursor instructions).complete := by
  fun_induction Disassembly.collect cursor instructions with
  | case1 cursor instructions hend =>
      have hrest := cursor.length_rest
      rw [List.isEmpty_iff.mp hend, List.length_nil] at hrest
      rw [streamFrom, Reader.ofCursor, if_neg (by simp only; omega)]
      rfl
  | case2 cursor instructions hmore instruction next hread ih =>
      obtain ⟨hdata, hposition⟩ := Instruction.position_lt_of_decode hread
      have hbound := next.position_le
      obtain ⟨hrun, _⟩ := follows_decode cursor hsmall
      rw [hread] at hrun
      rw [hdata] at hbound
      have hless : (Reader.ofCursor next).left < (Reader.ofCursor cursor).left := by
        simp only [Reader.left, Reader.ofCursor, hdata]
        omega
      rw [streamFrom, if_pos (by simp only [Reader.ofCursor]; omega), hrun]
      simp only [image]
      rw [if_pos hless, ← List.reverse_cons]
      exact ih (hdata ▸ hsmall)
  | case3 cursor instructions hmore fault stop hread =>
      have hrest := cursor.length_rest
      have hpositive : 0 < cursor.rest.length := by
        rw [List.length_pos_iff]
        intro hempty
        exact hmore (List.isEmpty_iff.mpr hempty)
      obtain ⟨hrun, _⟩ := follows_decode cursor hsmall
      rw [hread] at hrun
      rw [streamFrom, if_pos (by simp only [Reader.ofCursor]; omega), hrun]
      rfl

end Instruction

end JvmCalls.Trapping

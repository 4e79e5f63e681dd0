import JvmCalls.Constant.Pool
import JvmCalls.Proofs.Bytes.Accepts
import JvmCalls.Proofs.Text.ModifiedUtf8

/-!
# Reading back constants

A constant of any kind is read back from its stored form, and so is a pool, in
which every eight-byte constant takes a second slot.  Only the length of a text
and the count of the slots have to fit their two bytes.
-/

namespace JvmCalls

open Decoder

namespace Constant

/-- Whether the constant can be stored: a text must not be longer than its
length field can say. -/
def Fits : Constant → Prop
  | utf8 text => (ModifiedUtf8.encode text).length < 0x10000
  | _ => True

instance (constant : Constant) : Decidable constant.Fits := by
  unfold Fits
  split <;> infer_instance

theorem accepts_text {content : String} {length : Nat}
    (hlength : (ModifiedUtf8.encode content).length = length) :
    Accepts (ModifiedUtf8.text length) (ModifiedUtf8.encode content) content :=
  accepts_last (accepts_bytes hlength) (accepts_ofExcept (ModifiedUtf8.decode_encode content))

theorem accepts_decodeIndices (build : UInt16 → UInt16 → Constant) (first second : UInt16) :
    Accepts (decodeIndices build) (encodeIndex first ++ encodeIndex second)
      (build first second) :=
  accepts_bind (accepts_uint16 first) (accepts_return (build first) (accepts_uint16 second))

theorem accepts_decodeFields {constant : Constant} (hfits : constant.Fits) :
    Accepts (decodeFields constant.tag) constant.encodeFields constant := by
  cases constant with
  | utf8 text =>
      obtain ⟨length, hlength, hread⟩ := exists_accepts_uint16 hfits
      exact accepts_bind hread (accepts_return utf8 (accepts_text hlength.symm))
  | integer value => exact accepts_return integer (accepts_int32 value)
  | float bits => exact accepts_return float (accepts_uint32 bits)
  | long value => exact accepts_return long (accepts_int64 value)
  | double bits => exact accepts_return double (accepts_uint64 bits)
  | classRef name => exact accepts_return classRef (accepts_uint16 name)
  | string text => exact accepts_return string (accepts_uint16 text)
  | methodType descriptor => exact accepts_return methodType (accepts_uint16 descriptor)
  | moduleRef name => exact accepts_return moduleRef (accepts_uint16 name)
  | packageRef name => exact accepts_return packageRef (accepts_uint16 name)
  | methodHandle kind reference =>
      exact accepts_bind (accepts_uint8 kind)
        (accepts_return (methodHandle kind) (accepts_uint16 reference))
  | fieldRef | methodRef | interfaceMethodRef | nameAndType | dynamic | invokeDynamic =>
      exact accepts_decodeIndices _ _ _

/-- A constant is read back from its stored form, whichever slot it goes to. -/
theorem accepts_decode {constant : Constant} (index : Nat) (hfits : constant.Fits) :
    Accepts (decode index) constant.encode constant := by
  have hfields := accepts_decodeFields hfits
  apply accepts_bind (accepts_uint8 constant.tag.code)
  rw [Tag.ofCode?_code]
  exact hfields

end Constant

namespace ConstantPool

open Constant

/-- A constant that is read fills its slots behind the slots before it. -/
theorem decodeSlots_of_decode {constant : Constant} {index : Nat} {cursor middle : Cursor}
    (hread : Constant.decode index cursor = .ok constant middle) (remaining : Nat)
    (slots : Array (Option Constant)) :
    decodeSlots index ((slotsOf constant).length + remaining) slots cursor =
      decodeSlots (index + (slotsOf constant).length) remaining
        (slots ++ (slotsOf constant).toArray) middle := by
  cases hwide : constant.isWide with
  | true =>
      have hslots : slotsOf constant = [some constant, none] := by simp [slotsOf, hwide]
      have hremaining : 2 + remaining = remaining + 1 + 1 := Nat.add_comm 2 remaining
      have hfilled : slots ++ [some constant, none].toArray =
          (slots.push (some constant)).push none := by
        rw [← Array.toList_inj]
        simp
      rw [hslots, hfilled, List.length_cons, List.length_singleton, hremaining, decodeSlots,
        Outcome.run_bind_of_ok hread, if_pos hwide]
  | false =>
      have hslots : slotsOf constant = [some constant] := by simp [slotsOf, hwide]
      have hfilled : slots ++ [some constant].toArray = slots.push (some constant) := by simp
      rw [hslots, hfilled, List.length_singleton, Nat.add_comm 1 remaining, decodeSlots,
        Outcome.run_bind_of_ok hread, if_neg (by simp [hwide])]

/-- Constants that are read one after another fill their slots, and the others are
read behind them.  The induction is on the constants, not on the slots that remain,
because a constant may take two of them. -/
theorem decodeSlots_append {Item : Type} {constantOf : Item → Constant} {bytesOf : Item → Bytes}
    {items : List Item}
    (hitems : ∀ item ∈ items, ∀ index,
      Accepts (Constant.decode index) (bytesOf item) (constantOf item))
    {cursor middle : Cursor} (hspans : cursor.Spans (items.flatMap bytesOf) middle)
    (index remaining : Nat) (slots : Array (Option Constant)) :
    decodeSlots index (((items.map constantOf).flatMap slotsOf).length + remaining) slots cursor =
      decodeSlots (index + ((items.map constantOf).flatMap slotsOf).length) remaining
        (slots ++ ((items.map constantOf).flatMap slotsOf).toArray) middle := by
  induction items generalizing cursor index slots with
  | nil =>
      rw [Cursor.spans_nil_iff.mp hspans]
      simp
  | cons item items ih =>
      rw [List.forall_mem_cons] at hitems
      obtain ⟨behind, hitem, hothers⟩ := Cursor.spans_append_iff.mp hspans
      have hread := hitems.1 index hitem
      rw [List.map_cons, List.flatMap_cons, List.length_append, Nat.add_assoc,
        decodeSlots_of_decode hread, ih hitems.2 hothers, Nat.add_assoc, Array.append_assoc,
        List.append_toArray (slotsOf (constantOf item)) _]

/-- Constants are read back behind the slots before them. -/
theorem accepts_decodeSlots {constants : List Constant}
    (hfits : ∀ constant ∈ constants, constant.Fits) (index : Nat)
    (slots : Array (Option Constant)) :
    Accepts (decodeSlots index (constants.flatMap slotsOf).length slots)
      (constants.flatMap Constant.encode) (slots ++ (constants.flatMap slotsOf).toArray) := by
  intro cursor next hspans
  have hitems : ∀ constant ∈ constants, ∀ index,
      Accepts (Constant.decode index) constant.encode (id constant) :=
    fun constant hmem index => Constant.accepts_decode index (hfits constant hmem)
  have hread := decodeSlots_append hitems hspans index 0 slots
  rw [List.map_id, Nat.add_zero] at hread
  rw [hread]
  rfl

/-- A pool is read back as the one that holds its constants. -/
theorem accepts_decode {constants : List Constant}
    (hfits : ∀ constant ∈ constants, constant.Fits)
    (hsize : (ofList constants).size < 0x10000) :
    Accepts decode (encode constants) (ofList constants) := by
  obtain ⟨count, hcount, hread⟩ := exists_accepts_uint16 hsize
  have hslots := accepts_decodeSlots hfits 1 #[none]
  have hremaining : count.toNat = (constants.flatMap slotsOf).length + 1 := by
    simp [hcount, size, ofList]
  apply accepts_bind hread
  rw [hremaining]
  have hpool := accepts_return ConstantPool.mk hslots
  simpa [ofList] using hpool

end ConstantPool

end JvmCalls

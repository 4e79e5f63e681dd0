import JvmCalls.Proofs.Bytes.Spans
import JvmCalls.Proofs.Constant.Resolution

/-!
# Stored constants

Every constant of a pool that was read stands in the bytes as its stored form,
one behind the other, with the count of the slots in front.  A text has many
stored forms, because the bytes of a text are not looked at in full, so that a
`StoredConstant` keeps the bytes beside the constant.
-/

namespace JvmCalls

open BigEndian Decoder Outcome

namespace Constant

/-- Whether the bytes are a form of the constant: its only one, or for a text
the length and the bytes of any content that is read as the text. -/
def IsStoredAs (bytes : Bytes) : Constant → Prop
  | utf8 text => ∃ content : Bytes, content.length < 0x10000 ∧
      ModifiedUtf8.decode content = .ok text ∧
      bytes = Tag.utf8.code :: (digits 2 content.length ++ content)
  | other => bytes = other.encode

structure Stored where
  constant : Constant
  bytes : Bytes
  isStored : constant.IsStoredAs bytes

variable {cursor next : Cursor} {constant : Constant}

theorem spans_of_decodeIndices {build : UInt16 → UInt16 → Constant}
    (hread : decodeIndices build cursor = .ok constant next) :
    ∃ first second, constant = build first second ∧
      cursor.Spans (encodeIndex first ++ encodeIndex second) next := by
  obtain ⟨first, middle, hfirst, hrest⟩ := run_bind_eq_ok_iff.mp hread
  obtain ⟨second, hsecond, rfl⟩ := run_return_eq_ok_iff.mp hrest
  exact ⟨first, second, rfl, (uint16_eq_ok_iff.mp hfirst).append (uint16_eq_ok_iff.mp hsecond)⟩

theorem spans_of_decodeText {text : String} {length : Nat}
    (hread : ModifiedUtf8.text length cursor = .ok text next) :
    ∃ content : Bytes, content.length = length ∧ ModifiedUtf8.decode content = .ok text ∧
      cursor.Spans content next := by
  obtain ⟨content, middle, hcontent, htext⟩ := run_bind_eq_ok_iff.mp hread
  obtain ⟨hlength, hspans⟩ := bytes_eq_ok_iff.mp hcontent
  obtain ⟨hdecoded, rfl⟩ := ofExcept_eq_ok_iff.mp htext
  exact ⟨content, hlength, hdecoded, hspans⟩

theorem exists_bytes_of_decodeFields {tag : Tag}
    (hread : decodeFields tag cursor = .ok constant next) :
    ∃ bytes, cursor.Spans bytes next ∧ constant.IsStoredAs (tag.code :: bytes) := by
  cases tag with
  | utf8 =>
      obtain ⟨length, middle, hlength, hrest⟩ := run_bind_eq_ok_iff.mp hread
      obtain ⟨text, htext, rfl⟩ := run_return_eq_ok_iff.mp hrest
      obtain ⟨content, hcount, hdecoded, hspans⟩ := spans_of_decodeText htext
      have hfits := length.toNat_lt
      have hfront := uint16_eq_ok_iff.mp hlength
      rw [← hcount] at hfits hfront
      exact ⟨_, hfront.append hspans, content, hfits, hdecoded, rfl⟩
  | fieldRef | methodRef | interfaceMethodRef | nameAndType | dynamic | invokeDynamic =>
      obtain ⟨first, second, rfl, hspans⟩ := spans_of_decodeIndices hread
      exact ⟨_, hspans, rfl⟩
  | classRef | string | methodType | moduleRef | packageRef =>
      obtain ⟨index, hindex, rfl⟩ := run_return_eq_ok_iff.mp hread
      exact ⟨_, uint16_eq_ok_iff.mp hindex, rfl⟩
  | integer =>
      obtain ⟨value, hvalue, rfl⟩ := run_return_eq_ok_iff.mp hread
      exact ⟨_, int32_eq_ok_iff.mp hvalue, rfl⟩
  | float =>
      obtain ⟨bits, hbits, rfl⟩ := run_return_eq_ok_iff.mp hread
      exact ⟨_, uint32_eq_ok_iff.mp hbits, rfl⟩
  | long =>
      obtain ⟨value, hvalue, rfl⟩ := run_return_eq_ok_iff.mp hread
      exact ⟨_, int64_eq_ok_iff.mp hvalue, rfl⟩
  | double =>
      obtain ⟨bits, hbits, rfl⟩ := run_return_eq_ok_iff.mp hread
      exact ⟨_, uint64_eq_ok_iff.mp hbits, rfl⟩
  | methodHandle =>
      obtain ⟨kind, middle, hkind, hrest⟩ := run_bind_eq_ok_iff.mp hread
      obtain ⟨reference, hreference, rfl⟩ := run_return_eq_ok_iff.mp hrest
      have hfront := uint8_eq_ok_iff.mp hkind
      rw [digits_one] at hfront
      exact ⟨_, hfront.append (uint16_eq_ok_iff.mp hreference), rfl⟩

/-- A constant is read from a stored form of it. -/
theorem exists_bytes_of_decode {index : Nat} (hread : decode index cursor = .ok constant next) :
    ∃ bytes, cursor.Spans bytes next ∧ constant.IsStoredAs bytes := by
  obtain ⟨byte, middle, hbyte, hrest⟩ := run_bind_eq_ok_iff.mp hread
  have hfront := uint8_eq_ok_iff.mp hbyte
  rw [digits_one] at hfront
  cases htag : Tag.ofCode? byte with
  | none =>
      rw [htag] at hrest
      cases hrest
  | some tag =>
      rw [htag] at hrest
      obtain ⟨bytes, hspans, hstored⟩ := exists_bytes_of_decodeFields hrest
      rw [Tag.code_eq_of_ofCode? htag] at hstored
      exact ⟨byte :: bytes, hfront.append hspans, hstored⟩

end Constant

namespace ConstantPool

def ofStored (constants : List Constant.Stored) : ConstantPool :=
  .ofList (constants.map Constant.Stored.constant)

/-- The count of the slots and the constants, as they are stored. -/
def encodeStored (constants : List Constant.Stored) : Bytes :=
  digits 2 (ofStored constants).size ++ constants.flatMap Constant.Stored.bytes

variable {cursor next : Cursor}

/-- The slots that were read are those of constants that stand one behind the
other.  The induction is strong, because a constant may take two slots. -/
theorem exists_stored_of_decodeSlots {index remaining : Nat}
    {slots found : Array (Option Constant)}
    (hread : decodeSlots index remaining slots cursor = .ok found next) :
    ∃ constants : List Constant.Stored,
      cursor.Spans (constants.flatMap Constant.Stored.bytes) next ∧
      ((constants.map Constant.Stored.constant).flatMap slotsOf).length = remaining ∧
      found = slots ++ ((constants.map Constant.Stored.constant).flatMap slotsOf).toArray := by
  induction remaining using Nat.strongRecOn generalizing index slots cursor with
  | _ remaining ih =>
      cases remaining with
      | zero =>
          cases hread
          exact ⟨[], Cursor.spans_nil_iff.mpr rfl, rfl, by simp⟩
      | succ remaining =>
          rw [decodeSlots] at hread
          obtain ⟨constant, middle, hconstant, hrest⟩ := run_bind_eq_ok_iff.mp hread
          obtain ⟨bytes, hspans, hstored⟩ := Constant.exists_bytes_of_decode hconstant
          split at hrest
          · next hwide =>
              cases remaining with
              | zero => cases hrest
              | succ remaining =>
                  obtain ⟨constants, hmore, hlength, rfl⟩ := ih remaining (by omega) hrest
                  refine ⟨⟨constant, bytes, hstored⟩ :: constants, hspans.append hmore, ?_, ?_⟩
                  · simp [slotsOf, hwide, ← hlength]
                  · simp [slotsOf, hwide]
          · next hnarrow =>
              obtain ⟨constants, hmore, hlength, rfl⟩ := ih remaining (by omega) hrest
              refine ⟨⟨constant, bytes, hstored⟩ :: constants, hspans.append hmore, ?_, ?_⟩
              · simp [slotsOf, hnarrow, ← hlength]
              · simp [slotsOf, hnarrow]

/-- A pool is read from the stored forms of its constants. -/
theorem exists_stored_of_decode {pool : ConstantPool} (hread : decode cursor = .ok pool next) :
    ∃ constants, pool = ofStored constants ∧ pool.size < 0x10000 ∧
      cursor.Spans (encodeStored constants) next := by
  obtain ⟨count, middle, hcount, hrest⟩ := run_bind_eq_ok_iff.mp hread
  cases hremaining : count.toNat with
  | zero =>
      rw [hremaining] at hrest
      cases hrest
  | succ remaining =>
      rw [hremaining] at hrest
      obtain ⟨slots, hslots, rfl⟩ := run_return_eq_ok_iff.mp hrest
      obtain ⟨constants, hspans, hlength, rfl⟩ := exists_stored_of_decodeSlots hslots
      have hpool : ConstantPool.mk (#[none] ++
          ((constants.map Constant.Stored.constant).flatMap slotsOf).toArray) =
          ofStored constants := by
        simp [ofStored, ofList]
      have hsize : (ofStored constants).size = count.toNat := by
        rw [hremaining, ← hlength, ← hpool]
        simp [size, Nat.add_comm]
      have hfront := uint16_eq_ok_iff.mp hcount
      rw [← hsize] at hfront
      refine ⟨constants, hpool, ?_, hfront.append hspans⟩
      rw [hpool, hsize]
      exact count.toNat_lt

end ConstantPool

end JvmCalls

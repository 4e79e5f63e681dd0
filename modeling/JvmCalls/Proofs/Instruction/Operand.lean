import JvmCalls.Instruction.Decode
import JvmCalls.Instruction.Layout
import JvmCalls.Proofs.Bytes.Spans

/-!
# Operands and their bytes

An operand is read from exactly the bytes it is written with, whatever stands
in the bytes without meaning.  Numbers narrower than the operand they end up in
are extended by the reader and cut by the writer, which loses nothing on the
operands that fit their opcode.
-/

namespace JvmCalls.Operand

open BigEndian Decoder Outcome

/-! ## Numbers of one and two bytes -/

section Signed

theorem toInt_int8 (value : Int8) :
    value.toInt = if 2 * value.toUInt8.toNat < 256 then (value.toUInt8.toNat : Int)
      else value.toUInt8.toNat - 256 :=
  BitVec.toInt_eq_toNat_cond value.toBitVec

theorem toInt_int16 (value : Int16) :
    value.toInt = if 2 * value.toUInt16.toNat < 65536 then (value.toUInt16.toNat : Int)
      else value.toUInt16.toNat - 65536 :=
  BitVec.toInt_eq_toNat_cond value.toBitVec

theorem toInt_int32 (value : Int32) :
    value.toInt = if 2 * value.toUInt32.toNat < 4294967296 then (value.toUInt32.toNat : Int)
      else value.toUInt32.toNat - 4294967296 :=
  BitVec.toInt_eq_toNat_cond value.toBitVec

/-- A small number has the same signed and unsigned form. -/
theorem exists_int32_of_lt {number : Nat} (hsmall : number < 0x80000000) :
    ∃ value : Int32, value.toUInt32.toNat = number ∧ value.toInt = number := by
  have hnumber : (UInt32.ofNat number).toInt32.toUInt32.toNat = number :=
    UInt32.toNat_ofNat_of_lt' (by change _ < 4294967296; omega)
  have hsign := toInt_int32 (UInt32.ofNat number).toInt32
  rw [hnumber, if_pos (by omega)] at hsign
  exact ⟨(UInt32.ofNat number).toInt32, hnumber, hsign⟩

theorem encodeSigned_int8 (value : Int8) :
    encodeSigned 1 value.toInt32 = digits 1 value.toUInt8.toNat := by
  have hwide := toInt_int32 value.toInt32
  have hnarrow := toInt_int8 value
  rw [Int8.toInt_toInt32] at hwide
  apply digits_congr
  change _ % 256 = _ % 256
  split at hwide <;> split at hnarrow <;> omega

theorem encodeSigned_int16 (value : Int16) :
    encodeSigned 2 value.toInt32 = digits 2 value.toUInt16.toNat := by
  have hwide := toInt_int32 value.toInt32
  have hnarrow := toInt_int16 value
  rw [Int16.toInt_toInt32] at hwide
  apply digits_congr
  change _ % 65536 = _ % 65536
  split at hwide <;> split at hnarrow <;> omega

theorem encodeSigned_uint8 (value : UInt8) :
    encodeSigned 1 value.toUInt32.toInt32 = digits 1 value.toNat := by
  apply digits_congr
  have hsame : value.toUInt32.toInt32.toUInt32.toNat = value.toNat := UInt8.toNat_toUInt32 value
  rw [hsame]

theorem toInt_uint8 (value : UInt8) : value.toUInt32.toInt32.toInt = value.toNat := by
  have hwide := toInt_int32 value.toUInt32.toInt32
  have hsame : value.toUInt32.toInt32.toUInt32.toNat = value.toNat := UInt8.toNat_toUInt32 value
  have hbyte := value.toNat_lt
  rw [hsame, if_pos (by omega)] at hwide
  exact hwide

theorem fitsSigned_one_iff {value : Int32} :
    FitsSigned 1 value.toInt ↔ ∃ small : Int8, small.toInt32 = value := by
  have hcapacity : (capacity 1 : Int) = 256 := rfl
  rw [FitsSigned, hcapacity]
  constructor
  · rintro ⟨hlow, hhigh⟩
    refine ⟨Int8.ofInt value.toInt, Int32.toInt_inj.mp ?_⟩
    rw [Int8.toInt_toInt32, Int8.toInt_ofInt_of_le (by omega) (by omega)]
  · rintro ⟨small, rfl⟩
    have hlow := small.le_toInt
    have hhigh := small.toInt_lt
    rw [Int8.toInt_toInt32]
    omega

theorem fitsSigned_two_iff {value : Int32} :
    FitsSigned 2 value.toInt ↔ ∃ small : Int16, small.toInt32 = value := by
  have hcapacity : (capacity 2 : Int) = 65536 := rfl
  rw [FitsSigned, hcapacity]
  constructor
  · rintro ⟨hlow, hhigh⟩
    refine ⟨Int16.ofInt value.toInt, Int32.toInt_inj.mp ?_⟩
    rw [Int16.toInt_toInt32, Int16.toInt_ofInt_of_le (by omega) (by omega)]
  · rintro ⟨small, rfl⟩
    have hlow := small.le_toInt
    have hhigh := small.toInt_lt
    rw [Int16.toInt_toInt32]
    omega

theorem fitsByte_iff {value : Int32} :
    0 ≤ value.toInt ∧ value.toInt < 256 ↔ ∃ small : UInt8, small.toUInt32.toInt32 = value := by
  constructor
  · rintro ⟨hlow, hhigh⟩
    have hsmall : (UInt8.ofNat value.toInt.toNat).toNat = value.toInt.toNat :=
      UInt8.toNat_ofNat_of_lt' (by change _ < 256; omega)
    refine ⟨UInt8.ofNat value.toInt.toNat, Int32.toInt_inj.mp ?_⟩
    rw [toInt_uint8, hsmall, Int.toNat_of_nonneg hlow]
  · rintro ⟨small, rfl⟩
    have hbyte := small.toNat_lt
    rw [toInt_uint8]
    omega

theorem toNat_lt_256_iff {index : UInt16} :
    index.toNat < 256 ↔ ∃ small : UInt8, small.toUInt16 = index := by
  constructor
  · intro hsmall
    have hcut : (UInt8.ofNat index.toNat).toNat = index.toNat :=
      UInt8.toNat_ofNat_of_lt' hsmall
    refine ⟨UInt8.ofNat index.toNat, UInt16.toNat_inj.mp ?_⟩
    rw [UInt8.toNat_toUInt16, hcut]
  · rintro ⟨small, rfl⟩
    rw [UInt8.toNat_toUInt16]
    exact small.toNat_lt

end Signed

section Read

variable {cursor next : Cursor}

/-- A small number that is extended behind its read can be any number that fits,
and is read from the bytes that the extended number is cut to. -/
theorem extended_iff {Small Large : Type} {reader : Decoder Small} {width : Nat}
    {toNat : Small → Nat} (extend : Small → Large) (encode : Large → Bytes) {fits : Large → Prop}
    (hreader : ∀ {small}, reader cursor = .ok small next ↔
      cursor.Spans (digits width (toNat small)) next)
    (hencode : ∀ small, encode (extend small) = digits width (toNat small))
    (hfits : ∀ {value}, fits value ↔ ∃ small, extend small = value) {value : Large} :
    (∃ small, reader cursor = .ok small next ∧ extend small = value) ↔
      fits value ∧ cursor.Spans (encode value) next := by
  simp only [hreader, hfits]
  constructor
  · rintro ⟨small, hspans, rfl⟩
    rw [hencode]
    exact ⟨⟨small, rfl⟩, hspans⟩
  · rintro ⟨⟨small, rfl⟩, hspans⟩
    rw [hencode] at hspans
    exact ⟨small, hspans, rfl⟩

theorem extended_int8_iff {value : Int32} :
    (∃ small, int8 cursor = .ok small next ∧ small.toInt32 = value) ↔
      FitsSigned 1 value.toInt ∧ cursor.Spans (encodeSigned 1 value) next :=
  extended_iff Int8.toInt32 (encodeSigned 1) int8_eq_ok_iff encodeSigned_int8 fitsSigned_one_iff

theorem extended_int16_iff {value : Int32} :
    (∃ small, int16 cursor = .ok small next ∧ small.toInt32 = value) ↔
      FitsSigned 2 value.toInt ∧ cursor.Spans (encodeSigned 2 value) next :=
  extended_iff Int16.toInt32 (encodeSigned 2) int16_eq_ok_iff encodeSigned_int16 fitsSigned_two_iff

theorem extended_uint8_iff {value : Int32} :
    (∃ small, uint8 cursor = .ok small next ∧ small.toUInt32.toInt32 = value) ↔
      (0 ≤ value.toInt ∧ value.toInt < 256) ∧ cursor.Spans (encodeSigned 1 value) next :=
  extended_iff (fun small => small.toUInt32.toInt32) (encodeSigned 1) uint8_eq_ok_iff
    encodeSigned_uint8 fitsByte_iff

theorem extended_index_iff {index : UInt16} :
    (∃ small, uint8 cursor = .ok small next ∧ small.toUInt16 = index) ↔
      index.toNat < 256 ∧ cursor.Spans (digits 1 index.toNat) next :=
  extended_iff UInt8.toUInt16 (fun index => digits 1 index.toNat) uint8_eq_ok_iff (fun _ => rfl)
    toNat_lt_256_iff

theorem decodeSlot_eq_ok_iff {wide : Bool} {index : UInt16} :
    decodeSlot wide cursor = .ok index next ↔
      index.toNat < capacity (slotWidth wide) ∧
        cursor.Spans (digits (slotWidth wide) index.toNat) next := by
  cases wide with
  | false =>
      change (uint8 >>= fun small => pure small.toUInt16) cursor = .ok index next ↔ _
      rw [run_return_eq_ok_iff]
      exact extended_index_iff
  | true =>
      change uint16 cursor = .ok index next ↔ _
      rw [uint16_eq_ok_iff]
      exact (and_iff_right index.toNat_lt).symm

theorem decodeDelta_eq_ok_iff {wide : Bool} {delta : Int16} :
    decodeDelta wide cursor = .ok delta next ↔
      FitsSigned (slotWidth wide) delta.toInt ∧
        cursor.Spans (encodeSigned (slotWidth wide) delta.toInt32) next := by
  rw [← Int16.toInt_toInt32]
  cases wide with
  | false =>
      change (int8 >>= fun small => pure small.toInt16) cursor = .ok delta next ↔
        FitsSigned 1 _ ∧ cursor.Spans (encodeSigned 1 _) next
      rw [run_return_eq_ok_iff, ← extended_int8_iff]
      have hextended : ∀ small : Int8, small.toInt32 = delta.toInt32 ↔ small.toInt16 = delta := by
        intro small
        rw [← Int32.toInt_inj, ← Int16.toInt_inj, Int8.toInt_toInt32, Int16.toInt_toInt32,
          Int8.toInt_toInt16]
      simp only [hextended]
  | true =>
      change int16 cursor = .ok delta next ↔
        FitsSigned 2 _ ∧ cursor.Spans (encodeSigned 2 _) next
      rw [int16_eq_ok_iff, encodeSigned_int16]
      exact (and_iff_right (fitsSigned_two_iff.mpr ⟨delta, rfl⟩)).symm

theorem decodePair_eq_ok_iff {pair : Int32 × Int32} :
    decodePair cursor = .ok pair next ↔
      cursor.Spans (encodeSigned 4 pair.1 ++ encodeSigned 4 pair.2) next := by
  rw [decodePair, run_bind_eq_ok_iff, Cursor.spans_append_iff]
  simp only [run_return_eq_ok_iff, int32_eq_ok_iff]
  constructor
  · rintro ⟨key, middle, hkey, distance, hdistance, rfl⟩
    exact ⟨middle, hkey, hdistance⟩
  · rintro ⟨middle, hkey, hdistance⟩
    exact ⟨pair.1, middle, hkey, pair.2, hdistance, rfl⟩

/-! ## Operands of several numbers -/

theorem increment_eq_ok_iff {wide : Bool} {operand : Operand} :
    (do
        let slot ← decodeSlot wide
        return .increment slot (← decodeDelta wide) : Decoder Operand) cursor = .ok operand next ↔
      operand.Fits wide .increment ∧
        ∃ ignored, ignored.length = OperandKind.increment.ignoredCount cursor.position ∧
          cursor.Spans (operand.encode wide ignored .increment) next := by
  rw [run_bind_eq_ok_iff]
  simp only [run_return_eq_ok_iff, decodeSlot_eq_ok_iff, decodeDelta_eq_ok_iff]
  constructor
  · rintro ⟨index, middle, ⟨hslot, hindex⟩, delta, ⟨hsmall, hdelta⟩, rfl⟩
    exact ⟨⟨hslot, hsmall⟩, [], rfl, hindex.append hdelta⟩
  · rintro ⟨hfits, ignored, _, hspans⟩
    cases operand with
    | increment index delta =>
        obtain ⟨middle, hindex, hdelta⟩ := Cursor.spans_append_iff.mp hspans
        exact ⟨index, middle, ⟨hfits.1, hindex⟩, delta, ⟨hfits.2, hdelta⟩, rfl⟩
    | _ => exact hfits.elim

theorem interfaceCall_eq_ok_iff {wide : Bool} {operand : Operand} :
    (do
        let index ← uint16
        let count ← uint8
        skip 1
        return .interfaceCall index count : Decoder Operand) cursor = .ok operand next ↔
      operand.Fits wide .interfaceCall ∧
        ∃ ignored, ignored.length = OperandKind.interfaceCall.ignoredCount cursor.position ∧
          cursor.Spans (operand.encode wide ignored .interfaceCall) next := by
  simp only [run_bind_eq_ok_iff, uint16_eq_ok_iff, uint8_eq_ok_iff, skip_eq_ok_iff]
  constructor
  · rintro ⟨index, first, hindex, count, second, hcount, _, third, ⟨ignored, hlength, hrest⟩,
      hresult⟩
    cases hresult
    rw [digits_one] at hcount
    exact ⟨trivial, ignored, hlength, hindex.append (hcount.append hrest)⟩
  · rintro ⟨hfits, ignored, hlength, hspans⟩
    cases operand with
    | interfaceCall index count =>
        obtain ⟨first, hindex, hbehind⟩ := Cursor.spans_append_iff.mp hspans
        rw [← List.singleton_append, ← digits_one, Cursor.spans_append_iff] at hbehind
        obtain ⟨second, hcount, hrest⟩ := hbehind
        exact ⟨index, first, hindex, count, second, hcount, (), next,
          ⟨ignored, hlength, hrest⟩, rfl⟩
    | _ => exact hfits.elim

theorem dynamicCall_eq_ok_iff {wide : Bool} {operand : Operand} :
    (do
        let index ← uint16
        skip 2
        return .constant index : Decoder Operand) cursor = .ok operand next ↔
      operand.Fits wide .dynamicCall ∧
        ∃ ignored, ignored.length = OperandKind.dynamicCall.ignoredCount cursor.position ∧
          cursor.Spans (operand.encode wide ignored .dynamicCall) next := by
  simp only [run_bind_eq_ok_iff, uint16_eq_ok_iff, skip_eq_ok_iff]
  constructor
  · rintro ⟨index, first, hindex, _, second, ⟨ignored, hlength, hrest⟩, hresult⟩
    cases hresult
    exact ⟨trivial, ignored, hlength, hindex.append hrest⟩
  · rintro ⟨hfits, ignored, hlength, hspans⟩
    cases operand with
    | constant index =>
        obtain ⟨first, hindex, hrest⟩ := Cursor.spans_append_iff.mp hspans
        exact ⟨index, first, hindex, (), next, ⟨ignored, hlength, hrest⟩, rfl⟩
    | _ => exact hfits.elim

theorem arrayCreation_eq_ok_iff {wide : Bool} {operand : Operand} :
    (do
        let index ← uint16
        return .arrayCreation index (← uint8) : Decoder Operand) cursor = .ok operand next ↔
      operand.Fits wide .arrayCreation ∧
        ∃ ignored, ignored.length = OperandKind.arrayCreation.ignoredCount cursor.position ∧
          cursor.Spans (operand.encode wide ignored .arrayCreation) next := by
  rw [run_bind_eq_ok_iff]
  simp only [run_return_eq_ok_iff, uint16_eq_ok_iff, uint8_eq_ok_iff, digits_one]
  constructor
  · rintro ⟨index, middle, hindex, dimensions, hdimensions, rfl⟩
    exact ⟨trivial, [], rfl, hindex.append hdimensions⟩
  · rintro ⟨hfits, ignored, _, hspans⟩
    cases operand with
    | arrayCreation index dimensions =>
        obtain ⟨middle, hindex, hdimensions⟩ := Cursor.spans_append_iff.mp hspans
        exact ⟨index, middle, hindex, dimensions, hdimensions, rfl⟩
    | _ => exact hfits.elim

/-! ## Jump tables -/

theorem require_eq_ok_iff {count : Nat} {done : Unit} :
    require count cursor = .ok done next ↔ next = cursor ∧ count ≤ cursor.rest.length := by
  rw [require, ← hasAtLeast_iff]
  split
  · next hfits =>
      constructor
      · intro hread
        cases hread
        exact ⟨rfl, hfits⟩
      · rintro ⟨rfl, _⟩
        rfl
  · next hshort => simp [hshort]

theorem require_of_le {count : Nat} (hroom : count ≤ cursor.rest.length) :
    require count cursor = .ok () cursor :=
  if_pos (hasAtLeast_iff.mpr hroom)

theorem require_of_lt {count : Nat} (hshort : cursor.rest.length < count) :
    require count cursor = .error .outOfBounds cursor :=
  if_neg (fun hroom => Nat.not_le_of_lt hshort (hasAtLeast_iff.mp hroom))

theorem length_encodeSigned (count : Nat) (value : Int32) :
    (encodeSigned count value).length = count :=
  length_digits _ _

/-- A table is read from what its items are written with.  The room that is
required before changes nothing, because a table that can be read has it. -/
theorem decodeTable_eq_ok_iff {Item : Type} {item : Decoder Item} {encode : Item → Bytes}
    {width count : Nat} {build : List Item → Operand} {operand : Operand}
    (hitem : ∀ {cursor next value},
      item cursor = .ok value next ↔ cursor.Spans (encode value) next)
    (hwidth : ∀ value, (encode value).length = width) :
    (require (width * count) >>= fun _ => replicate count item >>= fun items =>
        pure (build items)) cursor = .ok operand next ↔
      ∃ items, build items = operand ∧ items.length = count ∧
        cursor.Spans (items.flatMap encode) next := by
  rw [run_bind_eq_ok_iff]
  simp only [require_eq_ok_iff, run_return_eq_ok_iff, replicate_eq_ok_iff hitem]
  constructor
  · rintro ⟨_, _, ⟨rfl, _⟩, items, ⟨hlength, hspans⟩, hbuild⟩
    exact ⟨items, hbuild, hlength, hspans⟩
  · rintro ⟨items, hbuild, hlength, hspans⟩
    have hroom := hspans.length_le
    rw [length_flatMap_of_width hwidth, hlength] at hroom
    exact ⟨(), cursor, ⟨rfl, hroom⟩, items, ⟨hlength, hspans⟩, hbuild⟩

theorem decodeTableSwitch_eq_ok_iff {offset : Nat} {wide : Bool} {operand : Operand} :
    decodeTableSwitch offset cursor = .ok operand next ↔
      operand.Fits wide .tableSwitch ∧
        ∃ ignored, ignored.length = Cursor.padding 4 cursor.position ∧
          cursor.Spans (operand.encode wide ignored .tableSwitch) next := by
  rw [decodeTableSwitch]
  simp only [run_bind_eq_ok_iff, align_eq_ok_iff, int32_eq_ok_iff]
  constructor
  · rintro ⟨_, first, ⟨ignored, hlength, hpadding⟩, default, second, hdefault, low, third, hlow,
      high, fourth, hhigh, hread⟩
    split at hread
    · cases hread
    · next hordered =>
        rw [Int32.lt_iff_toInt_lt] at hordered
        obtain ⟨distances, rfl, hcount, hdistances⟩ :=
          (decodeTable_eq_ok_iff int32_eq_ok_iff (length_encodeSigned 4)).mp hread
        refine ⟨⟨by omega, by omega⟩, ignored, hlength, ?_⟩
        exact (((hpadding.append hdefault).append hlow).append hhigh).append hdistances
  · rintro ⟨hfits, ignored, hlength, hspans⟩
    cases operand with
    | tableSwitch default low high distances =>
        obtain ⟨hordered, hcount⟩ := hfits
        simp only [Operand.encode, Cursor.spans_append_iff] at hspans
        obtain ⟨fourth, ⟨third, ⟨second, ⟨first, hpadding, hdefault⟩, hlow⟩, hhigh⟩,
          hdistances⟩ := hspans
        refine ⟨(), first, ⟨ignored, hlength, hpadding⟩, default, second, hdefault, low, third,
          hlow, high, fourth, hhigh, ?_⟩
        rw [if_neg (by rw [Int32.lt_iff_toInt_lt]; omega)]
        refine (decodeTable_eq_ok_iff int32_eq_ok_iff (length_encodeSigned 4)).mpr ?_
        exact ⟨distances, rfl, by omega, hdistances⟩
    | _ => exact hfits.elim

theorem decodeLookupSwitch_eq_ok_iff {offset : Nat} {wide : Bool} {operand : Operand} :
    decodeLookupSwitch offset cursor = .ok operand next ↔
      operand.Fits wide .lookupSwitch ∧
        ∃ ignored, ignored.length = Cursor.padding 4 cursor.position ∧
          cursor.Spans (operand.encode wide ignored .lookupSwitch) next := by
  have hwidth : ∀ pair : Int32 × Int32,
      (encodeSigned 4 pair.1 ++ encodeSigned 4 pair.2).length = 8 := by
    intro pair
    rw [List.length_append, length_encodeSigned, length_encodeSigned]
  rw [decodeLookupSwitch]
  simp only [run_bind_eq_ok_iff, align_eq_ok_iff, int32_eq_ok_iff]
  constructor
  · rintro ⟨_, first, ⟨ignored, hlength, hpadding⟩, default, second, hdefault, count, third,
      hcount, hread⟩
    have hsign := toInt_int32 count
    have hbound := count.toUInt32.toNat_lt
    split at hread
    · cases hread
    · next hpositive =>
        rw [Int32.lt_iff_toInt_lt, Int32.toInt_zero] at hpositive
        obtain ⟨pairs, rfl, hpairs, hspans⟩ :=
          (decodeTable_eq_ok_iff decodePair_eq_ok_iff hwidth).mp hread
        have hsame : pairs.length = count.toUInt32.toNat := by
          split at hsign <;> omega
        have hfits : pairs.length < 0x80000000 := by
          split at hsign <;> omega
        refine ⟨hfits, ignored, hlength, ?_⟩
        rw [Operand.encode, hsame]
        exact ((hpadding.append hdefault).append hcount).append hspans
  · rintro ⟨hfits, ignored, hlength, hspans⟩
    cases operand with
    | lookupSwitch default pairs =>
        have hsmall : pairs.length < 0x80000000 := hfits
        simp only [Operand.encode, Cursor.spans_append_iff] at hspans
        obtain ⟨third, ⟨second, ⟨first, hpadding, hdefault⟩, hcount⟩, hpairs⟩ := hspans
        obtain ⟨count, hnumber, hsign⟩ := exists_int32_of_lt hsmall
        rw [← hnumber] at hcount
        refine ⟨(), first, ⟨ignored, hlength, hpadding⟩, default, second, hdefault, count, third,
          hcount, ?_⟩
        rw [if_neg (by rw [Int32.lt_iff_toInt_lt, Int32.toInt_zero]; omega)]
        refine (decodeTable_eq_ok_iff decodePair_eq_ok_iff hwidth).mpr ?_
        exact ⟨pairs, rfl, by omega, hpairs⟩
    | _ => exact hfits.elim

end Read

/-- An operand is read behind an opcode exactly if it fits the opcode and the
bytes there are its bytes, up to those without meaning. -/
theorem decode_eq_ok_iff {offset : Nat} {wide : Bool} {opcode : Opcode} {cursor next : Cursor}
    {operand : Operand} :
    decode offset wide opcode cursor = .ok operand next ↔
      operand.Fits wide opcode.info.operand ∧
        ∃ ignored, ignored.length = opcode.info.operand.ignoredCount cursor.position ∧
          cursor.Spans (operand.encode wide ignored opcode.info.operand) next := by
  rw [decode.eq_def]
  cases opcode.info.operand with
  | empty =>
      cases operand with
      | empty =>
          simp only [Fits, Operand.encode, OperandKind.ignoredCount, Cursor.spans_nil_iff]
          constructor
          · intro hread
            cases hread
            exact ⟨trivial, [], rfl, rfl⟩
          · rintro ⟨_, _, _, rfl⟩
            rfl
      | _ => simp [Fits, pure, EStateM.pure]
  | int8 =>
      simp only [run_return_eq_ok_iff]
      cases operand with
      | immediate value =>
          simp [Fits, Operand.encode, OperandKind.ignoredCount, extended_int8_iff]
      | _ => simp [Fits]
  | int16 =>
      simp only [run_return_eq_ok_iff]
      cases operand with
      | immediate value =>
          simp [Fits, Operand.encode, OperandKind.ignoredCount, extended_int16_iff]
      | _ => simp [Fits]
  | uint8 =>
      simp only [run_return_eq_ok_iff]
      cases operand with
      | immediate value =>
          simp [Fits, Operand.encode, OperandKind.ignoredCount, extended_uint8_iff]
      | _ => simp [Fits]
  | slot =>
      simp only [run_return_eq_ok_iff]
      cases operand with
      | slot index => simp [Fits, Operand.encode, OperandKind.ignoredCount, decodeSlot_eq_ok_iff]
      | _ => simp [Fits]
  | constant8 =>
      simp only [run_return_eq_ok_iff]
      cases operand with
      | constant index =>
          simp [Fits, Operand.encode, OperandKind.ignoredCount, extended_index_iff]
      | _ => simp [Fits]
  | constant16 =>
      simp only [run_return_eq_ok_iff]
      cases operand with
      | constant index => simp [Fits, Operand.encode, OperandKind.ignoredCount, uint16_eq_ok_iff]
      | _ => simp [Fits]
  | branch16 =>
      simp only [run_return_eq_ok_iff]
      cases operand with
      | branch distance =>
          simp [Fits, Operand.encode, OperandKind.ignoredCount, extended_int16_iff]
      | _ => simp [Fits]
  | branch32 =>
      simp only [run_return_eq_ok_iff]
      cases operand with
      | branch distance =>
          simp [Fits, Operand.encode, OperandKind.ignoredCount, int32_eq_ok_iff, encodeSigned]
      | _ => simp [Fits]
  | increment => exact increment_eq_ok_iff
  | interfaceCall => exact interfaceCall_eq_ok_iff
  | dynamicCall => exact dynamicCall_eq_ok_iff
  | arrayCreation => exact arrayCreation_eq_ok_iff
  | tableSwitch => exact decodeTableSwitch_eq_ok_iff
  | lookupSwitch => exact decodeLookupSwitch_eq_ok_iff
  | wide =>
      simp only [Fits, false_and, iff_false]
      intro hread
      cases hread

end JvmCalls.Operand

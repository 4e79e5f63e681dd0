import JvmCalls.Proofs.Bytes.Spans

/-!
# Reading back what was written

`Decoder.Accepts` says that a decoder returns a value from certain bytes,
wherever they stand and whatever stands behind them.  A sequence of reads
accepts the bytes of its parts one after another, so that a format is read back
if each of its fields is.
-/

namespace JvmCalls.Decoder

open BigEndian

/-- From the bytes, wherever they stand, the decoder returns the value, and it
ends behind them. -/
def Accepts {Value : Type} (decoder : Decoder Value) (bytes : Bytes) (value : Value) : Prop :=
  ∀ ⦃cursor next⦄, cursor.Spans bytes next → decoder cursor = .ok value next

variable {Value Result Item : Type} {value : Value}

theorem accepts_pure (value : Value) : Accepts (pure value) [] value := by
  intro cursor next hspans
  rw [Cursor.spans_nil_iff.mp hspans]
  rfl

theorem accepts_bind {first : Decoder Value} {next : Value → Decoder Result}
    {left right : Bytes} {result : Result} (hfirst : Accepts first left value)
    (hnext : Accepts (next value) right result) :
    Accepts (first >>= next) (left ++ right) result := by
  intro cursor stop hspans
  obtain ⟨middle, hleft, hright⟩ := Cursor.spans_append_iff.mp hspans
  rw [Outcome.run_bind_of_ok (hfirst hleft)]
  exact hnext hright

/-- The last read of a sequence; what comes behind it needs no bytes. -/
theorem accepts_last {first : Decoder Value} {next : Value → Decoder Result} {bytes : Bytes}
    {result : Result} (hfirst : Accepts first bytes value)
    (hnext : Accepts (next value) [] result) : Accepts (first >>= next) bytes result := by
  have hbind : Accepts (first >>= next) (bytes ++ []) result := accepts_bind hfirst hnext
  rw [List.append_nil] at hbind
  exact hbind

theorem accepts_return {decoder : Decoder Value} {bytes : Bytes} (convert : Value → Result)
    (hdecoder : Accepts decoder bytes value) :
    Accepts (decoder >>= fun found => pure (convert found)) bytes (convert value) :=
  accepts_last hdecoder (accepts_pure (convert value))

theorem accepts_map {decoder : Decoder Value} {bytes : Bytes} (convert : Value → Result)
    (hdecoder : Accepts decoder bytes value) :
    Accepts (convert <$> decoder) bytes (convert value) := by
  rw [map_eq_pure_bind]
  exact accepts_return convert hdecoder

/-- A read that needs no bytes in front of another one. -/
theorem accepts_then {first : Decoder Value} {next : Value → Decoder Result} {bytes : Bytes}
    {result : Result} (hfirst : Accepts first [] value)
    (hnext : Accepts (next value) bytes result) : Accepts (first >>= next) bytes result :=
  accepts_bind hfirst hnext

theorem accepts_ofExcept {computed : Except Defect Value} (hcomputed : computed = .ok value) :
    Accepts (ofExcept computed) [] value := by
  rw [hcomputed]
  exact accepts_pure value

theorem accepts_bytes {content : Bytes} {count : Nat} (hlength : content.length = count) :
    Accepts (bytes count) content content :=
  fun _ _ hspans => bytes_eq_ok_iff.mpr ⟨hlength, hspans⟩

theorem accepts_skip {content : Bytes} {count : Nat} (hlength : content.length = count) :
    Accepts (skip count) content () :=
  fun _ _ hspans => skip_eq_ok_iff.mpr ⟨content, hlength, hspans⟩

theorem accepts_uint8 (value : UInt8) : Accepts uint8 [value] value := by
  intro cursor next hspans
  rw [uint8_eq_ok_iff, digits_one]
  exact hspans

theorem accepts_uint16 (value : UInt16) : Accepts uint16 (digits 2 value.toNat) value :=
  fun _ _ hspans => uint16_eq_ok_iff.mpr hspans

theorem accepts_uint32 (value : UInt32) : Accepts uint32 (digits 4 value.toNat) value :=
  fun _ _ hspans => uint32_eq_ok_iff.mpr hspans

theorem accepts_uint64 (value : UInt64) : Accepts uint64 (digits 8 value.toNat) value :=
  fun _ _ hspans => uint64_eq_ok_iff.mpr hspans

theorem accepts_int32 (value : Int32) : Accepts int32 (digits 4 value.toUInt32.toNat) value :=
  fun _ _ hspans => int32_eq_ok_iff.mpr hspans

theorem accepts_int64 (value : Int64) : Accepts int64 (digits 8 value.toUInt64.toNat) value :=
  fun _ _ hspans => int64_eq_ok_iff.mpr hspans

/-- A count that fits two bytes is read back from them. -/
theorem exists_accepts_uint16 {count : Nat} (hfits : count < 0x10000) :
    ∃ found : UInt16, found.toNat = count ∧ Accepts uint16 (digits 2 count) found := by
  have hcount : (UInt16.ofNat count).toNat = count := UInt16.toNat_ofNat_of_lt' hfits
  refine ⟨UInt16.ofNat count, hcount, ?_⟩
  have haccepts := accepts_uint16 (UInt16.ofNat count)
  rw [hcount] at haccepts
  exact haccepts

/-- A length that fits four bytes is read back from them. -/
theorem exists_accepts_uint32 {length : Nat} (hfits : length < 0x100000000) :
    ∃ found : UInt32, found.toNat = length ∧ Accepts uint32 (digits 4 length) found := by
  have hlength : (UInt32.ofNat length).toNat = length := UInt32.toNat_ofNat_of_lt' hfits
  refine ⟨UInt32.ofNat length, hlength, ?_⟩
  have haccepts := accepts_uint32 (UInt32.ofNat length)
  rw [hlength] at haccepts
  exact haccepts

/-- A read of a byte string of its own needs no bytes around it. -/
theorem accepts_within {inner : Decoder Value} {body : Bytes} (hinner : Accepts inner body value) :
    Accepts (within body inner) [] value := by
  intro cursor next hspans
  obtain ⟨stop, hstop⟩ := Cursor.exists_spans_start body
  rw [within, hinner hstop, Cursor.spans_nil_iff.mp hspans]

/-- Counted sequences are read back item by item. -/
theorem accepts_replicate {decoder : Decoder Value} {encode : Item → Bytes} {items : List Item}
    {values : List Value}
    (hitems : List.Forall₂ (fun item value => Accepts decoder (encode item) value) items values) :
    Accepts (replicate items.length decoder) (items.flatMap encode) values := by
  induction hitems with
  | nil =>
      rw [List.length_nil, replicate_zero]
      exact accepts_pure []
  | cons hitem _ ih =>
      rw [List.length_cons, replicate_succ, List.flatMap_cons]
      exact accepts_bind hitem (accepts_return _ ih)

end JvmCalls.Decoder

import JvmCalls.Bytes.Cursor
import JvmCalls.Proofs.Outcome

/-!
# Bytes between cursors

`Cursor.Spans` relates two cursors in one byte string to the bytes between
them.  What an elementary read returns and where it ends is settled by the
bytes it passes over: it succeeds exactly if these are the bytes its value is
written with.  A read of the whole form follows from the reads it is made of,
because the bytes of a sequence split where its parts meet.
-/

namespace JvmCalls

open BigEndian

namespace BigEndian

theorem value_digits_value (width : Nat) (bytes : Bytes) (hlength : bytes.length = width) :
    digits width (value bytes) = bytes := by
  rw [← hlength]
  exact digits_value bytes

/-- The digits of a number depend on the number modulo their capacity alone. -/
theorem digits_congr {width left right : Nat}
    (hmod : left % capacity width = right % capacity width) :
    digits width left = digits width right := by
  have hleft := value_digits_value width (digits width left) (length_digits width left)
  have hright := value_digits_value width (digits width right) (length_digits width right)
  rw [← hleft, ← hright, value_digits, value_digits, hmod]

theorem digits_one (byte : UInt8) : digits 1 byte.toNat = [byte] := by
  simp [digits]

section Width

variable {Item : Type} {encode : Item → Bytes} {width : Nat}

/-- Items that take as many bytes each as any other. -/
theorem length_flatMap_of_width (hwidth : ∀ item, (encode item).length = width)
    (items : List Item) : (items.flatMap encode).length = width * items.length := by
  induction items with
  | nil => rfl
  | cons item items ih =>
      rw [List.flatMap_cons, List.length_append, hwidth, ih, List.length_cons, Nat.mul_succ,
        Nat.add_comm]

/-- If any bytes of the width stand for an item, longer ones stand for many items. -/
theorem exists_items_of_length
    (hencode : ∀ bytes : Bytes, bytes.length = width → ∃ item, bytes = encode item) {count : Nat}
    {bytes : Bytes} (hlength : bytes.length = width * count) :
    ∃ items : List Item, items.length = count ∧ bytes = items.flatMap encode := by
  induction count generalizing bytes with
  | zero => exact ⟨[], rfl, List.length_eq_zero_iff.mp hlength⟩
  | succ count ih =>
      rw [Nat.mul_succ] at hlength
      have hfirst : (bytes.take width).length = width := List.length_take_of_le (by omega)
      have hothers : (bytes.drop width).length = width * count := by
        rw [List.length_drop]
        omega
      obtain ⟨item, hitem⟩ := hencode _ hfirst
      obtain ⟨items, hcount, hitems⟩ := ih hothers
      refine ⟨item :: items, congrArg (· + 1) hcount, ?_⟩
      rw [List.flatMap_cons, ← hitem, ← hitems, List.take_append_drop]

end Width

end BigEndian

namespace Cursor

/-- The second cursor stands behind the first one in the same byte string, with
`bytes` between them. -/
def Spans (cursor : Cursor) (bytes : Bytes) (next : Cursor) : Prop :=
  next.data = cursor.data ∧ cursor.rest = bytes ++ next.rest

variable {cursor middle next : Cursor} {bytes left right : Bytes}

theorem spans_iff_position : cursor.Spans bytes next ↔
    next.data = cursor.data ∧ next.position = cursor.position + bytes.length ∧
      cursor.rest.take bytes.length = bytes := by
  have hcursor := cursor.length_rest
  have hnext := next.length_rest
  have hbound := next.position_le
  have hstart := cursor.position_le
  constructor
  · rintro ⟨hdata, hrest⟩
    have hlength := congrArg List.length hrest
    rw [List.length_append] at hlength
    rw [hdata] at hnext hbound
    refine ⟨hdata, by omega, ?_⟩
    rw [hrest, List.take_left]
  · rintro ⟨hdata, hposition, htake⟩
    refine ⟨hdata, ?_⟩
    have hdrop : cursor.rest.drop bytes.length = next.rest := by
      rw [cursor.rest_eq, next.rest_eq, List.drop_drop, hdata, hposition]
    rw [← hdrop]
    calc cursor.rest
        = cursor.rest.take bytes.length ++ cursor.rest.drop bytes.length :=
          (List.take_append_drop _ _).symm
      _ = bytes ++ cursor.rest.drop bytes.length := by rw [htake]

theorem Spans.position (hspans : cursor.Spans bytes next) :
    next.position = cursor.position + bytes.length :=
  (spans_iff_position.mp hspans).2.1

theorem Spans.length_le (hspans : cursor.Spans bytes next) :
    bytes.length ≤ cursor.rest.length := by
  rw [hspans.2, List.length_append]
  exact Nat.le_add_right _ _

@[simp]
theorem spans_nil_iff : cursor.Spans [] next ↔ next = cursor := by
  constructor
  · intro hspans
    exact ext_position hspans.1 hspans.position
  · rintro rfl
    exact ⟨rfl, rfl⟩

theorem Spans.append (hleft : cursor.Spans left middle) (hright : middle.Spans right next) :
    cursor.Spans (left ++ right) next := by
  refine ⟨hright.1.trans hleft.1, ?_⟩
  rw [hleft.2, hright.2, List.append_assoc]

/-- Behind any bytes that the cursor stands at there is another cursor. -/
theorem exists_spans (cursor : Cursor) (hrest : cursor.rest = left ++ right) :
    ∃ middle, cursor.Spans left middle ∧ middle.rest = right := by
  have hlength := congrArg List.length hrest
  have hadvance : cursor.advance? left.length ≠ none := by
    rw [Ne, advance?_eq_none_iff]
    have hcursor := cursor.length_rest
    have hbound := cursor.position_le
    rw [List.length_append] at hlength
    omega
  obtain ⟨middle, hmiddle⟩ := Option.ne_none_iff_exists'.mp hadvance
  obtain ⟨hdata, hposition⟩ := advance?_eq_some_iff.mp hmiddle
  have hleft : cursor.Spans left middle := by
    rw [spans_iff_position]
    refine ⟨hdata, hposition, ?_⟩
    rw [hrest, List.take_left]
  have hboth := hleft.2.symm.trans hrest
  exact ⟨middle, hleft, List.append_cancel_left hboth⟩

theorem atEnd_iff : cursor.atEnd = true ↔ cursor.position = cursor.data.length := by
  have hlength := cursor.length_rest
  have hbound := cursor.position_le
  rw [atEnd, List.isEmpty_iff, ← List.length_eq_zero_iff]
  omega

/-- All bytes of a byte string stand behind its start. -/
theorem exists_spans_start (data : Bytes) : ∃ stop, (Cursor.start data).Spans data stop := by
  obtain ⟨stop, hspans, _⟩ := (Cursor.start data).exists_spans (List.append_nil data).symm
  exact ⟨stop, hspans⟩

/-- Where one part of the bytes ends and the next one starts stands a cursor. -/
theorem spans_append_iff : cursor.Spans (left ++ right) next ↔
    ∃ middle, cursor.Spans left middle ∧ middle.Spans right next := by
  constructor
  · intro hspans
    have hrest := hspans.2
    rw [List.append_assoc] at hrest
    obtain ⟨middle, hleft, hright⟩ := cursor.exists_spans hrest
    exact ⟨middle, hleft, hspans.1.trans hleft.1.symm, hright⟩
  · rintro ⟨middle, hleft, hright⟩
    exact hleft.append hright

end Cursor

namespace Decoder

open Outcome

variable {Value : Type} {cursor next : Cursor}

/-- A computation that reads nothing succeeds where it stands. -/
theorem ofExcept_eq_ok_iff {computed : Except Defect Value} {value : Value} :
    ofExcept computed cursor = .ok value next ↔ computed = .ok value ∧ next = cursor := by
  cases computed with
  | ok found =>
      constructor
      · intro hread
        cases hread
        exact ⟨rfl, rfl⟩
      · rintro ⟨hfound, rfl⟩
        cases hfound
        rfl
  | error defect =>
      constructor
      · intro hread
        cases hread
      · rintro ⟨hfound, _⟩
        cases hfound

theorem ofExcept_bind_eq_ok_iff {Result : Type} {computed : Except Defect Value}
    {continuation : Value → Decoder Result} {result : Result} :
    (ofExcept computed >>= continuation) cursor = .ok result next ↔
      ∃ value, computed = .ok value ∧ continuation value cursor = .ok result next := by
  simp only [run_bind_eq_ok_iff, ofExcept_eq_ok_iff]
  constructor
  · rintro ⟨value, _, ⟨hvalue, rfl⟩, hresult⟩
    exact ⟨value, hvalue, hresult⟩
  · rintro ⟨value, hvalue, hresult⟩
    exact ⟨value, cursor, ⟨hvalue, rfl⟩, hresult⟩

theorem within_eq_ok_iff {inner : Decoder Value} {body : Bytes} {value : Value} :
    within body inner cursor = .ok value next ↔
      next = cursor ∧ ∃ stop, inner (.start body) = .ok value stop := by
  rw [within]
  cases hinner : inner (.start body) with
  | ok found stop =>
      constructor
      · intro hread
        cases hread
        exact ⟨rfl, stop, rfl⟩
      · rintro ⟨rfl, _, hfound⟩
        cases hfound
        rfl
  | error fault stop => simp

theorem bytes_eq_ok_iff {count : Nat} {content : Bytes} :
    bytes count cursor = .ok content next ↔
      content.length = count ∧ cursor.Spans content next := by
  have hcursor := cursor.length_rest
  have hbound := cursor.position_le
  rw [Cursor.spans_iff_position, bytes]
  cases hadvance : cursor.advance? count with
  | none =>
      have hpast := Cursor.advance?_eq_none_iff.mp hadvance
      simp only [reduceCtorEq, false_iff]
      rintro ⟨hlength, hdata, hposition, _⟩
      have hinside := next.position_le
      rw [hdata] at hinside
      omega
  | some target =>
      obtain ⟨hdata, hposition⟩ := Cursor.advance?_eq_some_iff.mp hadvance
      simp only [EStateM.Result.ok.injEq]
      constructor
      · rintro ⟨rfl, rfl⟩
        have hinside := target.position_le
        rw [hdata] at hinside
        have hlength : (cursor.rest.take count).length = count := by
          rw [List.length_take]
          omega
        rw [hlength]
        exact ⟨rfl, hdata, hposition, rfl⟩
      · rintro ⟨hlength, hnext, hstop, htake⟩
        rw [hlength] at hstop htake
        exact ⟨htake, Cursor.ext_position (hdata.trans hnext.symm) (hposition.trans hstop.symm)⟩

theorem bytes_eq_error_iff {count : Nat} {fault : Fault} :
    bytes count cursor = .error fault next ↔
      cursor.rest.length < count ∧ fault = .outOfBounds ∧ next = cursor := by
  have hcursor := cursor.length_rest
  have hbound := cursor.position_le
  rw [bytes]
  cases hadvance : cursor.advance? count with
  | none =>
      have hpast := Cursor.advance?_eq_none_iff.mp hadvance
      have hshort : cursor.rest.length < count := by omega
      simp only [EStateM.Result.error.injEq, hshort, true_and]
      rw [eq_comm, @eq_comm _ cursor]
  | some target =>
      obtain ⟨hdata, hposition⟩ := Cursor.advance?_eq_some_iff.mp hadvance
      have hinside := target.position_le
      rw [hdata] at hinside
      simp only [reduceCtorEq, false_iff]
      omega

/-- Skipping bytes is reading them without a use for their values. -/
theorem skip_eq_bytes (count : Nat) : skip count = bytes count >>= fun _ => pure () := by
  funext cursor
  rw [skip, move]
  change _ = EStateM.bind (bytes count) _ cursor
  rw [EStateM.bind, bytes]
  cases cursor.advance? count with
  | none => rfl
  | some next => rfl

theorem skip_eq_ok_iff {count : Nat} {done : Unit} :
    skip count cursor = .ok done next ↔
      ∃ content, content.length = count ∧ cursor.Spans content next := by
  rw [skip_eq_bytes, run_return_eq_ok_iff]
  simp only [bytes_eq_ok_iff, and_true]

theorem align_eq_ok_iff {alignment : Nat} {done : Unit} :
    align alignment cursor = .ok done next ↔
      ∃ content, content.length = Cursor.padding alignment cursor.position ∧
        cursor.Spans content next :=
  skip_eq_ok_iff

/-- A number is read from exactly the bytes it is written with. -/
theorem number_eq_ok_iff {width found : Nat} :
    number width cursor = .ok found next ↔
      found < capacity width ∧ cursor.Spans (digits width found) next := by
  rw [number, run_bind_eq_ok_iff]
  constructor
  · rintro ⟨content, middle, hcontent, hfound⟩
    cases hfound
    obtain ⟨rfl, hspans⟩ := bytes_eq_ok_iff.mp hcontent
    rw [digits_value]
    exact ⟨value_lt content, hspans⟩
  · rintro ⟨hfits, hspans⟩
    refine ⟨digits width found, next, bytes_eq_ok_iff.mpr ⟨length_digits _ _, hspans⟩, ?_⟩
    rw [value_digits_of_lt hfits]
    rfl

/-- The same for the values of a type that stand for the numbers of a width. -/
theorem return_number_eq_ok_iff (width : Nat) {ofNat : Nat → Value} {toNat : Value → Nat}
    (hfits : ∀ value, toNat value < capacity width) (hof : ∀ value, ofNat (toNat value) = value)
    (hto : ∀ found < capacity width, toNat (ofNat found) = found) {value : Value} :
    (number width >>= fun found => pure (ofNat found)) cursor = .ok value next ↔
      cursor.Spans (digits width (toNat value)) next := by
  simp only [run_return_eq_ok_iff, number_eq_ok_iff]
  constructor
  · rintro ⟨found, ⟨hfound, hspans⟩, rfl⟩
    rw [hto found hfound]
    exact hspans
  · intro hspans
    exact ⟨toNat value, ⟨hfits value, hspans⟩, hof value⟩

theorem uint8_eq_ok_iff {value : UInt8} :
    uint8 cursor = .ok value next ↔ cursor.Spans (digits 1 value.toNat) next :=
  return_number_eq_ok_iff 1 (fun value => value.toNat_lt) (fun _ => UInt8.ofNat_toNat)
    (fun _ hfound => UInt8.toNat_ofNat_of_lt' hfound)

theorem uint16_eq_ok_iff {value : UInt16} :
    uint16 cursor = .ok value next ↔ cursor.Spans (digits 2 value.toNat) next :=
  return_number_eq_ok_iff 2 (fun value => value.toNat_lt) (fun _ => UInt16.ofNat_toNat)
    (fun _ hfound => UInt16.toNat_ofNat_of_lt' hfound)

theorem uint32_eq_ok_iff {value : UInt32} :
    uint32 cursor = .ok value next ↔ cursor.Spans (digits 4 value.toNat) next :=
  return_number_eq_ok_iff 4 (fun value => value.toNat_lt) (fun _ => UInt32.ofNat_toNat)
    (fun _ hfound => UInt32.toNat_ofNat_of_lt' hfound)

theorem uint64_eq_ok_iff {value : UInt64} :
    uint64 cursor = .ok value next ↔ cursor.Spans (digits 8 value.toNat) next :=
  return_number_eq_ok_iff 8 (fun value => value.toNat_lt) (fun _ => UInt64.ofNat_toNat)
    (fun _ hfound => UInt64.toNat_ofNat_of_lt' hfound)

/-- A signed value is read from what its unsigned form is read from. -/
theorem return_signed_eq_ok_iff {Unsigned : Type} {reader : Decoder Unsigned} {width : Nat}
    {toNat : Unsigned → Nat} {toSigned : Unsigned → Value} {toUnsigned : Value → Unsigned}
    (hreader : ∀ {found}, reader cursor = .ok found next ↔
      cursor.Spans (digits width (toNat found)) next)
    (hto : ∀ value, toSigned (toUnsigned value) = value)
    (hof : ∀ found, toUnsigned (toSigned found) = found) {value : Value} :
    (reader >>= fun found => pure (toSigned found)) cursor = .ok value next ↔
      cursor.Spans (digits width (toNat (toUnsigned value))) next := by
  rw [run_return_eq_ok_iff]
  constructor
  · rintro ⟨found, hfound, rfl⟩
    rw [hof]
    exact hreader.mp hfound
  · intro hspans
    exact ⟨toUnsigned value, hreader.mpr hspans, hto value⟩

theorem int8_eq_ok_iff {value : Int8} :
    int8 cursor = .ok value next ↔ cursor.Spans (digits 1 value.toUInt8.toNat) next :=
  return_signed_eq_ok_iff uint8_eq_ok_iff (fun _ => rfl) (fun _ => rfl)

theorem int16_eq_ok_iff {value : Int16} :
    int16 cursor = .ok value next ↔ cursor.Spans (digits 2 value.toUInt16.toNat) next :=
  return_signed_eq_ok_iff uint16_eq_ok_iff (fun _ => rfl) (fun _ => rfl)

theorem int32_eq_ok_iff {value : Int32} :
    int32 cursor = .ok value next ↔ cursor.Spans (digits 4 value.toUInt32.toNat) next :=
  return_signed_eq_ok_iff uint32_eq_ok_iff (fun _ => rfl) (fun _ => rfl)

theorem int64_eq_ok_iff {value : Int64} :
    int64 cursor = .ok value next ↔ cursor.Spans (digits 8 value.toUInt64.toNat) next :=
  return_signed_eq_ok_iff uint64_eq_ok_iff (fun _ => rfl) (fun _ => rfl)

/-! ## Counted sequences -/

variable {item : Decoder Value}

/-- What is read behind the items so far does not depend on them. -/
theorem collect_eq (count : Nat) (values : List Value) :
    collect item count values =
      replicate count item >>= fun found => pure (found.reverse ++ values) := by
  suffices hcollect : ∀ values more, collect item count (values ++ more) =
      collect item count values >>= fun found => pure (found ++ more) by
    have hvalues := hcollect [] values
    simpa [replicate] using hvalues
  induction count with
  | zero =>
      intro values more
      simp [collect]
  | succ count ih =>
      intro values more
      simp only [collect, bind_assoc]
      congr 1
      funext value
      exact ih (value :: values) more

@[simp]
theorem replicate_zero : replicate 0 item = pure [] := by
  simp [replicate, collect]

/-- A counted sequence is its first item and the sequence of the others. -/
theorem replicate_succ (count : Nat) : replicate (count + 1) item = do
    let value ← item
    let values ← replicate count item
    return value :: values := by
  rw [replicate, collect]
  simp only [collect_eq, bind_assoc, pure_bind, List.reverse_append, List.reverse_reverse,
    List.reverse_singleton, List.singleton_append]

/-- If the items are read from the bytes they are written with, so are counted
sequences of them. -/
theorem replicate_eq_ok_iff {encode : Value → Bytes}
    (hitem : ∀ {cursor next value},
      item cursor = .ok value next ↔ cursor.Spans (encode value) next)
    {count : Nat} {values : List Value} :
    replicate count item cursor = .ok values next ↔
      values.length = count ∧ cursor.Spans (values.flatMap encode) next := by
  induction count generalizing cursor values with
  | zero =>
      rw [replicate_zero, List.length_eq_zero_iff]
      constructor
      · intro hread
        cases hread
        exact ⟨rfl, Cursor.spans_nil_iff.mpr rfl⟩
      · rintro ⟨rfl, hspans⟩
        rw [Cursor.spans_nil_iff.mp hspans]
        rfl
  | succ count ih =>
      rw [replicate_succ, run_bind_eq_ok_iff]
      simp only [run_return_eq_ok_iff, hitem, ih]
      cases values with
      | nil => simp
      | cons value values =>
          rw [List.flatMap_cons, Cursor.spans_append_iff]
          constructor
          · rintro ⟨_, middle, hvalue, _, ⟨hlength, hvalues⟩, heq⟩
            cases heq
            exact ⟨congrArg (· + 1) hlength, middle, hvalue, hvalues⟩
          · rintro ⟨hlength, middle, hvalue, hvalues⟩
            exact ⟨value, middle, hvalue, values, ⟨Nat.succ.inj hlength, hvalues⟩, rfl⟩

end Decoder

end JvmCalls

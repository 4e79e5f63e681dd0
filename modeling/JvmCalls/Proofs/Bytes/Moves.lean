import JvmCalls.Proofs.Bytes.Spans

/-!
# Reads behind other bytes

`Decoder.Moves` compares a read of some data with a read of data that has more
bytes in front, both from the same place of the common data.  Both succeed and
end at the same place of it, or both fail with the same fault, except that the
second one counts the positions it names from the start of the longer data.
Like locality, the property is closed under sequencing, so that it is
established for the elementary reads and follows for all reads made of them.
-/

namespace JvmCalls

/-- The defect of code that stands so many bytes further on, as far as it names an offset
in the code. -/
def Defect.moved (distance : Nat) : Defect → Defect
  | invalidOpcode code offset => invalidOpcode code (offset + distance)
  | unwidenable mnemonic offset => unwidenable mnemonic (offset + distance)
  | reversedBounds offset low high => reversedBounds (offset + distance) low high
  | negativePairCount offset count => negativePairCount (offset + distance) count
  | excessiveOffset offset => excessiveOffset (offset + distance)
  | missingConstantOperand mnemonic offset => missingConstantOperand mnemonic (offset + distance)
  | defect => defect

def Fault.moved (distance : Nat) : Fault → Fault
  | malformed defect => malformed (defect.moved distance)
  | fault => fault

/-- The data of the second cursor is that of the first one with `front` before
it, both cursors have the same bytes ahead, and all positions in the data can be
written with four bytes. -/
structure Cursor.Prepends (front : Bytes) (alone joined : Cursor) : Prop where
  data : joined.data = front ++ alone.data
  position : joined.position = alone.position + front.length
  fits : joined.data.length < 0x100000000

namespace Cursor.Prepends

variable {front : Bytes} {alone joined : Cursor}

theorem rest (hprepends : Prepends front alone joined) : joined.rest = alone.rest := by
  rw [joined.rest_eq, alone.rest_eq, hprepends.data, hprepends.position, Nat.add_comm,
    ← List.drop_drop, List.drop_left]

theorem atEnd (hprepends : Prepends front alone joined) : joined.atEnd = alone.atEnd := by
  rw [Cursor.atEnd, Cursor.atEnd, hprepends.rest]

theorem position_lt (hprepends : Prepends front alone joined) :
    alone.position + front.length < 0x100000000 := by
  have hbound := joined.position_le
  rw [hprepends.position] at hbound
  exact Nat.lt_of_le_of_lt hbound hprepends.fits

/-- Both cursors pass over the same bytes. -/
theorem exists_spans {bytes : Bytes} {next : Cursor} (hprepends : Prepends front alone joined)
    (hspans : alone.Spans bytes next) :
    ∃ stop, joined.Spans bytes stop ∧ Prepends front next stop := by
  have hrest := hspans.2
  rw [← hprepends.rest] at hrest
  obtain ⟨stop, hstands, _⟩ := joined.exists_spans hrest
  refine ⟨stop, hstands, ?_, ?_, ?_⟩
  · rw [hstands.1, hspans.1, hprepends.data]
  · rw [hstands.position, hspans.position, hprepends.position, Nat.add_right_comm]
  · rw [hstands.1]
    exact hprepends.fits

end Cursor.Prepends

namespace Decoder

variable {Value Result Other : Type}

/-- The first read returned a value and the second one what it is converted to,
or both failed with the same fault up to the position it names. -/
inductive MovedOutcome (front : Bytes) (convert : Value → Result) :
    EStateM.Result Fault Cursor Value → EStateM.Result Fault Cursor Result → Prop
  | ok {value : Value} {alone joined : Cursor} (hcursor : Cursor.Prepends front alone joined) :
      MovedOutcome front convert (.ok value alone) (.ok (convert value) joined)
  | error {fault : Fault} {alone joined : Cursor} :
      MovedOutcome front convert (.error fault alone) (.error (fault.moved front.length) joined)

/-- The second decoder reads behind `front` what the first one reads without
it, up to a conversion of the value. -/
def Moves (front : Bytes) (convert : Value → Result) (first : Decoder Value)
    (second : Decoder Result) : Prop :=
  ∀ ⦃alone joined⦄, Cursor.Prepends front alone joined →
    MovedOutcome front convert (first alone) (second joined)

variable {front : Bytes} {convert : Value → Result}

theorem Moves.of_ok {first : Decoder Value} {second : Decoder Result} {alone joined next : Cursor}
    {value : Value} (hmoves : Moves front convert first second)
    (hprepends : Cursor.Prepends front alone joined) (hread : first alone = .ok value next) :
    ∃ stop, second joined = .ok (convert value) stop ∧ Cursor.Prepends front next stop := by
  have hmoved := hmoves hprepends
  rw [hread] at hmoved
  generalize second joined = outcome at hmoved
  cases hmoved with
  | ok hcursor => exact ⟨_, rfl, hcursor⟩

theorem Moves.of_error {first : Decoder Value} {second : Decoder Result}
    {alone joined next : Cursor} {fault : Fault} (hmoves : Moves front convert first second)
    (hprepends : Cursor.Prepends front alone joined) (hread : first alone = .error fault next) :
    ∃ stop, second joined = .error (fault.moved front.length) stop := by
  have hmoved := hmoves hprepends
  rw [hread] at hmoved
  generalize second joined = outcome at hmoved
  cases hmoved with
  | error => exact ⟨_, rfl⟩

theorem moves_pure (value : Value) : Moves front convert (pure value) (pure (convert value)) :=
  fun _ _ hprepends => .ok hprepends

theorem moves_throw (fault : Fault) :
    Moves front convert (throw fault) (throw (fault.moved front.length)) :=
  fun _ _ _ => .error

theorem moves_bind {Target : Type} {onward : Other → Target} {first : Decoder Value}
    {second : Decoder Result} {next : Value → Decoder Other} {after : Result → Decoder Target}
    (hfirst : Moves front convert first second)
    (hnext : ∀ value, Moves front onward (next value) (after (convert value))) :
    Moves front onward (first >>= next) (second >>= after) := by
  intro alone joined hprepends
  have hread := hfirst hprepends
  generalize hleft : first alone = left at hread
  generalize hright : second joined = right at hread
  cases hread with
  | ok hcursor =>
      rw [Outcome.run_bind_of_ok hleft, Outcome.run_bind_of_ok hright]
      exact hnext _ hcursor
  | error =>
      rw [Outcome.run_bind_of_error hleft, Outcome.run_bind_of_error hright]
      exact .error

/-- A read that goes on from its position may rely on the bound of positions. -/
theorem moves_position_bind {next : Nat → Decoder Value} {after : Nat → Decoder Result}
    (hnext : ∀ offset, offset + front.length < 0x100000000 →
      Moves front convert (next offset) (after (offset + front.length))) :
    Moves front convert (position >>= next) (position >>= after) := by
  intro alone joined hprepends
  have hmoved := hnext alone.position hprepends.position_lt hprepends
  rw [← hprepends.position] at hmoved
  exact hmoved

theorem moves_bytes (count : Nat) : Moves front id (bytes count) (bytes count) := by
  intro alone joined hprepends
  cases hread : bytes count alone with
  | ok content next =>
      obtain ⟨hlength, hspans⟩ := bytes_eq_ok_iff.mp hread
      obtain ⟨stop, hstands, hstop⟩ := hprepends.exists_spans hspans
      rw [bytes_eq_ok_iff.mpr ⟨hlength, hstands⟩]
      exact .ok hstop
  | error fault stop =>
      obtain ⟨hshort, rfl, _⟩ := bytes_eq_error_iff.mp hread
      rw [← hprepends.rest] at hshort
      rw [bytes_eq_error_iff.mpr ⟨hshort, rfl, rfl⟩]
      exact .error

theorem moves_skip (count : Nat) : Moves front id (skip count) (skip count) := by
  rw [skip_eq_bytes]
  exact moves_bind (moves_bytes count) (fun _ => moves_pure ())

/-- Padding depends on the position modulo the alignment alone. -/
theorem moves_align {alignment : Nat} (haligned : alignment ∣ front.length) :
    Moves front id (align alignment) (align alignment) := by
  intro alone joined hprepends
  have hskip := moves_skip (Cursor.padding alignment alone.position) hprepends
  have hpadding : Cursor.padding alignment joined.position =
      Cursor.padding alignment alone.position := by
    obtain ⟨count, hcount⟩ := haligned
    rw [Cursor.padding, hprepends.position, hcount, Nat.add_mul_mod_self_left, Cursor.padding]
  rw [align, move, move, hpadding]
  exact hskip

theorem moves_number (width : Nat) : Moves front id (number width) (number width) :=
  moves_bind (moves_bytes width) (fun _ => moves_pure _)

theorem moves_uint8 : Moves front id uint8 uint8 :=
  moves_bind (moves_number 1) (fun _ => moves_pure _)

theorem moves_uint16 : Moves front id uint16 uint16 :=
  moves_bind (moves_number 2) (fun _ => moves_pure _)

theorem moves_uint32 : Moves front id uint32 uint32 :=
  moves_bind (moves_number 4) (fun _ => moves_pure _)

theorem moves_int8 : Moves front id int8 int8 :=
  moves_bind moves_uint8 (fun _ => moves_pure _)

theorem moves_int16 : Moves front id int16 int16 :=
  moves_bind moves_uint16 (fun _ => moves_pure _)

theorem moves_int32 : Moves front id int32 int32 :=
  moves_bind moves_uint32 (fun _ => moves_pure _)

theorem moves_replicate {item : Decoder Value} (count : Nat) (hitem : Moves front id item item) :
    Moves front id (replicate count item) (replicate count item) := by
  induction count with
  | zero =>
      rw [replicate_zero]
      exact moves_pure _
  | succ count ih =>
      rw [replicate_succ]
      exact moves_bind hitem (fun _ => moves_bind ih (fun _ => moves_pure _))

end Decoder

end JvmCalls

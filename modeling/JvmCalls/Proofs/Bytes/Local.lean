import JvmCalls.Proofs.Bytes.Spans

/-!
# Reads look no further than they move

`Decoder.Local` compares a read of some data with the same read of data that
goes on behind it: either the shorter data ends too early for the read, or both
reads have the same outcome and end at the same position.  The property is
closed under sequencing, so that it is established for the elementary reads and
follows for all reads made of them.
-/

namespace JvmCalls

/-- The two cursors stand at the same position, and the data of the second one
is that of the first one with `tail` behind it. -/
def Cursor.Truncates (tail : Bytes) (short long : Cursor) : Prop :=
  long.data = short.data ++ tail ∧ long.position = short.position

theorem Cursor.Truncates.rest {tail : Bytes} {short long : Cursor}
    (htruncates : Cursor.Truncates tail short long) : long.rest = short.rest ++ tail := by
  rw [long.rest_eq, short.rest_eq, htruncates.1, htruncates.2,
    List.drop_append_of_le_length short.position_le]

/-- What stands between cursors in the longer data stands in the shorter data,
too, as far as that goes. -/
theorem Cursor.Truncates.exists_spans {tail bytes : Bytes} {short long next : Cursor}
    (htruncates : Cursor.Truncates tail short long) (hspans : long.Spans bytes next)
    (hinside : next.position ≤ short.data.length) :
    ∃ stop, short.Spans bytes stop ∧ Cursor.Truncates tail stop next := by
  have hposition := hspans.position
  have hlength := short.length_rest
  have htake : short.rest.take bytes.length = bytes := by
    have hsame := (spans_iff_position.mp hspans).2.2
    rwa [htruncates.rest, List.take_append_of_le_length] at hsame
    rw [htruncates.2] at hposition
    omega
  have hrest : short.rest = bytes ++ short.rest.drop bytes.length := by
    conv_lhs => rw [← List.take_append_drop bytes.length short.rest, htake]
  obtain ⟨stop, hstands, _⟩ := short.exists_spans hrest
  refine ⟨stop, hstands, ?_, ?_⟩
  · rw [hspans.1, hstands.1, htruncates.1]
  · rw [hposition, hstands.position, htruncates.2]

namespace Decoder

/-- Both reads returned the same value and ended at the same position, or both
failed with the same fault. -/
inductive SameOutcome {Value : Type} (tail : Bytes) :
    (short long : EStateM.Result Fault Cursor Value) → Prop
  | ok {value : Value} {short long : Cursor} (hcursor : Cursor.Truncates tail short long) :
      SameOutcome tail (.ok value short) (.ok value long)
  | error {fault : Fault} {short long : Cursor} :
      SameOutcome tail (.error fault short) (.error fault long)

/-- What is behind the bytes that the decoder passes over has no influence on
it, unless it needs more bytes than there are. -/
def Local {Value : Type} (decoder : Decoder Value) : Prop :=
  ∀ ⦃tail short long⦄, Cursor.Truncates tail short long →
    (∃ stop, decoder short = .error .outOfBounds stop) ∨
      SameOutcome tail (decoder short) (decoder long)

variable {Value Result : Type}

theorem local_pure (value : Value) : Local (pure value) :=
  fun _ _ _ htruncates => Or.inr (SameOutcome.ok htruncates)

theorem local_throw (fault : Fault) : Local (throw fault : Decoder Value) :=
  fun _ _ _ _ => Or.inr SameOutcome.error

theorem local_bind {first : Decoder Value} {next : Value → Decoder Result}
    (hfirst : Local first) (hnext : ∀ value, Local (next value)) : Local (first >>= next) := by
  intro tail short long htruncates
  rcases hfirst htruncates with ⟨stop, hshort⟩ | hsame
  · exact Or.inl ⟨stop, Outcome.run_bind_of_error hshort⟩
  · generalize hleft : first short = left at hsame
    generalize hright : first long = right at hsame
    cases hsame with
    | ok hcursor =>
        rw [Outcome.run_bind_of_ok hleft, Outcome.run_bind_of_ok hright]
        exact hnext _ hcursor
    | error =>
        rw [Outcome.run_bind_of_error hleft, Outcome.run_bind_of_error hright]
        exact Or.inr SameOutcome.error

theorem local_map {decoder : Decoder Value} (convert : Value → Result)
    (hdecoder : Local decoder) : Local (convert <$> decoder) := by
  rw [map_eq_pure_bind]
  exact local_bind hdecoder (fun value => local_pure _)

theorem local_position : Local position := by
  intro tail short long htruncates
  have hsame : position long = .ok short.position long := by rw [position, htruncates.2]
  rw [hsame]
  exact .inr (.ok htruncates)

theorem local_bytes (count : Nat) : Local (bytes count) := by
  intro tail short long htruncates
  cases hread : bytes count short with
  | error fault stop =>
      rw [(bytes_eq_error_iff.mp hread).2.1]
      exact Or.inl ⟨stop, rfl⟩
  | ok content next =>
      obtain ⟨hlength, hspans⟩ := bytes_eq_ok_iff.mp hread
      have hrest := htruncates.rest
      rw [hspans.2, List.append_assoc] at hrest
      obtain ⟨target, htarget, _⟩ := long.exists_spans hrest
      rw [bytes_eq_ok_iff.mpr ⟨hlength, htarget⟩]
      apply Or.inr
      apply SameOutcome.ok
      constructor
      · rw [hspans.1, htarget.1, htruncates.1]
      · rw [hspans.position, htarget.position, htruncates.2]

theorem local_skip (count : Nat) : Local (skip count) := by
  rw [skip_eq_bytes]
  exact local_bind (local_bytes count) (fun _ => local_pure ())

theorem local_align (alignment : Nat) : Local (align alignment) := by
  intro tail short long htruncates
  have hskip := local_skip (Cursor.padding alignment short.position) htruncates
  rw [align, move, move, htruncates.2]
  exact hskip

theorem local_number (width : Nat) : Local (number width) :=
  local_bind (local_bytes width) (fun _ => local_pure _)

theorem local_uint8 : Local uint8 :=
  local_bind (local_number 1) (fun _ => local_pure _)

theorem local_uint16 : Local uint16 :=
  local_bind (local_number 2) (fun _ => local_pure _)

theorem local_uint32 : Local uint32 :=
  local_bind (local_number 4) (fun _ => local_pure _)

theorem local_uint64 : Local uint64 :=
  local_bind (local_number 8) (fun _ => local_pure _)

theorem local_int8 : Local int8 :=
  local_bind local_uint8 (fun _ => local_pure _)

theorem local_int16 : Local int16 :=
  local_bind local_uint16 (fun _ => local_pure _)

theorem local_int32 : Local int32 :=
  local_bind local_uint32 (fun _ => local_pure _)

theorem local_int64 : Local int64 :=
  local_bind local_uint64 (fun _ => local_pure _)

theorem local_ofExcept (outcome : Except Defect Value) : Local (ofExcept outcome) := by
  cases outcome with
  | ok value => exact local_pure value
  | error defect => exact local_throw _

/-- A read of a byte string of its own does not look at the data around. -/
theorem local_within (body : Bytes) (inner : Decoder Value) : Local (within body inner) := by
  intro tail short long htruncates
  rw [within, within]
  cases inner (.start body) with
  | ok value stop => exact Or.inr (SameOutcome.ok htruncates)
  | error fault stop => exact Or.inr SameOutcome.error

theorem local_replicate {item : Decoder Value} (count : Nat) (hitem : Local item) :
    Local (replicate count item) := by
  induction count with
  | zero =>
      rw [replicate_zero]
      exact local_pure _
  | succ count ih =>
      rw [replicate_succ]
      exact local_bind hitem (fun _ => local_bind ih (fun _ => local_pure _))

/-! ## Reads of whole byte strings -/

variable {decoder : Decoder Value} {value : Value} {data tail : Bytes} {stop : Cursor}

theorem truncates_start (data tail : Bytes) :
    Cursor.Truncates tail (.start data) (.start (data ++ tail)) :=
  ⟨rfl, rfl⟩

/-- What is read from the shorter data is read from the longer data, too. -/
theorem Local.of_short {short long : Cursor} (hlocal : Local decoder)
    (htruncates : Cursor.Truncates tail short long) (hread : decoder short = .ok value stop) :
    ∃ stop', decoder long = .ok value stop' ∧ Cursor.Truncates tail stop stop' := by
  rcases hlocal htruncates with ⟨_, hbounds⟩ | hsame
  · rw [hread] at hbounds
    cases hbounds
  · rw [hread] at hsame
    generalize decoder long = outcome at hsame
    cases hsame with
    | ok hcursor => exact ⟨_, rfl, hcursor⟩

/-- What is read from some data is read from longer data, too, and the bytes
behind are left. -/
theorem Local.of_append (hlocal : Local decoder)
    (hread : decoder (.start data) = .ok value stop) (tail : Bytes) :
    ∃ stop', decoder (.start (data ++ tail)) = .ok value stop' ∧
      stop'.rest = stop.rest ++ tail := by
  obtain ⟨stop', hlonger, hcursor⟩ := hlocal.of_short (truncates_start data tail) hread
  exact ⟨stop', hlonger, hcursor.rest⟩

/-- What is read up to the end of some data needs all of the data. -/
theorem Local.of_truncated (hlocal : Local decoder)
    (hread : decoder (.start (data ++ tail)) = .ok value stop) (hend : stop.rest = [])
    (htail : tail ≠ []) : ∃ stop', decoder (.start data) = .error .outOfBounds stop' := by
  rcases hlocal (truncates_start data tail) with hbounds | hsame
  · exact hbounds
  · rw [hread] at hsame
    generalize hshort : decoder (.start data) = outcome at hsame
    cases hsame with
    | ok hcursor =>
        have hrest := hcursor.rest
        rw [hend] at hrest
        exact absurd (List.append_eq_nil_iff.mp hrest.symm).2 htail

end Decoder

end JvmCalls

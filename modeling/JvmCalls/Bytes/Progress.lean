import JvmCalls.Bytes.Cursor

/-!
# Decoders never move backwards

`Decoder.Forward` says that a decoder stays in its byte string and ends at or
after the position it started from, also when it fails.  The property is
closed under sequencing, so it is established for the elementary reads here
and follows for every decoder built from them.
-/

namespace JvmCalls.Decoder

variable {Value Result : Type}

/-- The cursor a decoder ended at. -/
def reached : EStateM.Result Fault Cursor Value → Cursor
  | .ok _ cursor => cursor
  | .error _ cursor => cursor

/-- The decoder keeps the byte string and does not move backwards. -/
def Forward (decoder : Decoder Value) : Prop :=
  ∀ cursor, (reached (decoder cursor)).data = cursor.data ∧
    cursor.position ≤ (reached (decoder cursor)).position

theorem forward_pure (value : Value) : Forward (pure value) :=
  fun _ => ⟨rfl, Nat.le_refl _⟩

theorem forward_throw (fault : Fault) : Forward (throw fault : Decoder Value) :=
  fun _ => ⟨rfl, Nat.le_refl _⟩

theorem forward_bind {first : Decoder Value} {next : Value → Decoder Result}
    (hfirst : Forward first) (hnext : ∀ value, Forward (next value)) :
    Forward (first >>= next) := by
  intro cursor
  have hcursor := hfirst cursor
  show (reached (EStateM.bind first next cursor)).data = _ ∧ _ ≤ (reached
    (EStateM.bind first next cursor)).position
  unfold EStateM.bind
  split
  next value middle heq =>
      rw [heq] at hcursor
      have hmiddle := hnext value middle
      exact ⟨hmiddle.1.trans hcursor.1, Nat.le_trans hcursor.2 hmiddle.2⟩
  next fault middle heq =>
      rw [heq] at hcursor
      exact hcursor

theorem forward_position : Forward position :=
  fun _ => ⟨rfl, Nat.le_refl _⟩

theorem forward_skip (count : Nat) : Forward (skip count) := by
  intro cursor
  unfold skip move
  split
  next next heq =>
      have hnext := Cursor.advance?_eq_some_iff.mp heq
      exact ⟨hnext.1, by simp [reached, hnext.2]⟩
  next => exact ⟨rfl, Nat.le_refl _⟩

theorem forward_align (alignment : Nat) : Forward (align alignment) :=
  fun cursor => forward_skip (Cursor.padding alignment cursor.position) cursor

theorem forward_bytes (count : Nat) : Forward (bytes count) := by
  intro cursor
  unfold bytes
  split
  next next heq =>
      have hnext := Cursor.advance?_eq_some_iff.mp heq
      exact ⟨hnext.1, by simp [reached, hnext.2]⟩
  next => exact ⟨rfl, Nat.le_refl _⟩

theorem forward_number (width : Nat) : Forward (number width) :=
  forward_bind (forward_bytes width) (fun _ => forward_pure _)

theorem forward_uint8 : Forward uint8 :=
  forward_bind (forward_number 1) (fun _ => forward_pure _)

theorem forward_uint16 : Forward uint16 :=
  forward_bind (forward_number 2) (fun _ => forward_pure _)

theorem forward_uint32 : Forward uint32 :=
  forward_bind (forward_number 4) (fun _ => forward_pure _)

theorem forward_int8 : Forward int8 :=
  forward_bind forward_uint8 (fun _ => forward_pure _)

theorem forward_int16 : Forward int16 :=
  forward_bind forward_uint16 (fun _ => forward_pure _)

theorem forward_int32 : Forward int32 :=
  forward_bind forward_uint32 (fun _ => forward_pure _)

theorem forward_replicate {item : Decoder Value} (count : Nat) (hitem : Forward item) :
    Forward (replicate count item) := by
  have hcollect : ∀ values, Forward (collect item count values) := by
    induction count with
    | zero => exact fun values => forward_pure values
    | succ count ih => exact fun values => forward_bind hitem (fun value => ih _)
  exact forward_bind (hcollect []) (fun _ => forward_pure _)

/-- A byte that was read lies behind the cursor. -/
theorem position_of_uint8 {cursor next : Cursor} {byte : UInt8}
    (hread : uint8 cursor = .ok byte next) :
    next.data = cursor.data ∧ next.position = cursor.position + 1 := by
  simp only [uint8, number, bytes, bind, EStateM.bind, pure, EStateM.pure] at hread
  cases hadvance : cursor.advance? 1 with
  | none => simp [hadvance] at hread
  | some middle =>
      simp only [hadvance, EStateM.Result.ok.injEq] at hread
      exact hread.2 ▸ Cursor.advance?_eq_some_iff.mp hadvance

end JvmCalls.Decoder

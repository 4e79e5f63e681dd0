import JvmCalls.Proofs.Trapping.Reader

/-!
# Booked vectors

The count of the items that reading asks a vector to hold comes from the data.  The
machine here is a reader with a ledger of these counts.  `Books` says that it does what a
decoder does, without traps, and books what is reserved for the value.  What fails behind
a vector has booked it in vain.  This is the instruction that takes more bytes than an
offset counts, so in the code of a method a fault leaves the ledger as it was.
-/

namespace JvmCalls.Trapping

open Checked

/-- A reader, and the counts of the items that vectors were asked for, the last one
first. -/
structure Ledger where
  reader : Reader
  reserved : List Nat
  deriving DecidableEq, Repr

abbrev Booking := EStateM (Halt Fault) Ledger

namespace Booking

variable {Value Result : Type}

/-- A read that asks for no vector. -/
def ofReading (reading : Reading Value) : Booking Value := fun ledger =>
  match reading ledger.reader with
  | .ok value reader => .ok value { ledger with reader := reader }
  | .error halt reader => .error halt { ledger with reader := reader }

instance : MonadLift Reading Booking where
  monadLift := ofReading

/-- A booking as a read, with a ledger of its own. -/
def toReading (booking : Booking Value) : Reading Value := fun reader =>
  match booking { reader, reserved := [] } with
  | .ok value ledger => .ok value ledger.reader
  | .error halt ledger => .error halt ledger.reader

def reserve (count size : Nat) : Booking Unit := do
  Reading.ofChecked (Word.reserve count size)
  modify (fun ledger => { ledger with reserved := count :: ledger.reserved })

/-! ## Bookings and decoders -/

/-- The result of a decoder as one of a booking that has booked `reserved` for the
value, and nothing for a fault. -/
def booked (reserved : Value → List Nat) (before : List Nat) :
    EStateM.Result Fault Cursor Value → EStateM.Result (Halt Fault) Ledger Value
  | .ok value cursor =>
      .ok value { reader := .ofCursor cursor, reserved := reserved value ++ before }
  | .error fault cursor =>
      .error (.flaw fault) { reader := .ofCursor cursor, reserved := before }

/-- The booking ends as the decoder does and has booked what is `reserved` for the value.
What a fault has booked in vain is nothing in code that is `short`. -/
inductive Accounts (short : Prop) (reserved : Value → List Nat) (before : List Nat) :
    EStateM.Result Fault Cursor Value → EStateM.Result (Halt Fault) Ledger Value → Prop
  | value (value : Value) (cursor : Cursor) :
      Accounts short reserved before (.ok value cursor)
        (.ok value { reader := .ofCursor cursor, reserved := reserved value ++ before })
  | fault (fault : Fault) (cursor : Cursor) (vain : List Nat) (hvain : short → vain = []) :
      Accounts short reserved before (.error fault cursor)
        (.error (.flaw fault) { reader := .ofCursor cursor, reserved := vain ++ before })

/-- The booking does what the decoder does wherever a cursor stands at the position
`start` or behind it, and books what is `reserved` for the value.  Code is short if its
length is a number of four bytes. -/
def Books (start : Nat) (booking : Booking Value) (decoder : Decoder Value)
    (reserved : Value → List Nat) : Prop :=
  ∀ cursor : Cursor, cursor.data.length < 2 ^ 63 → start ≤ cursor.position → ∀ before,
    Accounts (cursor.data.length < 2 ^ 32) reserved before (decoder cursor)
      (booking { reader := .ofCursor cursor, reserved := before })

theorem Accounts.eq_booked {short : Prop} {reserved : Value → List Nat} {before : List Nat}
    {result : EStateM.Result Fault Cursor Value}
    {result' : EStateM.Result (Halt Fault) Ledger Value}
    (haccounts : Accounts short reserved before result result') (hshort : short) :
    result' = booked reserved before result := by
  cases haccounts with
  | value value cursor => rfl
  | fault fault cursor vain hvain =>
      cases hvain hshort
      rfl

variable {start : Nat}

/-- A booking whose ledger is thrown away does what the decoder does. -/
theorem Books.follows {booking : Booking Value} {decoder : Decoder Value}
    {reserved : Value → List Nat} (hbooks : Books 0 booking decoder reserved)
    (hforward : Decoder.Forward decoder) : Reading.Follows booking.toReading decoder := by
  intro cursor hsmall
  refine ⟨?_, (hforward cursor).1⟩
  have haccounts := hbooks cursor hsmall (Nat.zero_le _) []
  rw [toReading]
  generalize hresult : booking { reader := .ofCursor cursor, reserved := [] } = result
    at haccounts
  generalize decoder cursor = result' at haccounts
  cases haccounts with
  | value value next => rfl
  | fault fault next vain hvain => rfl

theorem lift_apply (reading : Reading Value) {reader : Reader} {reserved : List Nat} :
    (liftM reading : Booking Value) { reader, reserved } =
      match reading reader with
      | .ok value reader => .ok value { reader, reserved }
      | .error halt reader => .error halt { reader, reserved } := rfl

@[simp]
theorem lift_ofChecked_ok (value : Value) :
    (liftM (Reading.ofChecked (.ok value)) : Booking Value) = pure value := rfl

/-- What only reads books nothing. -/
theorem books_lift {reading : Reading Value} {decoder : Decoder Value}
    (hfollows : Reading.Follows reading decoder) :
    Books start (liftM reading) decoder (fun _ => []) := by
  intro cursor hsmall _ before
  obtain ⟨hrun, _⟩ := hfollows cursor hsmall
  rw [lift_apply, hrun]
  cases decoder cursor with
  | ok value next => exact .value value next
  | error fault next => exact .fault fault next [] (fun _ => rfl)

theorem books_pure {value : Value} {reserved : Value → List Nat} (hnone : reserved value = []) :
    Books start (pure value) (pure value) reserved := by
  intro cursor _ _ before
  have haccounts : Accounts (cursor.data.length < 2 ^ 32) reserved before (.ok value cursor)
      (.ok value { reader := .ofCursor cursor, reserved := reserved value ++ before }) :=
    .value value cursor
  rw [hnone] at haccounts
  exact haccounts

theorem books_malformed (defect : Defect) {reserved : Value → List Nat} :
    Books start (liftM (Reading.malformed defect : Reading Value)) (Decoder.malformed defect)
      reserved :=
  fun cursor _ _ _ => .fault (.malformed defect) cursor [] (fun _ => rfl)

/-- One read after another that does not move backwards.  Only what comes last may ask
for a vector. -/
theorem books_then {first : Booking Value} {next : Value → Booking Result}
    {first' : Decoder Value} {next' : Value → Decoder Result} {reserved : Result → List Nat}
    (hfirst : Books start first first' (fun _ => [])) (hforward : Decoder.Forward first')
    (hnext : ∀ value, Books start (next value) (next' value) reserved) :
    Books start (first >>= next) (first' >>= next') reserved := by
  intro cursor hsmall hstart before
  have hfirst := hfirst cursor hsmall hstart before
  have hmoved := hforward cursor
  generalize hrun : first { reader := .ofCursor cursor, reserved := before } = result at hfirst
  generalize hread : first' cursor = result' at hfirst hmoved
  cases hfirst with
  | value value middle =>
      obtain ⟨hdata, hposition⟩ := hmoved
      rw [Outcome.run_bind_of_ok hrun, Outcome.run_bind_of_ok hread, ← hdata]
      exact hnext value middle (hdata ▸ hsmall) (Nat.le_trans hstart hposition) before
  | fault fault middle vain hvain =>
      rw [Outcome.run_bind_of_error hrun, Outcome.run_bind_of_error hread]
      exact .fault fault middle vain hvain

theorem books_return {booking : Booking Value} {decoder : Decoder Value}
    {reserved : Value → List Nat} (convert : Value → Result) {reserved' : Result → List Nat}
    (hbooks : Books start booking decoder reserved)
    (hconvert : ∀ value, reserved' (convert value) = reserved value) :
    Books start (booking >>= fun value => pure (convert value))
      (decoder >>= fun value => pure (convert value)) reserved' := by
  intro cursor hsmall hstart before
  have hbooks := hbooks cursor hsmall hstart before
  generalize hrun : booking { reader := .ofCursor cursor, reserved := before } = result at hbooks
  generalize hread : decoder cursor = result' at hbooks
  cases hbooks with
  | value value next =>
      rw [Outcome.run_bind_of_ok hrun, Outcome.run_bind_of_ok hread, ← hconvert value]
      exact .value (convert value) next
  | fault fault next vain hvain =>
      rw [Outcome.run_bind_of_error hrun, Outcome.run_bind_of_error hread]
      exact .fault fault next vain hvain

theorem reserve_apply {count size : Nat} (hfits : count * size < 2 ^ 63) (reader : Reader)
    (before : List Nat) :
    reserve count size { reader, reserved := before } =
      .ok () { reader, reserved := count :: before } := by
  rw [reserve, Word.reserve_eq hfits]
  rfl

end Booking

end JvmCalls.Trapping

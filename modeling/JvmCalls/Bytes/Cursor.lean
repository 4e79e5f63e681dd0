import JvmCalls.Bytes.BigEndian
import JvmCalls.Fault

/-!
# Cursors and decoders

A `Cursor` is a position in a byte string.  A `Decoder` reads from a cursor
and keeps the cursor it reached also when it fails, because the position after
a failure is part of what a reader of class data reports.  Reads fail with
`Fault.outOfBounds` exactly when their target lies past the end, and leave the
cursor where it was.
-/

namespace JvmCalls

/-- Whether `bytes` has at least `count` elements, looking at no more than
`count` of them. -/
def hasAtLeast : (bytes : Bytes) → (count : Nat) → Bool
  | _, 0 => true
  | [], _ + 1 => false
  | _ :: bytes, count + 1 => hasAtLeast bytes count

@[simp]
theorem hasAtLeast_iff {bytes : Bytes} {count : Nat} :
    hasAtLeast bytes count = true ↔ count ≤ bytes.length := by
  induction bytes generalizing count with
  | nil => cases count <;> simp [hasAtLeast]
  | cons byte bytes ih => cases count <;> simp [hasAtLeast, ih]

/-- A position in a byte string, together with the bytes from there on. -/
@[ext]
structure Cursor where
  data : Bytes
  position : Nat
  rest : Bytes
  rest_eq : rest = data.drop position
  position_le : position ≤ data.length

namespace Cursor

def start (data : Bytes) : Cursor where
  data := data
  position := 0
  rest := data
  rest_eq := by simp
  position_le := by simp

/-- Two cursors in the same byte string at the same position are equal. -/
theorem ext_position {left right : Cursor} (hdata : left.data = right.data)
    (hposition : left.position = right.position) : left = right := by
  apply Cursor.ext hdata hposition
  rw [left.rest_eq, right.rest_eq, hdata, hposition]

theorem length_rest (cursor : Cursor) :
    cursor.rest.length = cursor.data.length - cursor.position := by
  rw [cursor.rest_eq, List.length_drop]

def atEnd (cursor : Cursor) : Bool :=
  cursor.rest.isEmpty

/-- The cursor `count` bytes further on, if there are as many. -/
def advance? (cursor : Cursor) (count : Nat) : Option Cursor :=
  if hfits : hasAtLeast cursor.rest count then
    some {
      data := cursor.data
      position := cursor.position + count
      rest := cursor.rest.drop count
      rest_eq := by rw [cursor.rest_eq, List.drop_drop]
      position_le := by
        have hlength := cursor.length_rest
        have hposition := cursor.position_le
        rw [hasAtLeast_iff] at hfits
        omega }
  else
    none

/-- The cursor at `target`, which must lie before the end. -/
def seek? (cursor : Cursor) (target : Nat) : Option Cursor :=
  if hinside : target < cursor.data.length then
    some {
      data := cursor.data
      position := target
      rest := cursor.data.drop target
      rest_eq := rfl
      position_le := Nat.le_of_lt hinside }
  else
    none

/-- The count of bytes from `position` to the next multiple of `alignment`. -/
def padding (alignment position : Nat) : Nat :=
  (alignment - position % alignment) % alignment

theorem advance?_eq_some_iff {cursor next : Cursor} {count : Nat} :
    cursor.advance? count = some next ↔
      next.data = cursor.data ∧ next.position = cursor.position + count := by
  have hlength := cursor.length_rest
  have hposition := cursor.position_le
  unfold advance?
  split
  case isTrue hfits =>
      rw [Option.some.injEq]
      constructor
      · rintro rfl
        exact ⟨rfl, rfl⟩
      · rintro ⟨hdata, hnext⟩
        exact ext_position hdata.symm hnext.symm
  case isFalse hshort =>
      rw [hasAtLeast_iff] at hshort
      constructor
      · intro hnone
        cases hnone
      · rintro ⟨hdata, hnext⟩
        have hbound := next.position_le
        rw [hdata, hnext] at hbound
        omega

theorem advance?_eq_none_iff {cursor : Cursor} {count : Nat} :
    cursor.advance? count = none ↔ cursor.data.length < cursor.position + count := by
  have hlength := cursor.length_rest
  have hposition := cursor.position_le
  unfold advance?
  split
  case isTrue hfits =>
      rw [hasAtLeast_iff] at hfits
      constructor
      · intro hnone
        cases hnone
      · intro hpast
        omega
  case isFalse hshort =>
      rw [hasAtLeast_iff] at hshort
      constructor
      · intro _
        omega
      · intro _
        rfl

end Cursor

/-- A read of class data: it ends at a cursor, with a value or a fault. -/
abbrev Decoder := EStateM Fault Cursor

namespace Decoder

variable {Value : Type}

def position : Decoder Nat := fun cursor => .ok cursor.position cursor

def atEnd : Decoder Bool := fun cursor => .ok cursor.atEnd cursor

/-- Moves the cursor by the given step; without a target the read is out of
bounds and the cursor stays. -/
def move (step : Cursor → Option Cursor) : Decoder Unit := fun cursor =>
  match step cursor with
  | some next => .ok () next
  | none => .error .outOfBounds cursor

def skip (count : Nat) : Decoder Unit :=
  move (fun cursor => cursor.advance? count)

/-- Moves to `target`, which must lie before the end. -/
def seek (target : Nat) : Decoder Unit :=
  move (fun cursor => cursor.seek? target)

/-- Moves to the next position that is a multiple of `alignment`. -/
def align (alignment : Nat) : Decoder Unit :=
  move (fun cursor => cursor.advance? (Cursor.padding alignment cursor.position))

def peek : Decoder UInt8 := fun cursor =>
  match cursor.rest with
  | byte :: _ => .ok byte cursor
  | [] => .error .outOfBounds cursor

def bytes (count : Nat) : Decoder Bytes := fun cursor =>
  match cursor.advance? count with
  | some next => .ok (cursor.rest.take count) next
  | none => .error .outOfBounds cursor

/-- A big-endian number of `width` bytes. -/
def number (width : Nat) : Decoder Nat := do
  return BigEndian.value (← bytes width)

def uint8 : Decoder UInt8 := do return UInt8.ofNat (← number 1)

def uint16 : Decoder UInt16 := do return UInt16.ofNat (← number 2)

def uint32 : Decoder UInt32 := do return UInt32.ofNat (← number 4)

def uint64 : Decoder UInt64 := do return UInt64.ofNat (← number 8)

/-- A signed byte, in two's complement like all signed numbers. -/
def int8 : Decoder Int8 := do return (← uint8).toInt8

def int16 : Decoder Int16 := do return (← uint16).toInt16

def int32 : Decoder Int32 := do return (← uint32).toInt32

def int64 : Decoder Int64 := do return (← uint64).toInt64

def malformed (defect : Defect) : Decoder Value := throw (.malformed defect)

/-- The value of a computation that reads nothing but may find a defect. -/
def ofExcept : Except Defect Value → Decoder Value
  | .ok value => return value
  | .error defect => malformed defect

/-- Reads from the start of `body` with a cursor of its own, and stays. -/
def within (body : Bytes) (inner : Decoder Value) : Decoder Value := fun cursor =>
  match inner (.start body) with
  | .ok value _ => .ok value cursor
  | .error fault _ => .error fault cursor

/-- Prepends `count` values, the last of them first, to `values`. -/
def collect (item : Decoder Value) : (count : Nat) → List Value → Decoder (List Value)
  | 0, values => return values
  | count + 1, values => do collect item count ((← item) :: values)

def replicate (count : Nat) (item : Decoder Value) : Decoder (List Value) := do
  return (← collect item count []).reverse

/-- The outcome of a decoder on a whole byte string, without the cursor. -/
def run (decoder : Decoder Value) (data : Bytes) : Except Fault Value :=
  match decoder (.start data) with
  | .ok value _ => .ok value
  | .error fault _ => .error fault

end Decoder

end JvmCalls

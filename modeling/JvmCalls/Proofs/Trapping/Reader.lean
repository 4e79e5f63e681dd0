import JvmCalls.Bytes.Progress
import JvmCalls.Proofs.Bytes.Ensures
import JvmCalls.Proofs.Trapping.Text

/-!
# Readers

A `Reader` is a byte string and a position in it, which nothing keeps inside:
its reads check their bounds in words and then take the bytes apart, which
traps if a check was wrong.  `Follows` says that reads do the same as a
decoder wherever a cursor stands, so that they never trap.  The property is
closed under sequencing; it is established for the elementary reads here and
follows for all others by their structure.
-/

namespace JvmCalls.Trapping

open Checked

/-- The state of a machine that reads class data. -/
structure Reader where
  data : Bytes
  position : Nat
  deriving DecidableEq, Repr

namespace Reader

def ofCursor (cursor : Cursor) : Reader where
  data := cursor.data
  position := cursor.position

def start (data : Bytes) : Reader where
  data := data
  position := 0

def left (reader : Reader) : Nat := reader.data.length - reader.position

end Reader

/-- A read of class data with operations that may trap. -/
abbrev Reading := EStateM (Halt Fault) Reader

namespace Reading

variable {Value Result : Type}

def fail (fault : Fault) : Reading Value := throw (.flaw fault)

def malformed (defect : Defect) : Reading Value := fail (.malformed defect)

/-- The value of a computation that reads nothing. -/
def ofChecked (computed : Checked Defect Value) : Reading Value :=
  match computed.mapFlaw .malformed with
  | .ok value => return value
  | .error halt => throw halt

def data : Reading Bytes := fun reader => .ok reader.data reader

def position : Reading Nat := fun reader => .ok reader.position reader

/-- Puts the reader at a position, wherever it lies. -/
def place (target : Nat) : Reading Unit := fun reader => .ok () { reader with position := target }

/-- Moves to a position that does not lie behind the end. -/
def moveTo (target : Nat) : Reading Unit := do
  if target ≤ (← data).length then place target else fail .outOfBounds

/-- Moves to a position that lies before the end. -/
def seek (target : Nat) : Reading Unit := do
  if (← data).length ≤ target then fail .outOfBounds else place target

def peek : Reading UInt8 := do
  let start ← position
  if (← data).length ≤ start then fail .outOfBounds else ofChecked (byteAt (← data) start)

def left : Reading Nat := do ofChecked (Word.sub (← data).length (← position))

def skip (count : Nat) : Reading Unit := do
  match Word.add? (← position) count with
  | some target => moveTo target
  | none => fail .outOfBounds

/-- The next multiple of `alignment`. -/
def aligned (alignment position : Nat) : Checked Defect Nat := do
  let excess ← Word.rem position alignment
  let padding ← Word.rem (← Word.sub alignment excess) alignment
  Word.add position padding

def align (alignment : Nat) : Reading Unit := do
  moveTo (← ofChecked (aligned alignment (← position)))

def bytes (count : Nat) : Reading Bytes := do
  let start ← position
  skip count
  ofChecked (slice (← data) start (← position))

def number (width : Nat) : Reading Nat := do
  let start ← position
  match Word.add? start width with
  | some finish =>
      if (← data).length < finish then
        fail .outOfBounds
      else
        let content ← ofChecked (slice (← data) start finish)
        if content.length = width then
          place finish
          return BigEndian.value content
        else
          fail .outOfBounds
  | none => fail .outOfBounds

def uint8 : Reading UInt8 := do return UInt8.ofNat (← number 1)

def uint16 : Reading UInt16 := do return UInt16.ofNat (← number 2)

def uint32 : Reading UInt32 := do return UInt32.ofNat (← number 4)

def uint64 : Reading UInt64 := do return UInt64.ofNat (← number 8)

def int8 : Reading Int8 := do return (← uint8).toInt8

def int16 : Reading Int16 := do return (← uint16).toInt16

def int32 : Reading Int32 := do return (← uint32).toInt32

def int64 : Reading Int64 := do return (← uint64).toInt64

/-- Reads from the start of `body` with a reader of its own, and stays. -/
def within (body : Bytes) (inner : Reading Value) : Reading Value := fun reader =>
  match inner (.start body) with
  | .ok value _ => .ok value reader
  | .error halt _ => .error halt reader

def append (item : Reading Value) : (count : Nat) → List Value → Reading (List Value)
  | 0, values => return values
  | count + 1, values => do append item count (values ++ [← item])

def replicate (count : Nat) (item : Reading Value) : Reading (List Value) :=
  append item count []

/-- `count` values in a vector that is asked to hold them all. -/
def vector (count : Nat) (item : Reading Value) : Reading (List Value) := do
  ofChecked (Word.reserve count Word.itemSize)
  replicate count item

/-! ## Readings and decoders -/

def image : EStateM.Result Fault Cursor Value → EStateM.Result (Halt Fault) Reader Value
  | .ok value cursor => .ok value (.ofCursor cursor)
  | .error fault cursor => .error (.flaw fault) (.ofCursor cursor)

/-- The reading does what the decoder does where the cursor stands, and the decoder stays in
the byte string. -/
def FollowsAt (cursor : Cursor) (reading : Reading Value) (decoder : Decoder Value) : Prop :=
  reading (.ofCursor cursor) = image (decoder cursor) ∧
    (Decoder.reached (decoder cursor)).data = cursor.data

theorem followsAt_bind {cursor : Cursor} {first : Reading Value} {next : Value → Reading Result}
    {first' : Decoder Value} {next' : Value → Decoder Result}
    (hfirst : FollowsAt cursor first first')
    (hnext : ∀ value middle, first' cursor = .ok value middle → middle.data = cursor.data →
      FollowsAt middle (next value) (next' value)) :
    FollowsAt cursor (first >>= next) (first' >>= next') := by
  obtain ⟨hrun, hdata⟩ := hfirst
  unfold FollowsAt
  cases hread : first' cursor with
  | ok value middle =>
      rw [hread] at hrun hdata
      obtain ⟨hrest, hkept⟩ := hnext value middle hread hdata
      rw [Outcome.run_bind_of_ok hrun, Outcome.run_bind_of_ok hread]
      exact ⟨hrest, hkept.trans hdata⟩
  | error fault middle =>
      rw [hread] at hrun hdata
      rw [Outcome.run_bind_of_error hrun, Outcome.run_bind_of_error hread]
      exact ⟨rfl, hdata⟩

/-- The reading does what the decoder does in every byte string that there may
be in memory, and the decoder stays in it. -/
def Follows (reading : Reading Value) (decoder : Decoder Value) : Prop :=
  ∀ cursor : Cursor, cursor.data.length < 2 ^ 63 →
    reading (.ofCursor cursor) = image (decoder cursor) ∧
      (Decoder.reached (decoder cursor)).data = cursor.data

theorem follows_pure (value : Value) : Follows (pure value) (pure value) :=
  fun _ _ => ⟨rfl, rfl⟩

theorem follows_fail (fault : Fault) :
    Follows (fail fault : Reading Value) (throw fault : Decoder Value) :=
  fun _ _ => ⟨rfl, rfl⟩

theorem follows_malformed (defect : Defect) :
    Follows (malformed defect : Reading Value) (Decoder.malformed defect) :=
  follows_fail _

/-- A value that the decoder returns has the property that it ensures, which
the reads behind may need to stay in their domain. -/
theorem follows_bind {first : Reading Value} {next : Value → Reading Result}
    {first' : Decoder Value} {next' : Value → Decoder Result} {property : Value → Prop}
    (hfirst : Follows first first') (hproperty : Decoder.Ensures first' property)
    (hnext : ∀ value, property value → Follows (next value) (next' value)) :
    Follows (first >>= next) (first' >>= next') :=
  fun cursor hsmall => followsAt_bind (hfirst cursor hsmall) (fun value middle hread hdata =>
    hnext value (hproperty hread) middle (hdata ▸ hsmall))

/-- One read after another. -/
theorem follows_then {first : Reading Value} {next : Value → Reading Result}
    {first' : Decoder Value} {next' : Value → Decoder Result} (hfirst : Follows first first')
    (hnext : ∀ value, Follows (next value) (next' value)) :
    Follows (first >>= next) (first' >>= next') :=
  have htrivial : Decoder.Ensures first' (fun _ => True) := fun _ _ _ _ => trivial
  follows_bind hfirst htrivial (fun value _ => hnext value)

theorem follows_map {reading : Reading Value} {decoder : Decoder Value}
    (convert : Value → Result) (hreading : Follows reading decoder) :
    Follows (convert <$> reading) (convert <$> decoder) := by
  rw [map_eq_pure_bind, map_eq_pure_bind]
  exact follows_then hreading (fun value => follows_pure _)

@[simp]
theorem ofChecked_ok (value : Value) : ofChecked (.ok value) = pure value := rfl

/-- A computation that does not trap. -/
theorem follows_ofChecked {computed : Checked Defect Value} {original : Except Defect Value}
    (htotal : computed = total original) :
    Follows (ofChecked computed) (Decoder.ofExcept original) := by
  subst htotal
  cases original with
  | ok value => exact follows_pure value
  | error defect => exact follows_malformed defect

/-- A step of a cursor is a sum of words that does not lie behind the end. -/
theorem advance?_cases {cursor : Cursor} (hsmall : cursor.data.length < 2 ^ 63) (count : Nat) :
    (∃ next, cursor.advance? count = some next ∧ next.data = cursor.data ∧
      Word.add? cursor.position count = some next.position ∧
      next.position = cursor.position + count ∧ next.position ≤ cursor.data.length) ∨
    (cursor.advance? count = none ∧
      ∀ finish, Word.add? cursor.position count = some finish → cursor.data.length < finish) := by
  cases hadvance : cursor.advance? count with
  | some next =>
      obtain ⟨hdata, hposition⟩ := Cursor.advance?_eq_some_iff.mp hadvance
      have hbound := hdata ▸ next.position_le
      refine .inl ⟨next, rfl, hdata, ?_, hposition, hbound⟩
      rw [hposition]
      exact Word.add?_eq (by omega)
  | none =>
      refine .inr ⟨rfl, fun finish hfinish => ?_⟩
      have hpast := Cursor.advance?_eq_none_iff.mp hadvance
      rw [Word.add?] at hfinish
      split at hfinish
      · cases hfinish
        exact hpast
      · cases hfinish

/-- The bytes that a step of a cursor goes over are a slice of the data. -/
theorem slice_of_advance? {cursor next : Cursor} {count : Nat}
    (hadvance : cursor.advance? count = some next) :
    (slice cursor.data cursor.position next.position : Checked Defect Bytes) =
      .ok (cursor.rest.take count) := by
  obtain ⟨hdata, hposition⟩ := Cursor.advance?_eq_some_iff.mp hadvance
  have hbound := hdata ▸ next.position_le
  rw [slice_eq (by omega) hbound, hposition, Nat.add_sub_cancel_left, ← cursor.rest_eq]

@[simp]
theorem data_bind (next : Bytes → Reading Result) (reader : Reader) :
    (data >>= next) reader = next reader.data reader := rfl

@[simp]
theorem position_bind (next : Nat → Reading Result) (reader : Reader) :
    (position >>= next) reader = next reader.position reader := rfl

theorem moveTo_of_le {target : Nat} {reader : Reader} (hinside : target ≤ reader.data.length) :
    moveTo target reader = .ok () { reader with position := target } := by
  rw [moveTo, data_bind, if_pos hinside]
  rfl

theorem moveTo_of_lt {target : Nat} {reader : Reader} (hbehind : reader.data.length < target) :
    moveTo target reader = .error (.flaw .outOfBounds) reader := by
  rw [moveTo, data_bind, if_neg (Nat.not_le_of_lt hbehind)]
  rfl

theorem follows_skip (count : Nat) : Follows (skip count) (Decoder.skip count) := by
  intro cursor hsmall
  rw [skip, position_bind, Decoder.skip, Decoder.move]
  obtain ⟨next, hadvance, hdata, hsum, _, hbound⟩ | ⟨hadvance, hpast⟩ :=
    advance?_cases hsmall count
  · simp only [hadvance, Reader.ofCursor, hsum]
    refine ⟨?_, hdata⟩
    rw [moveTo_of_le hbound, image, Reader.ofCursor, hdata]
  · simp only [hadvance, Reader.ofCursor]
    refine ⟨?_, rfl⟩
    cases hsum : Word.add? cursor.position count with
    | some target =>
        simp only
        rw [moveTo_of_lt (hpast target hsum)]
        rfl
    | none => rfl

theorem follows_seek (target : Nat) : Follows (seek target) (Decoder.seek target) := by
  intro cursor _
  rw [seek, data_bind, Decoder.seek, Decoder.move, Cursor.seek?]
  by_cases hinside : target < cursor.data.length
  · rw [dif_pos hinside, Reader.ofCursor, if_neg (Nat.not_le_of_lt hinside)]
    exact ⟨rfl, rfl⟩
  · rw [dif_neg hinside, Reader.ofCursor, if_pos (Nat.le_of_not_lt hinside)]
    exact ⟨rfl, rfl⟩

theorem follows_peek : Follows peek Decoder.peek := by
  intro cursor _
  have hlength := cursor.length_rest
  rw [peek, position_bind, data_bind, Decoder.peek]
  cases hrest : cursor.rest with
  | nil =>
      rw [hrest, List.length_nil] at hlength
      have hend : cursor.data.length ≤ cursor.position := by omega
      rw [Reader.ofCursor, if_pos hend]
      exact ⟨rfl, rfl⟩
  | cons byte rest =>
      rw [hrest, List.length_cons] at hlength
      have hbyte : cursor.data[cursor.position]? = some byte := by
        rw [← List.head?_drop, ← cursor.rest_eq, hrest, List.head?_cons]
      have hinside : ¬ cursor.data.length ≤ cursor.position := by omega
      rw [Reader.ofCursor, if_neg hinside, data_bind, byteAt_eq hbyte]
      exact ⟨rfl, rfl⟩

/-- The next multiple of a word behind a position in memory is a word. -/
theorem add_padding_lt {alignment position : Nat} (hpositive : 0 < alignment)
    (hword : alignment < 2 ^ 64) (hposition : position < 2 ^ 63) :
    position + Cursor.padding alignment position < 2 ^ 64 := by
  rw [Cursor.padding]
  by_cases hbefore : position < alignment
  · rw [Nat.mod_eq_of_lt hbefore]
    have hpadding := Nat.mod_le (alignment - position) alignment
    omega
  · have hpadding := Nat.mod_lt (alignment - position % alignment) hpositive
    omega

/-- Padding is a difference that does not go below zero. -/
theorem aligned_eq {alignment position : Nat} (hpositive : 0 < alignment)
    (hword : alignment < 2 ^ 64) (hposition : position < 2 ^ 63) :
    aligned alignment position = .ok (position + Cursor.padding alignment position) := by
  have hexcess := Nat.mod_lt position hpositive
  have hsum := add_padding_lt hpositive hword hposition
  rw [Cursor.padding] at hsum
  rw [aligned, Word.rem_eq (by omega), ok_bind, Word.sub_eq (by omega), ok_bind,
    Word.rem_eq (by omega), ok_bind, Word.add_eq hsum, Cursor.padding]

theorem follows_align {alignment : Nat} (hpositive : 0 < alignment)
    (hword : alignment < 2 ^ 64) : Follows (align alignment) (Decoder.align alignment) := by
  intro cursor hsmall
  have hposition := Nat.lt_of_le_of_lt cursor.position_le hsmall
  obtain ⟨hskip, hdata⟩ := follows_skip (Cursor.padding alignment cursor.position) cursor hsmall
  refine ⟨Eq.trans ?_ hskip, hdata⟩
  rw [align, position_bind, skip, position_bind]
  simp only [Reader.ofCursor]
  rw [aligned_eq hpositive hword hposition,
    Word.add?_eq (add_padding_lt hpositive hword hposition)]
  rfl

theorem follows_bytes (count : Nat) : Follows (bytes count) (Decoder.bytes count) := by
  intro cursor hsmall
  obtain ⟨hskip, _⟩ := follows_skip count cursor hsmall
  rw [bytes, position_bind]
  cases hadvance : cursor.advance? count with
  | some next =>
      have hslice := slice_of_advance? hadvance
      obtain ⟨hdata, _⟩ := Cursor.advance?_eq_some_iff.mp hadvance
      simp only [Decoder.skip, Decoder.move, hadvance] at hskip
      rw [Outcome.run_bind_of_ok hskip]
      simp only [Decoder.bytes, hadvance, data_bind, position_bind]
      refine ⟨?_, hdata⟩
      simp only [Reader.ofCursor, hdata, hslice, ofChecked_ok, image]
      rfl
  | none =>
      simp only [Decoder.skip, Decoder.move, hadvance] at hskip
      rw [Outcome.run_bind_of_error hskip]
      simp only [Decoder.bytes, hadvance]
      exact ⟨rfl, rfl⟩

/-- The slice of a number has as many bytes as the number, since its bounds
were checked. -/
theorem follows_number (width : Nat) : Follows (number width) (Decoder.number width) := by
  intro cursor hsmall
  have hlength := cursor.length_rest
  rw [number, position_bind, Decoder.number]
  obtain ⟨next, hadvance, hdata, hsum, hposition, hbound⟩ | ⟨hadvance, hpast⟩ :=
    advance?_cases hsmall width
  · have hread : Decoder.bytes width cursor = .ok (cursor.rest.take width) next := by
      rw [Decoder.bytes, hadvance]
    have hwidth : (cursor.rest.take width).length = width := by
      rw [List.length_take, hlength]
      omega
    rw [Outcome.run_bind_of_ok hread]
    refine ⟨?_, hdata⟩
    simp only [Reader.ofCursor, hsum, data_bind, if_neg (Nat.not_lt_of_le hbound),
      slice_of_advance? hadvance, ofChecked_ok, pure_bind, hwidth, if_true]
    rw [← hdata]
    rfl
  · have hread : Decoder.bytes width cursor = .error .outOfBounds cursor := by
      rw [Decoder.bytes, hadvance]
    rw [Outcome.run_bind_of_error hread]
    refine ⟨?_, rfl⟩
    simp only [Reader.ofCursor]
    cases hsum : Word.add? cursor.position width with
    | some target =>
        simp only [data_bind, if_pos (hpast target hsum)]
        rfl
    | none => rfl

theorem follows_uint8 : Follows uint8 Decoder.uint8 :=
  follows_then (follows_number 1) (fun _ => follows_pure _)

theorem follows_uint16 : Follows uint16 Decoder.uint16 :=
  follows_then (follows_number 2) (fun _ => follows_pure _)

theorem follows_uint32 : Follows uint32 Decoder.uint32 :=
  follows_then (follows_number 4) (fun _ => follows_pure _)

theorem follows_uint64 : Follows uint64 Decoder.uint64 :=
  follows_then (follows_number 8) (fun _ => follows_pure _)

theorem follows_int8 : Follows int8 Decoder.int8 :=
  follows_then follows_uint8 (fun _ => follows_pure _)

theorem follows_int16 : Follows int16 Decoder.int16 :=
  follows_then follows_uint16 (fun _ => follows_pure _)

theorem follows_int32 : Follows int32 Decoder.int32 :=
  follows_then follows_uint32 (fun _ => follows_pure _)

theorem follows_int64 : Follows int64 Decoder.int64 :=
  follows_then follows_uint64 (fun _ => follows_pure _)

theorem follows_within {inner : Reading Value} {inner' : Decoder Value} {body : Bytes}
    (hbody : body.length < 2 ^ 63) (hinner : Follows inner inner') :
    Follows (within body inner) (Decoder.within body inner') := by
  intro cursor hsmall
  obtain ⟨hrun, _⟩ := hinner (.start body) hbody
  have hstart : Reader.ofCursor (.start body) = Reader.start body := rfl
  rw [hstart] at hrun
  rw [within, hrun, Decoder.within]
  cases inner' (.start body) with
  | ok value next => exact ⟨rfl, rfl⟩
  | error fault next => exact ⟨rfl, rfl⟩

/-- Values are appended in the order in which a decoder prepends them. -/
theorem follows_append {item : Reading Value} {item' : Decoder Value} (count : Nat)
    (hitem : Follows item item') (values : List Value) :
    Follows (append item count values.reverse)
      (Decoder.collect item' count values >>= fun found => pure found.reverse) := by
  induction count generalizing values with
  | zero => exact follows_pure _
  | succ count ih =>
      rw [append, Decoder.collect, bind_assoc]
      refine follows_then hitem (fun value => ?_)
      have hmore := ih (value :: values)
      rw [List.reverse_cons] at hmore
      exact hmore

theorem follows_replicate {item : Reading Value} {item' : Decoder Value} (count : Nat)
    (hitem : Follows item item') : Follows (replicate count item) (Decoder.replicate count item') :=
  follows_append count hitem []

theorem follows_vector {item : Reading Value} {item' : Decoder Value} {count : Nat}
    (hcount : count < 2 ^ 32) (hitem : Follows item item') :
    Follows (vector count item) (Decoder.replicate count item') := by
  rw [vector, Word.reserve_items hcount, ofChecked_ok, pure_bind]
  exact follows_replicate count hitem

theorem left_ofCursor (cursor : Cursor) :
    left (.ofCursor cursor) = .ok cursor.rest.length (.ofCursor cursor) := by
  rw [left, data_bind, position_bind, Reader.ofCursor, Word.sub_eq cursor.position_le,
    cursor.length_rest]
  rfl

/-- A reading of a whole byte string ends as the decoder does. -/
theorem Follows.run {reading : Reading Value} {decoder : Decoder Value} {content : Bytes}
    (hfollows : Follows reading decoder) (hsmall : content.length < 2 ^ 63) :
    reading (.start content) = image (decoder (.start content)) :=
  (hfollows (.start content) hsmall).1

/-- A text of `length` bytes, which are consumed also when they are no text. -/
def passage (length : Nat) : Reading String := do
  ofChecked (ModifiedUtf8.decode (← bytes length))

theorem follows_passage {length : Nat} (hshort : length < 2 ^ 62) :
    Follows (passage length) (JvmCalls.ModifiedUtf8.text length) :=
  follows_bind (follows_bytes _) (Decoder.ensures_bytes _) (fun _ hlength =>
    follows_ofChecked (ModifiedUtf8.decode_eq (hlength ▸ hshort)))

def text (length : UInt16) : Reading String := passage length.toNat

theorem follows_text (length : UInt16) :
    Follows (text length) (JvmCalls.ModifiedUtf8.text length.toNat) :=
  have hfits := length.toNat_lt
  follows_passage (by omega)

end Reading

end JvmCalls.Trapping

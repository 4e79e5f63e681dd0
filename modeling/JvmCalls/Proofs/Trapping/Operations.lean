import JvmCalls.Bytes.Scalar
import JvmCalls.Proofs.Bytes.Spans
import JvmCalls.Proofs.Trapping.Instruction
import Mathlib.Order.Bounds.Defs

/-!
# Operations in any order

A caller may ask a reader for anything, one operation after another and with
any words as arguments, and may go on after a fault.  The reader stays in its
bytes through all of it, no sum of words is too great, and every operation ends
as integers without bounds say: at its target, or with a fault where it was.
-/

namespace JvmCalls

/-- The padding leads to the next multiple. -/
theorem Cursor.isLeast_add_padding {alignment position : Nat} (hpositive : 0 < alignment) :
    IsLeast {multiple | alignment ∣ multiple ∧ position ≤ multiple}
      (position + padding alignment position) := by
  have hexcess := Nat.mod_lt position hpositive
  have hless : padding alignment position < alignment := Nat.mod_lt _ hpositive
  have hdivides : alignment ∣ position + padding alignment position := by
    rw [Nat.dvd_iff_mod_eq_zero, padding, Nat.add_mod_mod, ← Nat.mod_add_mod,
      Nat.add_sub_of_le (Nat.le_of_lt hexcess), Nat.mod_self]
  refine ⟨⟨hdivides, Nat.le_add_right _ _⟩, fun multiple hmultiple => ?_⟩
  obtain ⟨hfactor, hbehind⟩ := hmultiple
  by_contra hbefore
  have hgap := Nat.le_of_dvd (by omega) (Nat.dvd_sub hdivides hfactor)
  omega

namespace Trapping

open JvmCalls (Instruction)

/-- What a caller asks of a reader. -/
inductive Operation
  | seek (target : UInt64)
  | advance (count : UInt64)
  | align (alignment : UInt64) (hpositive : 0 < alignment.toNat)
  | peek
  | scalar (kind : Scalar.Kind)
  | bytes (count : UInt64)
  | text (length : UInt64)
  | instruction

inductive Answer
  | done
  | byte (value : UInt8)
  | scalar (value : Scalar)
  | bytes (content : Bytes)
  | text (value : String)
  | instruction (value : Instruction)

abbrev Ended := EStateM.Result (Halt Fault) Reader Answer

def Reading.scalar (kind : Scalar.Kind) : Reading Scalar := do
  return Scalar.ofNat (← number kind.width) kind

namespace Operation

def reading : Operation → Reading Answer
  | seek target => (fun _ => .done) <$> Reading.seek target.toNat
  | advance count => (fun _ => .done) <$> Reading.skip count.toNat
  | align alignment _ => (fun _ => .done) <$> Reading.align alignment.toNat
  | peek => .byte <$> Reading.peek
  | scalar kind => .scalar <$> Reading.scalar kind
  | bytes count => .bytes <$> Reading.bytes count.toNat
  | text length => .text <$> Reading.passage length.toNat
  | instruction => .instruction <$> Instruction.decode

def decoder : Operation → Decoder Answer
  | seek target => (fun _ => .done) <$> Decoder.seek target.toNat
  | advance count => (fun _ => .done) <$> Decoder.skip count.toNat
  | align alignment _ => (fun _ => .done) <$> Decoder.align alignment.toNat
  | peek => .byte <$> Decoder.peek
  | scalar kind => .scalar <$> Scalar.decode kind
  | bytes count => .bytes <$> Decoder.bytes count.toNat
  | text length => .text <$> JvmCalls.ModifiedUtf8.text length.toNat
  | instruction => .instruction <$> JvmCalls.Instruction.decode

end Operation

/-! ## How operations end -/

def Reader.ahead (reader : Reader) (count : Nat) : Bytes :=
  (reader.data.drop reader.position).take count

def Reader.movedTo (reader : Reader) (target : Nat) : Reader := { reader with position := target }

/-- The operation is done and leaves the reader at its target if that may be, and else it
is out of bounds and leaves the reader where it was. -/
structure Lands (reader : Reader) (inside : Prop) (target : Nat) (answer : inside → Answer)
    (ended : Ended) : Prop where
  done : ∀ hinside : inside, ended = .ok (answer hinside) (reader.movedTo target)
  failed : ¬ inside → ended = .error (.flaw .outOfBounds) reader

/-- How a text ends whose bytes are there: behind them, with what they stand for or with
their defect.  A machine may lack the memory for the units of a huge one. -/
inductive Spells (reader : Reader) (length : Nat) : Ended → Prop
  | read {value : String}
      (hdecode : JvmCalls.ModifiedUtf8.decode (reader.ahead length) = .ok value) :
      Spells reader length (.ok (.text value) (reader.movedTo (reader.position + length)))
  | flawed {defect : Defect}
      (hdecode : JvmCalls.ModifiedUtf8.decode (reader.ahead length) = .error defect) :
      Spells reader length
        (.error (.flaw (.malformed defect)) (reader.movedTo (reader.position + length)))
  | exhausted (hhuge : 2 ^ 62 ≤ length) :
      Spells reader length
        (.error (.trap .capacity) (reader.movedTo (reader.position + length)))

/-- How an instruction ends: no further back than it started. -/
inductive Proceeds (reader : Reader) : Ended → Prop
  | read {value : Instruction} {target : Nat} (hforward : reader.position ≤ target) :
      Proceeds reader (.ok (.instruction value) (reader.movedTo target))
  | flawed {fault : Fault} {target : Nat} (hforward : reader.position ≤ target) :
      Proceeds reader (.error (.flaw fault) (reader.movedTo target))

/-- How the operation has to end, by integers without bounds. -/
def Operation.Meets (reader : Reader) (ended : Ended) : Operation → Prop
  | seek target =>
      Lands reader (target.toNat < reader.data.length) target.toNat (fun _ => .done) ended
  | advance count =>
      Lands reader (reader.position + count.toNat ≤ reader.data.length)
        (reader.position + count.toNat) (fun _ => .done) ended
  | align alignment _ =>
      ∃ target,
        IsLeast {multiple | alignment.toNat ∣ multiple ∧ reader.position ≤ multiple} target ∧
        Lands reader (target ≤ reader.data.length) target (fun _ => .done) ended
  | peek =>
      Lands reader (reader.position < reader.data.length) reader.position
        (fun hinside => .byte reader.data[reader.position]) ended
  | scalar kind =>
      Lands reader (reader.position + kind.width ≤ reader.data.length)
        (reader.position + kind.width)
        (fun _ => .scalar (Scalar.ofNat (BigEndian.value (reader.ahead kind.width)) kind)) ended
  | bytes count =>
      Lands reader (reader.position + count.toNat ≤ reader.data.length)
        (reader.position + count.toNat) (fun _ => .bytes (reader.ahead count.toNat)) ended
  | text length =>
      (reader.data.length < reader.position + length.toNat →
        ended = .error (.flaw .outOfBounds) reader) ∧
      (reader.position + length.toNat ≤ reader.data.length → Spells reader length.toNat ended)
  | instruction => Proceeds reader ended

section Cursors

variable {cursor next : Cursor} {count : Nat}

theorem movedTo_ofCursor (hdata : next.data = cursor.data) :
    (Reader.ofCursor cursor).movedTo next.position = .ofCursor next := by
  rw [Reader.movedTo, Reader.ofCursor, Reader.ofCursor, hdata]

theorem ahead_ofCursor : (Reader.ofCursor cursor).ahead count = cursor.rest.take count := by
  rw [Reader.ahead, cursor.rest_eq]
  rfl

theorem exists_advance? (hinside : cursor.position + count ≤ cursor.data.length) :
    ∃ next, cursor.advance? count = some next ∧ next.data = cursor.data ∧
      next.position = cursor.position + count := by
  cases hadvance : cursor.advance? count with
  | some next => exact ⟨next, rfl, Cursor.advance?_eq_some_iff.mp hadvance⟩
  | none => exact absurd hinside (Nat.not_le_of_lt (Cursor.advance?_eq_none_iff.mp hadvance))

theorem advance?_of_not_le (houtside : ¬ cursor.position + count ≤ cursor.data.length) :
    cursor.advance? count = none :=
  Cursor.advance?_eq_none_iff.mpr (Nat.lt_of_not_le houtside)

/-- A decoder that moves its cursor to the target lands there, whatever becomes of its
value. -/
theorem lands_map {Value : Type} {decoder : Decoder Value} {inside : Prop} {target : Nat}
    (value : inside → Value) (convert : Value → Answer)
    (hdone : ∀ hinside : inside, ∃ next, decoder cursor = .ok (value hinside) next ∧
      next.data = cursor.data ∧ next.position = target)
    (hfailed : ¬ inside → decoder cursor = .error .outOfBounds cursor) :
    Lands (.ofCursor cursor) inside target (fun hinside => convert (value hinside))
      (Reading.image ((convert <$> decoder) cursor)) := by
  constructor
  · intro hinside
    obtain ⟨next, hread, hdata, hposition⟩ := hdone hinside
    rw [Outcome.run_map_of_ok hread, ← hposition, movedTo_ofCursor hdata]
    rfl
  · intro houtside
    rw [Outcome.run_map_of_error (hfailed houtside)]
    rfl

theorem lands_seek (cursor : Cursor) (target : Nat) :
    Lands (.ofCursor cursor) (target < cursor.data.length) target (fun _ => .done)
      (Reading.image (((fun _ => .done) <$> Decoder.seek target : Decoder Answer) cursor)) := by
  refine lands_map (fun _ => ()) (fun _ => .done) (fun hinside => ?_) (fun houtside => ?_)
  · obtain ⟨next, hseek, hmoved⟩ : ∃ next, cursor.seek? target = some next ∧
        next.data = cursor.data ∧ next.position = target :=
      ⟨_, dif_pos hinside, rfl, rfl⟩
    refine ⟨next, ?_, hmoved⟩
    rw [Decoder.seek, Decoder.move, hseek]
  · rw [Decoder.seek, Decoder.move, Cursor.seek?, dif_neg houtside]

theorem lands_skip (cursor : Cursor) (count : Nat) :
    Lands (.ofCursor cursor) (cursor.position + count ≤ cursor.data.length)
      (cursor.position + count) (fun _ => .done)
      (Reading.image (((fun _ => .done) <$> Decoder.skip count : Decoder Answer) cursor)) := by
  refine lands_map (fun _ => ()) (fun _ => .done) (fun hinside => ?_) (fun houtside => ?_)
  · obtain ⟨next, hadvance, hmoved⟩ := exists_advance? hinside
    refine ⟨next, ?_, hmoved⟩
    rw [Decoder.skip, Decoder.move, hadvance]
  · rw [Decoder.skip, Decoder.move, advance?_of_not_le houtside]

theorem lands_peek (cursor : Cursor) :
    Lands (.ofCursor cursor) (cursor.position < cursor.data.length) cursor.position
      (fun hinside => .byte cursor.data[cursor.position])
      (Reading.image ((Answer.byte <$> Decoder.peek) cursor)) := by
  refine lands_map (fun hinside => cursor.data[cursor.position]) .byte
    (fun hinside => ⟨cursor, ?_, rfl, rfl⟩) (fun houtside => ?_)
  · have hrest : cursor.rest =
        cursor.data[cursor.position] :: cursor.data.drop (cursor.position + 1) := by
      rw [cursor.rest_eq, List.drop_eq_getElem_cons hinside]
    rw [Decoder.peek, hrest]
  · have hrest : cursor.rest = [] := by
      rw [cursor.rest_eq, List.drop_of_length_le (Nat.le_of_not_lt houtside)]
    rw [Decoder.peek, hrest]

/-- Whatever becomes of the bytes, they are those up to the target. -/
theorem lands_bytes (cursor : Cursor) (count : Nat) (convert : Bytes → Answer) :
    Lands (.ofCursor cursor) (cursor.position + count ≤ cursor.data.length)
      (cursor.position + count) (fun _ => convert ((Reader.ofCursor cursor).ahead count))
      (Reading.image ((convert <$> Decoder.bytes count) cursor)) := by
  refine lands_map (fun _ => (Reader.ofCursor cursor).ahead count) convert
    (fun hinside => ?_) (fun houtside => ?_)
  · obtain ⟨next, hadvance, hmoved⟩ := exists_advance? hinside
    refine ⟨next, ?_, hmoved⟩
    rw [Decoder.bytes, hadvance, ahead_ofCursor]
  · rw [Decoder.bytes, advance?_of_not_le houtside]

/-- A text whose bytes are there ends behind them. -/
theorem spells_text {length : Nat} (hadvance : cursor.advance? length = some next) :
    Spells (.ofCursor cursor) length
      (Reading.image ((Answer.text <$> JvmCalls.ModifiedUtf8.text length) cursor)) := by
  obtain ⟨hdata, hposition⟩ := Cursor.advance?_eq_some_iff.mp hadvance
  have hbehind := movedTo_ofCursor hdata
  rw [hposition] at hbehind
  have hbytes : Decoder.bytes length cursor = .ok (cursor.rest.take length) next := by
    rw [Decoder.bytes, hadvance]
  cases hdecode : JvmCalls.ModifiedUtf8.decode (cursor.rest.take length) with
  | ok value =>
      have hread : JvmCalls.ModifiedUtf8.text length cursor = .ok value next := by
        rw [JvmCalls.ModifiedUtf8.text, Outcome.run_bind_of_ok hbytes, hdecode]
        rfl
      rw [Outcome.run_map_of_ok hread, Reading.image, ← hbehind]
      exact .read (ahead_ofCursor ▸ hdecode)
  | error defect =>
      have hread : JvmCalls.ModifiedUtf8.text length cursor = .error (.malformed defect) next := by
        rw [JvmCalls.ModifiedUtf8.text, Outcome.run_bind_of_ok hbytes, hdecode]
        rfl
      rw [Outcome.run_map_of_error hread, Reading.image, ← hbehind]
      exact .flawed (ahead_ofCursor ▸ hdecode)

theorem text_of_overrun {length : Nat} (hadvance : cursor.advance? length = none) :
    (Answer.text <$> JvmCalls.ModifiedUtf8.text length) cursor = .error .outOfBounds cursor := by
  have hbytes : Decoder.bytes length cursor = .error .outOfBounds cursor := by
    rw [Decoder.bytes, hadvance]
  have hread : JvmCalls.ModifiedUtf8.text length cursor = .error .outOfBounds cursor := by
    rw [JvmCalls.ModifiedUtf8.text, Outcome.run_bind_of_error hbytes]
  exact Outcome.run_map_of_error hread

theorem proceeds_decode (cursor : Cursor) :
    Proceeds (.ofCursor cursor)
      (Reading.image ((Answer.instruction <$> JvmCalls.Instruction.decode) cursor)) := by
  have hforward := Instruction.forward_decode cursor
  cases hread : JvmCalls.Instruction.decode cursor with
  | ok value next =>
      rw [hread] at hforward
      have hbehind : (Reader.ofCursor cursor).movedTo next.position = .ofCursor next :=
        movedTo_ofCursor hforward.1
      rw [Outcome.run_map_of_ok hread, Reading.image, ← hbehind]
      exact .read hforward.2
  | error fault next =>
      rw [hread] at hforward
      have hbehind : (Reader.ofCursor cursor).movedTo next.position = .ofCursor next :=
        movedTo_ofCursor hforward.1
      rw [Outcome.run_map_of_error hread, Reading.image, ← hbehind]
      exact .flawed hforward.2

end Cursors

namespace Reading

variable {cursor : Cursor}

theorem followsAt_map {Value Result : Type} {reading : Reading Value} {decoder : Decoder Value}
    (convert : Value → Result) (hfollows : FollowsAt cursor reading decoder)
    (hsmall : cursor.data.length < 2 ^ 63) :
    FollowsAt cursor (convert <$> reading) (convert <$> decoder) := by
  rw [map_eq_pure_bind, map_eq_pure_bind]
  exact followsAt_bind hfollows (fun value middle _ hdata =>
    follows_pure (convert value) middle (hdata ▸ hsmall))

/-- The units of a huge text may be too many for the machine. -/
theorem passage_followsAt_or_exhausted (hsmall : cursor.data.length < 2 ^ 63) (length : Nat) :
    FollowsAt cursor (passage length) (JvmCalls.ModifiedUtf8.text length) ∨
      2 ^ 62 ≤ length ∧ ∃ next, cursor.advance? length = some next ∧
        passage length (.ofCursor cursor) = .error (.trap .capacity) (.ofCursor next) := by
  have hbytes := follows_bytes length cursor hsmall
  by_cases htotal : ∀ content next, Decoder.bytes length cursor = .ok content next →
      ModifiedUtf8.decode content = Checked.total (JvmCalls.ModifiedUtf8.decode content)
  · exact .inl (followsAt_bind hbytes (fun content next hread hdata =>
      follows_ofChecked (htotal content next hread) next (hdata ▸ hsmall)))
  obtain ⟨content, next, hread, hpartial⟩ : ∃ content next,
      Decoder.bytes length cursor = .ok content next ∧
        ModifiedUtf8.decode content ≠ Checked.total (JvmCalls.ModifiedUtf8.decode content) := by
    simpa only [not_forall, exists_prop] using htotal
  have hlength : content.length = length := Decoder.ensures_bytes length hread
  have hhuge : 2 ^ 62 ≤ content.length :=
    Nat.le_of_not_lt (fun hshort => hpartial (ModifiedUtf8.decode_eq hshort))
  have htrap := (ModifiedUtf8.decode_of_huge hhuge).resolve_left hpartial
  obtain ⟨hdata, hposition, _⟩ :=
    Cursor.spans_iff_position.mp (Decoder.bytes_eq_ok_iff.mp hread).2
  have hadvance := Cursor.advance?_eq_some_iff.mpr ⟨hdata, hlength ▸ hposition⟩
  refine .inr ⟨hlength ▸ hhuge, next, hadvance, ?_⟩
  rw [hread] at hbytes
  rw [passage, Outcome.run_bind_of_ok hbytes.1, htrap]
  rfl

end Reading

namespace Operation

/-- The decoders end as they have to. -/
theorem meets_decoder (operation : Operation) (cursor : Cursor) :
    operation.Meets (.ofCursor cursor) (Reading.image (operation.decoder cursor)) := by
  cases operation with
  | seek target => exact lands_seek cursor target.toNat
  | advance count => exact lands_skip cursor count.toNat
  | align alignment hpositive =>
      exact ⟨_, Cursor.isLeast_add_padding hpositive, lands_skip cursor _⟩
  | peek => exact lands_peek cursor
  | scalar kind =>
      have hdecoder : (scalar kind).decoder = (fun content =>
          .scalar (Scalar.ofNat (BigEndian.value content) kind)) <$> Decoder.bytes kind.width := by
        simp only [decoder, Scalar.decode, Decoder.number, bind_pure_comp, Functor.map_map]
      rw [hdecoder]
      exact lands_bytes cursor kind.width
        (fun content => .scalar (Scalar.ofNat (BigEndian.value content) kind))
  | bytes count => exact lands_bytes cursor count.toNat .bytes
  | text length =>
      constructor
      · intro hpast
        have hadvance := Cursor.advance?_eq_none_iff.mpr hpast
        exact congrArg Reading.image (text_of_overrun hadvance)
      · intro hinside
        obtain ⟨next, hadvance, _⟩ := exists_advance? hinside
        exact spells_text hadvance
  | instruction => exact proceeds_decode cursor

/-- A huge text may exhaust the machine; all else is what the decoder does. -/
theorem followsAt_or_exhausted (operation : Operation) {cursor : Cursor}
    (hsmall : cursor.data.length < 2 ^ 63) :
    Reading.FollowsAt cursor operation.reading operation.decoder ∨
      ∃ length next, operation = text length ∧ 2 ^ 62 ≤ length.toNat ∧
        cursor.advance? length.toNat = some next ∧
        operation.reading (.ofCursor cursor) = .error (.trap .capacity) (.ofCursor next) := by
  cases operation with
  | seek target => exact .inl (Reading.follows_map _ (Reading.follows_seek _) cursor hsmall)
  | advance count => exact .inl (Reading.follows_map _ (Reading.follows_skip _) cursor hsmall)
  | align alignment hpositive =>
      have halign := Reading.follows_align hpositive alignment.toNat_lt
      exact .inl (Reading.follows_map _ halign cursor hsmall)
  | peek => exact .inl (Reading.follows_map _ Reading.follows_peek cursor hsmall)
  | scalar kind =>
      have hscalar : Reading.Follows (Reading.scalar kind) (Scalar.decode kind) :=
        Reading.follows_then (Reading.follows_number _) (fun _ => Reading.follows_pure _)
      exact .inl (Reading.follows_map _ hscalar cursor hsmall)
  | bytes count => exact .inl (Reading.follows_map _ (Reading.follows_bytes _) cursor hsmall)
  | text length =>
      obtain hfollows | ⟨hhuge, next, hadvance, hrun⟩ :=
        Reading.passage_followsAt_or_exhausted hsmall length.toNat
      · exact .inl (Reading.followsAt_map _ hfollows hsmall)
      · exact .inr ⟨length, next, rfl, hhuge, hadvance, Outcome.run_map_of_error hrun⟩
  | instruction => exact .inl (Reading.follows_map _ Instruction.follows_decode cursor hsmall)

/-- Operations end as they have to, wherever a cursor stands. -/
theorem meets_reading (operation : Operation) {cursor : Cursor}
    (hsmall : cursor.data.length < 2 ^ 63) :
    operation.Meets (.ofCursor cursor) (operation.reading (.ofCursor cursor)) := by
  obtain ⟨hrun, _⟩ | ⟨length, next, rfl, hhuge, hadvance, hrun⟩ :=
    operation.followsAt_or_exhausted hsmall
  · rw [hrun]
    exact operation.meets_decoder cursor
  · obtain ⟨hdata, hposition⟩ := Cursor.advance?_eq_some_iff.mp hadvance
    have hbound := hdata ▸ next.position_le
    have hbehind := movedTo_ofCursor hdata
    rw [hposition] at hbehind hbound
    rw [hrun, ← hbehind]
    exact ⟨fun hpast => absurd hbound (Nat.not_le_of_lt hpast), fun _ => .exhausted hhuge⟩

end Operation

/-! ## Operations one after another -/

structure Step where
  before : Reader
  operation : Operation
  ended : Ended

namespace Step

def perform (operation : Operation) (reader : Reader) : Step where
  before := reader
  operation := operation
  ended := operation.reading reader

def after (step : Step) : Reader := Outcome.final step.ended

/-- There was no room for the units of a huge text. -/
def IsExhausted (step : Step) : Prop :=
  (∃ length, step.operation = .text length ∧ 2 ^ 62 ≤ length.toNat) ∧
    step.ended = .error (.trap .capacity) step.after

/-- What is true of an operation on the data, whatever was done before. -/
structure IsSafe (data : Bytes) (step : Step) : Prop where
  data_before : step.before.data = data
  position_before : step.before.position ≤ data.length
  data_after : step.after.data = data
  position_after : step.after.position ≤ data.length
  meets : step.operation.Meets step.before step.ended
  untrapped : ¬ step.IsExhausted → ∀ cause reader, step.ended ≠ .error (.trap cause) reader
  decodes : ¬ step.IsExhausted → ∃ cursor : Cursor, step.before = .ofCursor cursor ∧
    step.ended = Reading.image (step.operation.decoder cursor)

variable {cursor next : Cursor} {operation : Operation}

theorem isSafe_of_after (hsmall : cursor.data.length < 2 ^ 63) (hdata : next.data = cursor.data)
    (hafter : (perform operation (.ofCursor cursor)).after = .ofCursor next)
    (hdecodes : ¬ (perform operation (.ofCursor cursor)).IsExhausted →
      operation.reading (.ofCursor cursor) = Reading.image (operation.decoder cursor)) :
    (perform operation (.ofCursor cursor)).IsSafe cursor.data where
  data_before := rfl
  position_before := cursor.position_le
  data_after := hafter ▸ hdata
  position_after := hafter ▸ hdata ▸ next.position_le
  meets := operation.meets_reading hsmall
  untrapped := by
    intro hroom cause reader htrap
    have hended := (hdecodes hroom).symm.trans htrap
    cases hread : operation.decoder cursor with
    | ok value stop =>
        rw [hread] at hended
        cases hended
    | error fault stop =>
        rw [hread] at hended
        cases hended
  decodes := fun hroom => ⟨cursor, rfl, hdecodes hroom⟩

/-- An operation where a cursor stands is safe, and a cursor stands where it ends. -/
theorem isSafe_perform (hsmall : cursor.data.length < 2 ^ 63) :
    (perform operation (.ofCursor cursor)).IsSafe cursor.data ∧
      ∃ next : Cursor, next.data = cursor.data ∧
        (perform operation (.ofCursor cursor)).after = .ofCursor next := by
  obtain ⟨hrun, hdata⟩ | ⟨length, next, hoperation, hhuge, hadvance, hrun⟩ :=
    operation.followsAt_or_exhausted hsmall
  · have hafter : (perform operation (.ofCursor cursor)).after =
        .ofCursor (Decoder.reached (operation.decoder cursor)) := by
      rw [after, perform, hrun]
      cases operation.decoder cursor <;> rfl
    exact ⟨isSafe_of_after hsmall hdata hafter (fun _ => hrun), _, hdata, hafter⟩
  · obtain ⟨hdata, _⟩ := Cursor.advance?_eq_some_iff.mp hadvance
    have hafter : (perform operation (.ofCursor cursor)).after = .ofCursor next := by
      rw [after, perform, hrun]
      rfl
    have hexhausted : (perform operation (.ofCursor cursor)).IsExhausted :=
      ⟨⟨length, hoperation, hhuge⟩, hafter.symm ▸ hrun⟩
    exact ⟨isSafe_of_after hsmall hdata hafter (absurd hexhausted), next, hdata, hafter⟩

end Step

/-- The operations one after another, whether they fail or not. -/
def performAll : List Operation → Reader → List Step
  | [], _ => []
  | operation :: operations, reader =>
      let step := Step.perform operation reader
      step :: performAll operations step.after

/-- Whatever is asked of a reader of data that fit in memory, with whatever words and in
whatever order, it stays in the data, no sum of words is too great, and every operation ends
as integers without bounds say.  It is out of bounds exactly if its target is, and then it
has not moved. -/
theorem operations_stay_inside {data : Bytes} (hsmall : data.length < 2 ^ 63)
    (operations : List Operation) :
    ∀ step ∈ performAll operations (.start data), step.IsSafe data := by
  have hrun : ∀ cursor : Cursor, cursor.data = data →
      ∀ step ∈ performAll operations (.ofCursor cursor), step.IsSafe data := by
    induction operations with
    | nil =>
        intro cursor _ step hstep
        cases hstep
    | cons operation operations ih =>
        rintro cursor rfl
        obtain ⟨hsafe, next, hdata, hafter⟩ := Step.isSafe_perform hsmall
        rw [performAll, List.forall_mem_cons]
        exact ⟨hsafe, hafter ▸ ih next hdata⟩
  exact hrun (.start data) rfl

/-- Five bytes, and operations that lead as far as words do. -/
theorem operations_stay_inside_farthestWords :
    let data : Bytes := [0xB8, 0x00, 0x07, 0x61, 0x62]
    let operations : List Operation :=
      [.advance 0xFFFFFFFFFFFFFFFF, .instruction, .align 0xFFFFFFFFFFFFFFFF (by decide),
        .bytes 0xFFFFFFFFFFFFFFFD, .align 4 (by decide), .scalar .float64, .text 1, .peek,
        .seek 5, .align 0xFFFFFFFFFFFFFFFF (by decide), .seek 1, .scalar .int16, .text 2]
    data.length < 2 ^ 63 ∧
      (∀ step ∈ performAll operations (.start data), step.IsSafe data) ∧
      (performAll operations (.start data)).map (fun step => step.after.position) =
        [0, 3, 3, 3, 4, 4, 5, 5, 5, 5, 1, 3, 5] := by
  intro data operations
  have hsmall : data.length < 2 ^ 63 := by decide
  exact ⟨hsmall, operations_stay_inside hsmall operations, by decide +kernel⟩

end Trapping

end JvmCalls

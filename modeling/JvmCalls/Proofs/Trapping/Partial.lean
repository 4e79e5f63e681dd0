import JvmCalls.Bytes.BigEndian
import Mathlib.Algebra.Group.Int.Defs
import Mathlib.Algebra.GroupWithZero.Nat

/-!
# Partial operations

A machine that reads class data counts in words of 64 bits, takes bytes and
texts apart by positions, casts and shifts.  Each of these operations has a
domain and traps outside of it.  A `Checked` computation may end with a trap
beside the flaws that the data may have, so that a computation which never
traps is one whose every operation stays in its domain.  Casts and shifts that
lose bits count as traps as well, and so does a loop that does not get on.
-/

namespace JvmCalls.Trapping

/-- What a machine cannot do. -/
inductive Trap
  | overflow
  | divisionByZero
  | outside
  /-- A text is cut inside of a character or behind its end. -/
  | split
  /-- A cast or a shift loses bits. -/
  | loss
  | capacity
  /-- A round of a loop leaves as much to do as there was before it. -/
  | stall
  deriving DecidableEq, Repr

inductive Halt (Flaw : Type)
  | trap (cause : Trap)
  | flaw (flaw : Flaw)
  deriving DecidableEq, Repr

/-- A computation with operations that may trap. -/
abbrev Checked (Flaw : Type) := Except (Halt Flaw)

namespace Checked

variable {Flaw Value Result : Type}

def trap (cause : Trap) : Checked Flaw Value := .error (.trap cause)

def flaw (found : Flaw) : Checked Flaw Value := .error (.flaw found)

/-- A computation all of whose operations are total. -/
def total : Except Flaw Value → Checked Flaw Value
  | .ok value => .ok value
  | .error found => flaw found

def mapFlaw {Other : Type} (convert : Flaw → Other) : Checked Flaw Value → Checked Other Value
  | .ok value => .ok value
  | .error (.trap cause) => trap cause
  | .error (.flaw found) => flaw (convert found)

@[simp]
theorem total_ok (value : Value) : total (.ok value : Except Flaw Value) = .ok value := rfl

@[simp]
theorem total_error (found : Flaw) : total (.error found : Except Flaw Value) = flaw found := rfl

@[simp]
theorem ok_bind (value : Value) (next : Value → Checked Flaw Result) :
    ((Except.ok value : Checked Flaw Value) >>= next) = next value := rfl

@[simp]
theorem flaw_bind (found : Flaw) (next : Value → Checked Flaw Result) :
    (flaw found >>= next) = flaw found := rfl

theorem total_bind (first : Except Flaw Value) (next : Value → Except Flaw Result) :
    total (first >>= next) = total first >>= fun value => total (next value) := by
  cases first with
  | ok value => rfl
  | error found => rfl

theorem total_eq_ok_iff {computed : Except Flaw Value} {value : Value} :
    total computed = .ok value ↔ computed = .ok value := by
  cases computed with
  | ok found => simp [total]
  | error found => simp [total, flaw]

theorem discard_total (computed : Except Flaw Value) :
    discard (total computed) = total (discard computed) := by
  cases computed with
  | ok value => rfl
  | error found => rfl

theorem mapFlaw_total {Other : Type} (convert : Flaw → Other) (computed : Except Flaw Value) :
    mapFlaw convert (total computed) = total (computed.mapError convert) := by
  cases computed with
  | ok value => rfl
  | error found => rfl

/-- Steps that are total on all items are total on the list of them. -/
theorem mapM_eq_total {Item : Type} {items : List Item} {step : Item → Checked Flaw Value}
    {original : Item → Except Flaw Value}
    (hsteps : ∀ item ∈ items, step item = total (original item)) :
    items.mapM step = total (items.mapM original) := by
  induction items with
  | nil => rfl
  | cons item items ih =>
      rw [List.forall_mem_cons] at hsteps
      simp only [List.mapM_cons, hsteps.1, ih hsteps.2, total_bind]
      rfl

/-- The same for steps without values. -/
theorem forM_eq_total {Item : Type} {items : List Item} {step : Item → Checked Flaw Unit}
    {original : Item → Except Flaw Unit}
    (hsteps : ∀ item ∈ items, step item = total (original item)) :
    items.forM step = total (items.forM original) := by
  induction items with
  | nil => rfl
  | cons item items ih =>
      rw [List.forall_mem_cons] at hsteps
      change (step item >>= fun _ => items.forM step) =
        total (original item >>= fun _ => items.forM original)
      rw [total_bind, hsteps.1, ih hsteps.2]

/-- A total computation does not trap. -/
theorem total_ne_trap (computed : Except Flaw Value) (cause : Trap) :
    total computed ≠ trap cause := by
  cases computed with
  | ok value => exact nofun
  | error found => exact nofun

end Checked

open Checked

variable {Flaw : Type}

/-! ## Words -/

namespace Word

variable {left right : Nat}

/-- The sum of two words, if it is a word. -/
def add? (left right : Nat) : Option Nat :=
  if left + right < 2 ^ 64 then some (left + right) else none

def add (left right : Nat) : Checked Flaw Nat :=
  if left + right < 2 ^ 64 then .ok (left + right) else trap .overflow

def sub (left right : Nat) : Checked Flaw Nat :=
  if right ≤ left then .ok (left - right) else trap .overflow

def rem (left right : Nat) : Checked Flaw Nat :=
  if right = 0 then trap .divisionByZero else .ok (left % right)

def ofInt (number : Int) : Checked Flaw Nat :=
  if 0 ≤ number ∧ number < 2 ^ 64 then .ok number.toNat else trap .loss

def toUInt16 (word : Nat) : Checked Flaw UInt16 :=
  if word < 2 ^ 16 then .ok (UInt16.ofNat word) else trap .loss

/-- Asks for a vector of `count` items of `size` bytes.  Nothing in memory has
2^63 bytes. -/
def reserve (count size : Nat) : Checked Flaw Unit :=
  if count * size < 2 ^ 63 then .ok () else trap .capacity

/-- More bytes than any item of a vector takes here. -/
def itemSize : Nat := 2 ^ 16

theorem add?_eq (hfits : left + right < 2 ^ 64) : add? left right = some (left + right) :=
  if_pos hfits

theorem add_eq (hfits : left + right < 2 ^ 64) :
    (add left right : Checked Flaw Nat) = .ok (left + right) :=
  if_pos hfits

/-- Words are added up if their sum is a word, since every sum on the way to it
is no greater. -/
theorem foldlM_add {start : Nat} {words : List Nat} (hfits : start + words.sum < 2 ^ 64) :
    (words.foldlM add start : Checked Flaw Nat) = .ok (start + words.sum) := by
  induction words generalizing start with
  | nil => rfl
  | cons word words ih =>
      rw [List.sum_cons] at hfits
      rw [List.foldlM_cons, add_eq (by omega), ok_bind, ih (by omega), List.sum_cons, Nat.add_assoc]

theorem sub_eq (hle : right ≤ left) : (sub left right : Checked Flaw Nat) = .ok (left - right) :=
  if_pos hle

theorem rem_eq (hright : right ≠ 0) : (rem left right : Checked Flaw Nat) = .ok (left % right) :=
  if_neg hright

theorem ofInt_eq {number : Int} (hlow : 0 ≤ number) (hhigh : number < 2 ^ 64) :
    (ofInt number : Checked Flaw Nat) = .ok number.toNat :=
  if_pos ⟨hlow, hhigh⟩

theorem toUInt16_eq {word : Nat} (hfits : word < 2 ^ 16) :
    (toUInt16 word : Checked Flaw UInt16) = .ok (UInt16.ofNat word) :=
  if_pos hfits

theorem reserve_eq {count size : Nat} (hfits : count * size < 2 ^ 63) :
    (reserve count size : Checked Flaw Unit) = .ok () :=
  if_pos hfits

/-- A vector with a number of items that takes four bytes finds room. -/
theorem reserve_items {count : Nat} (hcount : count < 2 ^ 32) :
    (reserve count itemSize : Checked Flaw Unit) = .ok () := by
  apply reserve_eq
  rw [itemSize]
  omega

end Word

/-! ## Signed words -/

namespace SignedWord

def InRange (number : Int) : Prop := -2 ^ 63 ≤ number ∧ number < 2 ^ 63

instance (number : Int) : Decidable (InRange number) :=
  inferInstanceAs (Decidable (_ ∧ _))

def add (left right : Int) : Checked Flaw Int :=
  if InRange (left + right) then .ok (left + right) else trap .overflow

def sub (left right : Int) : Checked Flaw Int :=
  if InRange (left - right) then .ok (left - right) else trap .overflow

theorem add_eq {left right : Int} (hrange : InRange (left + right)) :
    (add left right : Checked Flaw Int) = .ok (left + right) :=
  if_pos hrange

theorem sub_eq {left right : Int} (hrange : InRange (left - right)) :
    (sub left right : Checked Flaw Int) = .ok (left - right) :=
  if_pos hrange

end SignedWord

/-! ## Units of 16 bits -/

/-- The unit moved up by `count` bits, which are fewer than it has. -/
def shiftUp (unit : UInt16) (count : Nat) : Checked Flaw UInt16 :=
  if count < 16 ∧ unit.toNat * 2 ^ count < 2 ^ 16 then
    .ok (UInt16.ofNat (unit.toNat * 2 ^ count))
  else
    trap .loss

theorem shiftUp_eq {unit : UInt16} {count : Nat} (hcount : count < 16)
    (hfits : unit.toNat * 2 ^ count < 2 ^ 16) :
    (shiftUp unit count : Checked Flaw UInt16) = .ok (UInt16.ofNat (unit.toNat * 2 ^ count)) :=
  if_pos ⟨hcount, hfits⟩

/-! ## Bytes -/

def byteAt (bytes : Bytes) (position : Nat) : Checked Flaw UInt8 :=
  match bytes[position]? with
  | some byte => .ok byte
  | none => trap .outside

def slice (bytes : Bytes) (start finish : Nat) : Checked Flaw Bytes :=
  if start ≤ finish ∧ finish ≤ bytes.length then
    .ok ((bytes.drop start).take (finish - start))
  else
    trap .outside

theorem byteAt_eq {bytes : Bytes} {position : Nat} {byte : UInt8}
    (hbyte : bytes[position]? = some byte) :
    (byteAt bytes position : Checked Flaw UInt8) = .ok byte := by
  rw [byteAt, hbyte]

theorem slice_eq {bytes : Bytes} {start finish : Nat} (horder : start ≤ finish)
    (hinside : finish ≤ bytes.length) :
    (slice bytes start finish : Checked Flaw Bytes) =
      .ok ((bytes.drop start).take (finish - start)) :=
  if_pos ⟨horder, hinside⟩

end JvmCalls.Trapping

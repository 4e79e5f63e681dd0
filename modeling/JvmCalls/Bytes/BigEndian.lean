/-!
# Byte strings and big-endian numbers

Every multi-byte number of a class file is written most significant byte
first.  `BigEndian.value` reads such a byte string and `BigEndian.digits`
writes one of a fixed width; the two are inverse to each other on numbers that
fit the width.
-/

namespace JvmCalls

abbrev Bytes := List UInt8

namespace BigEndian

/-- The number whose base-256 digits, most significant first, are `bytes`. -/
def value (bytes : Bytes) : Nat :=
  bytes.foldl (fun number byte => number * 256 + byte.toNat) 0

/-- The `width` low base-256 digits of `number`, most significant first. -/
def digits : (width number : Nat) → Bytes
  | 0, _ => []
  | width + 1, number => digits width (number / 256) ++ [UInt8.ofNat number]

/-- The count of numbers that fit `width` digits. -/
def capacity : (width : Nat) → Nat
  | 0 => 1
  | width + 1 => capacity width * 256

@[simp]
theorem length_digits (width number : Nat) :
    (digits width number).length = width := by
  induction width generalizing number with
  | zero => rfl
  | succ width ih => simp [digits, ih]

@[simp]
theorem value_nil : value [] = 0 := rfl

theorem value_append_singleton (bytes : Bytes) (byte : UInt8) :
    value (bytes ++ [byte]) = value bytes * 256 + byte.toNat := by
  simp [value]

/-- Reading what was written keeps the number modulo the width. -/
theorem value_digits (width number : Nat) :
    value (digits width number) = number % capacity width := by
  induction width generalizing number with
  | zero => simp [digits, capacity, Nat.mod_one]
  | succ width ih =>
      rw [digits, value_append_singleton, ih, capacity, Nat.mul_comm (capacity width),
        Nat.mod_mul]
      have hbyte : (UInt8.ofNat number).toNat = number % 256 := by simp
      omega

/-- A number that fits the width is read back unchanged. -/
theorem value_digits_of_lt {width number : Nat} (hfits : number < capacity width) :
    value (digits width number) = number := by
  rw [value_digits, Nat.mod_eq_of_lt hfits]

theorem value_lt (bytes : Bytes) : value bytes < capacity bytes.length := by
  suffices hreverse : ∀ tail : Bytes, value tail.reverse < capacity tail.length by
    simpa using hreverse bytes.reverse
  intro tail
  induction tail with
  | nil => simp [capacity]
  | cons byte tail ih =>
      rw [List.reverse_cons, value_append_singleton, List.length_cons, capacity]
      have hbyte := byte.toNat_lt
      omega

/-- Writing what was read gives back the byte string. -/
theorem digits_value (bytes : Bytes) : digits bytes.length (value bytes) = bytes := by
  suffices hreverse : ∀ tail : Bytes,
      digits tail.length (value tail.reverse) = tail.reverse by
    simpa using hreverse bytes.reverse
  intro tail
  induction tail with
  | nil => rfl
  | cons byte tail ih =>
      have hbyte := byte.toNat_lt
      rw [List.reverse_cons, value_append_singleton, List.length_cons, digits]
      have hhigh : (value tail.reverse * 256 + byte.toNat) / 256 = value tail.reverse := by
        omega
      have hlow : UInt8.ofNat (value tail.reverse * 256 + byte.toNat) = byte := by
        apply UInt8.toNat_inj.mp
        simp
      rw [hhigh, hlow, ih]

end BigEndian

end JvmCalls

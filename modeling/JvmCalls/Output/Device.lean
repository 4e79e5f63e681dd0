import JvmCalls.Text.Utf8

/-!
# Output devices

A device takes bytes until its capacity is used up and refuses all others.  A
write to a full device still delivers the longest start that fits.
-/

namespace JvmCalls

inductive OutputFault
  | refused
  deriving DecidableEq, Repr

/-- What bytes can be written to. -/
class Output (State : Type) where
  /-- Writes all bytes or fails.  Some may be out after a failure, and nothing
  that is written later gets out. -/
  write : Bytes → EStateM OutputFault State Unit
  flush : EStateM OutputFault State Unit

/-- A device and what it has taken so far. -/
structure Device where
  capacity : Option Nat
  taken : Array UInt8
  deriving DecidableEq, Repr

namespace Device

def ofCapacity (capacity : Option Nat) : Device := { capacity, taken := #[] }

def unlimited : Device := ofCapacity none

/-- Writes bytes as far as they fit. -/
def write (bytes : Bytes) : EStateM OutputFault Device Unit := fun device =>
  match device.capacity with
  | none => .ok () { device with taken := device.taken ++ bytes }
  | some capacity =>
      let accepted := bytes.take (capacity - device.taken.size)
      let next := { device with taken := device.taken ++ accepted }
      if accepted.length = bytes.length then .ok () next else .error .refused next

instance : Output Device where
  write := write
  flush := pure ()

def bytes (device : Device) : Bytes := device.taken.toList

def text (device : Device) : String := Utf8.decode device.bytes

end Device

end JvmCalls

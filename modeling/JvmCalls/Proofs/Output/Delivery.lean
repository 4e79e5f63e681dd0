import JvmCalls.Output.Buffered
import JvmCalls.Proofs.Outcome

/-!
# Delivery of written bytes

What is written to an output gets to a device, at once or behind buffers.  As
long as the bytes fit the capacity of the device, none is lost, and a flush has
all of them delivered.  If they do not fit, some write or flush is refused, and
then the device has taken exactly those bytes that fit and takes no more.
-/

namespace JvmCalls

namespace Device

def Exceeds : (capacity : Option Nat) → Bytes → Prop
  | none, _ => False
  | some capacity, bytes => capacity < bytes.length

def fitting : (capacity : Option Nat) → Bytes → Bytes
  | none, bytes => bytes
  | some capacity, bytes => bytes.take capacity

def IsFull (device : Device) : Prop :=
  ∃ capacity, device.capacity = some capacity ∧ capacity ≤ device.bytes.length

section Capacity

variable {capacity : Option Nat} {left : Bytes}

/-- Too many bytes stay too many with others behind them. -/
theorem Exceeds.append (hexceeds : Exceeds capacity left) (right : Bytes) :
    Exceeds capacity (left ++ right) := by
  cases capacity with
  | none => exact hexceeds
  | some capacity =>
      change capacity < (left ++ right).length
      rw [List.length_append]
      exact Nat.lt_add_right _ hexceeds

/-- What stands behind too many bytes does not get to the device. -/
theorem Exceeds.fitting_append (hexceeds : Exceeds capacity left) (right : Bytes) :
    fitting capacity (left ++ right) = fitting capacity left := by
  cases capacity with
  | none => exact absurd hexceeds id
  | some capacity => exact List.take_append_of_le_length (Nat.le_of_lt hexceeds)

theorem not_exceeds_nil : ¬ Exceeds capacity [] := by
  cases capacity with
  | none => exact id
  | some capacity => exact Nat.not_lt_zero capacity

instance (capacity : Option Nat) (bytes : Bytes) : Decidable (Exceeds capacity bytes) :=
  match capacity with
  | none => inferInstanceAs (Decidable False)
  | some capacity => inferInstanceAs (Decidable (capacity < bytes.length))

end Capacity

theorem length_bytes (device : Device) : device.bytes.length = device.taken.size :=
  Array.length_toList

/-- A device with more bytes behind those it has taken. -/
theorem bytes_append (device : Device) (more : Bytes) :
    Device.bytes { device with taken := device.taken ++ more } = device.bytes ++ more := by
  simp [Device.bytes]

/-- A full device stays as it is, whatever is written to it. -/
theorem write_of_full {device : Device} (hfull : device.IsFull) (more : Bytes) :
    Outcome.final (Output.write more device) = device := by
  obtain ⟨capacity, hcapacity, hsize⟩ := hfull
  rw [length_bytes] at hsize
  have hnone : more.take (capacity - device.taken.size) = [] := by
    rw [Nat.sub_eq_zero_of_le hsize, List.take_zero]
  have hsame : ({ device with taken := device.taken ++ ([] : Bytes) } : Device) = device := by
    rw [Array.appendList_nil]
  change Outcome.final (Device.write more device) = device
  rw [Device.write, hcapacity]
  simp only [hnone, ← hcapacity, hsame]
  split <;> rfl

end Device

/-- The result of writing through an output with a device behind it: the output
is in a good state, or it refused the bytes because there are too many. -/
inductive Settles {State : Type} (device : State → Device) (capacity : Option Nat)
    (good : State → Prop) (sent : Bytes) : EStateM.Result OutputFault State Unit → Prop
  | ok {next : State} (hgood : good next) : Settles device capacity good sent (.ok () next)
  | refused {last : State} (hexceeds : Device.Exceeds capacity sent)
      (hfull : (device last).IsFull)
      (htaken : (device last).bytes = Device.fitting capacity sent) :
      Settles device capacity good sent (.error .refused last)

section Settles

variable {State : Type} {device : State → Device} {capacity : Option Nat}
variable {good better : State → Prop} {sent : Bytes}

theorem Settles.imp {result : EStateM.Result OutputFault State Unit}
    (hresult : Settles device capacity good sent result)
    (himp : ∀ state, good state → better state) :
    Settles device capacity better sent result := by
  cases hresult with
  | ok hgood => exact .ok (himp _ hgood)
  | refused hexceeds hfull htaken => exact .refused hexceeds hfull htaken

/-- Writing goes on from a good state and ends with a refusal. -/
theorem Settles.bind {total : Bytes} {first : EStateM OutputFault State Unit}
    {next : Unit → EStateM OutputFault State Unit} {state : State}
    (hfirst : Settles device capacity good sent (first state)) (hmore : sent <+: total)
    (hnext : ∀ middle, good middle → Settles device capacity better total (next () middle)) :
    Settles device capacity better total ((first >>= next) state) := by
  obtain ⟨more, rfl⟩ := hmore
  cases hresult : first state with
  | ok value middle =>
      rw [hresult] at hfirst
      rw [Outcome.run_bind_of_ok hresult]
      cases hfirst with
      | ok hgood => exact hnext middle hgood
  | error fault last =>
      rw [hresult] at hfirst
      rw [Outcome.run_bind_of_error hresult]
      cases hfirst with
      | refused hexceeds hfull htaken =>
          refine .refused (hexceeds.append more) hfull ?_
          rw [hexceeds.fitting_append more, htaken]

end Settles

/-- An action leaves the device behind an output as it is once that is full. -/
def Spares {State : Type} (device : State → Device) (action : EStateM OutputFault State Unit) :
    Prop :=
  ∀ state, (device state).IsFull → device (Outcome.final (action state)) = device state

theorem spares_bind {State : Type} {device : State → Device}
    {first : EStateM OutputFault State Unit} {next : Unit → EStateM OutputFault State Unit}
    (hfirst : Spares device first) (hnext : Spares device (next ())) :
    Spares device (first >>= next) := by
  intro state hfull
  have hsame := hfirst state hfull
  cases hresult : first state with
  | ok value middle =>
      rw [hresult] at hsame
      rw [Outcome.run_bind_of_ok hresult, ← hsame]
      rw [← hsame] at hfull
      exact hnext middle hfull
  | error fault last =>
      rw [hresult] at hsame
      rw [Outcome.run_bind_of_error hresult]
      exact hsame

/-- The way from an output to its device.  A state carries the bytes that were
written so far without a refusal. -/
structure Conduit (State : Type) [Output State] (capacity : Option Nat) where
  device : State → Device
  Carries : State → Bytes → Prop
  write : ∀ {state : State} {sent : Bytes} (bytes : Bytes), Carries state sent →
    Settles device capacity (Carries · (sent ++ bytes)) (sent ++ bytes) (Output.write bytes state)
  flush : ∀ {state : State} {sent : Bytes}, Carries state sent →
    Settles device capacity
      (fun next => Carries next sent ∧ (device next).bytes = sent ∧ ¬ Device.Exceeds capacity sent)
      sent (Output.flush state)
  write_spares : ∀ bytes, Spares device (Output.write bytes)
  flush_spares : Spares device Output.flush

namespace Conduit

variable {State : Type} [Output State] {capacity : Option Nat}

/-- A writer adds the bytes to those that are carried. -/
def Puts (conduit : Conduit State capacity) (writer : EStateM OutputFault State Unit)
    (bytes : Bytes) : Prop :=
  ∀ ⦃state sent⦄, conduit.Carries state sent →
    Settles conduit.device capacity (conduit.Carries · (sent ++ bytes)) (sent ++ bytes)
      (writer state)

variable {conduit : Conduit State capacity}

theorem puts_pure : conduit.Puts (pure ()) [] := by
  intro state sent hcarries
  rw [List.append_nil]
  exact .ok hcarries

theorem puts_bind {first : EStateM OutputFault State Unit}
    {next : Unit → EStateM OutputFault State Unit} {left right : Bytes}
    (hfirst : conduit.Puts first left) (hnext : conduit.Puts (next ()) right) :
    conduit.Puts (first >>= next) (left ++ right) := by
  intro state sent hcarries
  rw [← List.append_assoc]
  exact (hfirst hcarries).bind (List.prefix_append _ _) (fun middle hmiddle => hnext hmiddle)

theorem puts_forM {Item : Type} {items : List Item} {encode : Item → Bytes}
    {writer : Item → EStateM OutputFault State Unit}
    (hitem : ∀ item, conduit.Puts (writer item) (encode item)) :
    conduit.Puts (items.forM writer) (items.flatMap encode) := by
  induction items with
  | nil => exact puts_pure
  | cons item items ih => exact puts_bind (hitem item) ih

theorem puts_write (bytes : Bytes) : conduit.Puts (Output.write bytes) bytes :=
  fun _ _ hcarries => conduit.write bytes hcarries

end Conduit

namespace Device

variable {capacity : Option Nat}

/-- The device has taken all bytes that were written to it. -/
def Holds (capacity : Option Nat) (device : Device) (sent : Bytes) : Prop :=
  device.capacity = capacity ∧ device.bytes = sent ∧ ¬ Exceeds capacity sent

theorem write_settles {device : Device} {sent : Bytes} (more : Bytes)
    (hholds : Holds capacity device sent) :
    Settles id capacity (Holds capacity · (sent ++ more)) (sent ++ more)
      (Output.write more device) := by
  obtain ⟨rfl, rfl, hfits⟩ := hholds
  obtain ⟨capacity, taken⟩ := device
  cases capacity with
  | none => exact .ok ⟨rfl, bytes_append _ more, id⟩
  | some bound =>
      let device : Device := ⟨some bound, taken⟩
      have hlength : device.bytes.length = taken.size := length_bytes device
      have hroom : taken.size ≤ bound := hlength ▸ Nat.le_of_not_lt hfits
      have htaken : device.bytes ++ more.take (bound - taken.size) =
          (device.bytes ++ more).take bound := by
        have hall : device.bytes.take bound = device.bytes :=
          List.take_of_length_le (hlength ▸ hroom)
        rw [List.take_append, hall, hlength]
      change Settles _ _ _ _ (Device.write more device)
      simp only [Device.write, device]
      split
      · next hall =>
          have hfit : taken.size + more.length ≤ bound := by
            rw [List.length_take] at hall
            omega
          rw [List.take_of_length_le (Nat.le_sub_of_add_le' hfit)]
          refine .ok ⟨rfl, bytes_append device more, Nat.not_lt_of_le ?_⟩
          rw [List.length_append, hlength]
          exact hfit
      · next hcut =>
          have hexceeds : bound < (device.bytes ++ more).length := by
            rw [List.length_take] at hcut
            rw [List.length_append, hlength]
            omega
          have hlast := (bytes_append device (more.take (bound - taken.size))).trans htaken
          refine .refused hexceeds ⟨bound, rfl, ?_⟩ hlast
          have hfull : ((device.bytes ++ more).take bound).length = bound :=
            List.length_take_of_le (Nat.le_of_lt hexceeds)
          rw [← hlast] at hfull
          exact Nat.le_of_eq hfull.symm

/-- The device itself, without anything in front of it. -/
def conduit (capacity : Option Nat) : Conduit Device capacity where
  device := id
  Carries := Holds capacity
  write := write_settles
  flush := fun hholds => .ok ⟨hholds, hholds.2.1, hholds.2.2⟩
  write_spares := fun more _ hfull => write_of_full hfull more
  flush_spares := fun _ _ => rfl

theorem holds_ofCapacity (capacity : Option Nat) : Holds capacity (ofCapacity capacity) [] :=
  ⟨rfl, rfl, not_exceeds_nil⟩

end Device

end JvmCalls

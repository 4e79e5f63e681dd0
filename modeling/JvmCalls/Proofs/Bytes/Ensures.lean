import JvmCalls.Bytes.Cursor
import JvmCalls.Proofs.Outcome

/-!
# Properties of decoded values

`Decoder.Ensures` says that every value a decoder returns has a property.  It
is closed under sequencing, so a property that an inner read establishes is
carried through all reads around it.
-/

namespace JvmCalls.Decoder

variable {Value Result : Type}

/-- Every value the decoder returns has the property. -/
def Ensures (decoder : Decoder Value) (property : Value → Prop) : Prop :=
  ∀ ⦃cursor value next⦄, decoder cursor = .ok value next → property value

theorem ensures_pure {value : Value} {property : Value → Prop} (hvalue : property value) :
    Ensures (pure value) property := by
  intro cursor result next hread
  cases hread
  exact hvalue

theorem ensures_throw (fault : Fault) (property : Value → Prop) :
    Ensures (throw fault) property := by
  intro cursor value next hread
  cases hread

theorem ensures_bind {first : Decoder Value} {next : Value → Decoder Result}
    {before : Value → Prop} {after : Result → Prop} (hfirst : Ensures first before)
    (hnext : ∀ value, before value → Ensures (next value) after) :
    Ensures (first >>= next) after := by
  intro cursor result stop hread
  obtain ⟨value, middle, hvalue, hresult⟩ := Outcome.run_bind_eq_ok_iff.mp hread
  exact hnext value (hfirst hvalue) hresult

/-- A read whose value has no bearing on the property. -/
theorem ensures_then {first : Decoder Value} {next : Value → Decoder Result}
    {after : Result → Prop} (hnext : ∀ value, Ensures (next value) after) :
    Ensures (first >>= next) after := by
  intro cursor result stop hread
  obtain ⟨value, middle, _, hresult⟩ := Outcome.run_bind_eq_ok_iff.mp hread
  exact hnext value hresult

theorem ensures_bytes (count : Nat) :
    Ensures (bytes count) (fun content => content.length = count) := by
  intro cursor content next hread
  simp only [bytes] at hread
  cases hadvance : cursor.advance? count with
  | none => simp [hadvance] at hread
  | some target =>
      rw [hadvance] at hread
      obtain ⟨hdata, hposition⟩ := Cursor.advance?_eq_some_iff.mp hadvance
      have hbound := target.position_le
      rw [hdata, hposition] at hbound
      cases hread
      rw [List.length_take, cursor.length_rest]
      omega

theorem ensures_within {inner : Decoder Value} {property : Value → Prop} (body : Bytes)
    (hinner : Ensures inner property) : Ensures (within body inner) property := by
  intro cursor value next hread
  simp only [within] at hread
  cases hbody : inner (Cursor.start body) with
  | error fault stop => simp [hbody] at hread
  | ok found stop =>
      rw [hbody] at hread
      cases hread
      exact hinner hbody

/-- Every value of a counted sequence has the property of its items. -/
theorem ensures_replicate {item : Decoder Value} {property : Value → Prop} (count : Nat)
    (hitem : Ensures item property) :
    Ensures (replicate count item) (fun values => ∀ value ∈ values, property value) := by
  have hcollect : ∀ values, (∀ value ∈ values, property value) →
      Ensures (collect item count values) (fun found => ∀ value ∈ found, property value) := by
    induction count with
    | zero => exact fun values hvalues => ensures_pure hvalues
    | succ count ih =>
        intro values hvalues
        refine ensures_bind hitem (fun value hvalue => ih (value :: values) ?_)
        exact List.forall_mem_cons.mpr ⟨hvalue, hvalues⟩
  refine ensures_bind (hcollect [] (by simp)) (fun values hvalues => ensures_pure ?_)
  intro value hvalue
  exact hvalues value (List.mem_reverse.mp hvalue)

end JvmCalls.Decoder

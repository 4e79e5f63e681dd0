import JvmCalls.Proofs.Output.Delivery

/-!
# Delivery through buffers

A buffer carries the bytes that its output carries and behind them those it
holds back.  It passes bytes on in the order in which they were written, so a
refusal that shows late still leaves the device with exactly the bytes that
fit.
-/

namespace JvmCalls

/-- Nothing is lost or moved where bytes are split. -/
theorem Buffering.split_append (buffering : Buffering) (bytes : Bytes) :
    (buffering.split bytes).1 ++ (buffering.split bytes).2 = bytes := by
  cases buffering with
  | byBlock => rfl
  | byLine =>
      let partialLine := (bytes.reverse.takeWhile (· != lineBreak)).reverse
      let lines := (bytes.reverse.dropWhile (· != lineBreak)).reverse
      have hwhole : lines ++ partialLine = bytes := by
        rw [← List.reverse_append, List.takeWhile_append_dropWhile, List.reverse_reverse]
      have hlines : bytes.take (bytes.length - partialLine.length) = lines := by
        rw [← hwhole, List.length_append, Nat.add_sub_cancel, List.take_left]
      change bytes.take (bytes.length - partialLine.length) ++ partialLine = bytes
      rw [hlines, hwhole]

namespace Buffered

variable {buffering : Buffering} {size : Nat} {State : Type} [Output State]
variable {capacity : Option Nat} (conduit : Conduit State capacity)

def deviceOf (buffered : Buffered buffering size State) : Device :=
  conduit.device buffered.output

/-- The output and behind it the buffer hold the bytes. -/
def Holds (buffered : Buffered buffering size State) (sent : Bytes) : Prop :=
  ∃ passed, conduit.Carries buffered.output passed ∧ passed ++ buffered.pending.toList = sent

/-- The output alone holds the bytes. -/
def IsDrained (buffered : Buffered buffering size State) (sent : Bytes) : Prop :=
  conduit.Carries buffered.output sent ∧ buffered.pending = #[]

section Carried

variable {conduit} {sent : Bytes}

theorem IsDrained.holds {buffered : Buffered buffering size State}
    (hdrained : IsDrained conduit buffered sent) : Holds conduit buffered sent :=
  ⟨sent, hdrained.1, by rw [hdrained.2, Array.toList_empty, List.append_nil]⟩

/-- What the output makes of an action, the buffer in front of it makes of it as
well. -/
theorem onOutput_settles {action : EStateM OutputFault State Unit} {good : State → Prop}
    (buffered : Buffered buffering size State)
    (haction : Settles conduit.device capacity good sent (action buffered.output)) :
    Settles (deviceOf conduit) capacity
      (fun next => good next.output ∧ next.pending = buffered.pending)
      sent (onOutput action buffered) := by
  rw [onOutput]
  cases hresult : action buffered.output with
  | ok value next =>
      rw [hresult] at haction
      cases haction with
      | ok hgood => exact .ok ⟨hgood, rfl⟩
  | error fault last =>
      rw [hresult] at haction
      cases haction with
      | refused hexceeds hfull htaken => exact .refused hexceeds hfull htaken

theorem passOn_settles {buffered : Buffered buffering size State}
    (hholds : Holds conduit buffered sent) :
    Settles (deviceOf conduit) capacity (IsDrained conduit · sent) sent (passOn buffered) := by
  obtain ⟨passed, hpassed, rfl⟩ := hholds
  exact onOutput_settles { buffered with pending := #[] }
    (conduit.write buffered.pending.toList hpassed)

/-- Writing past an empty buffer. -/
theorem writeThrough_settles {buffered : Buffered buffering size State} (bytes : Bytes)
    (hdrained : IsDrained conduit buffered sent) :
    Settles (deviceOf conduit) capacity (IsDrained conduit · (sent ++ bytes)) (sent ++ bytes)
      (onOutput (Output.write bytes) buffered) :=
  (onOutput_settles buffered (conduit.write bytes hdrained.1)).imp
    (fun _ hnext => ⟨hnext.1, hnext.2.trans hdrained.2⟩)

/-- Bytes go past the buffer only if it is empty, so the order is kept. -/
theorem store_settles {buffered : Buffered buffering size State} {bytes : Bytes}
    (hholds : Holds conduit buffered sent)
    (hempty : size ≤ bytes.length → buffered.pending = #[]) :
    Settles (deviceOf conduit) capacity (Holds conduit · (sent ++ bytes)) (sent ++ bytes)
      ((if size ≤ bytes.length then
          onOutput (Output.write bytes)
        else
          modify (fun buffered => { buffered with pending := buffered.pending ++ bytes }))
        buffered) := by
  obtain ⟨passed, hpassed, rfl⟩ := hholds
  split
  · next hlong =>
      rw [hempty hlong, Array.toList_empty, List.append_nil]
      exact (writeThrough_settles bytes ⟨hpassed, hempty hlong⟩).imp (fun _ => IsDrained.holds)
  · exact .ok ⟨passed, hpassed, by simp⟩

/-- Bytes are stored alike whether the buffer is passed on before them or not. -/
theorem hold_settles (hsize : 0 < size) {buffered : Buffered buffering size State} (bytes : Bytes)
    (hholds : Holds conduit buffered sent) :
    Settles (deviceOf conduit) capacity (Holds conduit · (sent ++ bytes)) (sent ++ bytes)
      (hold bytes buffered) := by
  let store : EStateM OutputFault (Buffered buffering size State) Unit :=
    if size ≤ bytes.length then
      onOutput (Output.write bytes)
    else
      modify (fun buffered => { buffered with pending := buffered.pending ++ bytes })
  change Settles _ _ _ _ ((if size - buffered.pending.size < bytes.length then
    passOn >>= fun _ => store else store) buffered)
  split
  · exact (passOn_settles hholds).bind (List.prefix_append _ _)
      (fun middle hmiddle => store_settles hmiddle.holds (fun _ => hmiddle.2))
  · next hroom =>
      refine store_settles hholds (fun hlong => Array.eq_empty_of_size_eq_zero ?_)
      omega

/-- Whole lines go out behind what the buffer holds back. -/
theorem write_settles (hsize : 0 < size) {buffered : Buffered buffering size State} (bytes : Bytes)
    (hholds : Holds conduit buffered sent) :
    Settles (deviceOf conduit) capacity (Holds conduit · (sent ++ bytes)) (sent ++ bytes)
      (Buffered.write bytes buffered) := by
  have hsplit := buffering.split_append bytes
  generalize hparts : buffering.split bytes = parts at hsplit
  obtain ⟨lines, rest⟩ := parts
  simp only at hsplit
  subst hsplit
  simp only [Buffered.write, hparts]
  split
  · rw [← List.append_assoc]
    have hprefix : sent <+: sent ++ lines ++ rest := by
      rw [List.append_assoc]
      exact List.prefix_append _ _
    exact (passOn_settles hholds).bind hprefix (fun middle hmiddle =>
      (writeThrough_settles lines hmiddle).bind (List.prefix_append _ _) (fun last hlast =>
        hold_settles hsize rest hlast.holds))
  · next hnone =>
      have hlines : lines = [] := by simpa using hnone
      subst hlines
      exact hold_settles hsize rest hholds

theorem flush_settles {buffered : Buffered buffering size State}
    (hholds : Holds conduit buffered sent) :
    Settles (deviceOf conduit) capacity
      (fun next => IsDrained conduit next sent ∧ (deviceOf conduit next).bytes = sent ∧
        ¬ Device.Exceeds capacity sent)
      sent (Buffered.flush buffered) :=
  (passOn_settles hholds).bind List.prefix_rfl (fun middle hmiddle =>
    (onOutput_settles middle (conduit.flush hmiddle.1)).imp
      (fun _ hnext => ⟨⟨hnext.1.1, hnext.2.trans hmiddle.2⟩, hnext.1.2⟩))

end Carried

/-! ## Full devices -/

theorem spares_onOutput {action : EStateM OutputFault State Unit}
    (haction : Spares conduit.device action) :
    Spares (deviceOf conduit)
      (onOutput action : EStateM OutputFault (Buffered buffering size State) Unit) := by
  intro buffered hfull
  have hsame := haction buffered.output hfull
  rw [onOutput]
  cases hresult : action buffered.output with
  | ok value next =>
      rw [hresult] at hsame
      exact hsame
  | error fault last =>
      rw [hresult] at hsame
      exact hsame

theorem spares_passOn :
    Spares (deviceOf conduit)
      (passOn : EStateM OutputFault (Buffered buffering size State) Unit) := by
  intro buffered hfull
  exact spares_onOutput conduit (conduit.write_spares buffered.pending.toList)
    { buffered with pending := #[] } hfull

theorem spares_hold (bytes : Bytes) :
    Spares (deviceOf conduit)
      (hold bytes : EStateM OutputFault (Buffered buffering size State) Unit) := by
  let store : EStateM OutputFault (Buffered buffering size State) Unit :=
    if size ≤ bytes.length then
      onOutput (Output.write bytes)
    else
      modify (fun buffered => { buffered with pending := buffered.pending ++ bytes })
  have hstore : Spares (deviceOf conduit) store := by
    simp only [store]
    split
    · exact spares_onOutput conduit (conduit.write_spares bytes)
    · exact fun _ _ => rfl
  intro buffered hfull
  change deviceOf conduit (Outcome.final ((if size - buffered.pending.size < bytes.length then
    passOn >>= fun _ => store else store) buffered)) = _
  split
  · exact spares_bind (spares_passOn conduit) hstore buffered hfull
  · exact hstore buffered hfull

theorem spares_write (bytes : Bytes) :
    Spares (deviceOf conduit)
      (Buffered.write bytes : EStateM OutputFault (Buffered buffering size State) Unit) := by
  intro buffered hfull
  generalize hparts : buffering.split bytes = parts
  obtain ⟨lines, rest⟩ := parts
  simp only [Buffered.write, hparts]
  split
  · exact spares_bind (spares_passOn conduit) (spares_bind
      (spares_onOutput conduit (conduit.write_spares lines)) (spares_hold conduit rest))
      buffered hfull
  · exact spares_hold conduit rest buffered hfull

theorem spares_flush :
    Spares (deviceOf conduit)
      (Buffered.flush : EStateM OutputFault (Buffered buffering size State) Unit) :=
  spares_bind (spares_passOn conduit) (spares_onOutput conduit conduit.flush_spares)

end Buffered

def Conduit.behindBuffer {State : Type} [Output State] {capacity : Option Nat}
    (conduit : Conduit State capacity) (buffering : Buffering) {size : Nat} (hsize : 0 < size) :
    Conduit (Buffered buffering size State) capacity where
  device := Buffered.deviceOf conduit
  Carries := Buffered.Holds conduit
  write := Buffered.write_settles hsize
  flush := fun hholds => (Buffered.flush_settles hholds).imp
    (fun _ hnext => ⟨hnext.1.holds, hnext.2⟩)
  write_spares := Buffered.spares_write conduit
  flush_spares := Buffered.spares_flush conduit

namespace Buffered

variable {buffering : Buffering} {size : Nat} {State : Type} [Output State]
variable {capacity : Option Nat} {conduit : Conduit State capacity}
variable {buffered : Buffered buffering size State}

theorem close_eq_output_final : buffered.close = (Outcome.final (flush buffered)).output := by
  rw [close]
  cases flush buffered <;> rfl

/-- Closing a buffer passes on what it holds back. -/
theorem carries_close {sent : Bytes} (hholds : Holds conduit buffered sent)
    (hfits : ¬ Device.Exceeds capacity sent) : conduit.Carries buffered.close sent := by
  have hflushed := flush_settles hholds
  rw [close_eq_output_final]
  generalize flush buffered = result at hflushed
  cases hflushed with
  | ok hdrained => exact hdrained.1.1
  | refused hexceeds => exact absurd hexceeds hfits

/-- Closing a buffer in front of a full device changes nothing there. -/
theorem device_close (hfull : (deviceOf conduit buffered).IsFull) :
    conduit.device buffered.close = deviceOf conduit buffered := by
  rw [close_eq_output_final]
  exact spares_flush conduit buffered hfull

theorem holds_ofOutput {output : State} {sent : Bytes} (hcarries : conduit.Carries output sent) :
    Holds conduit (ofOutput output : Buffered buffering size State) sent :=
  IsDrained.holds ⟨hcarries, rfl⟩

end Buffered

/-- No byte is on its way any more that the device will not take or refuse: the
bytes fit, or the device is full with them. -/
inductive Conduit.Rests {State : Type} [Output State] {capacity : Option Nat}
    (conduit : Conduit State capacity) (state : State) (bytes : Bytes) : Prop
  | carried (hcarries : conduit.Carries state bytes) (hfits : ¬ Device.Exceeds capacity bytes)
  | full (hfull : (conduit.device state).IsFull) (hbytes : (conduit.device state).bytes = bytes)

section Rests

variable {State : Type} [Output State] {capacity : Option Nat} {bytes : Bytes}

theorem Conduit.Rests.close {conduit : Conduit State capacity} {buffering : Buffering} {size : Nat}
    {hsize : 0 < size} {buffered : Buffered buffering size State}
    (hrests : (conduit.behindBuffer buffering hsize).Rests buffered bytes) :
    conduit.Rests buffered.close bytes := by
  cases hrests with
  | carried hholds hfits => exact .carried (Buffered.carries_close hholds hfits) hfits
  | full hfull hbytes =>
      have hsame := Buffered.device_close hfull
      refine .full ?_ ?_
      · rw [hsame]
        exact hfull
      · rw [hsame]
        exact hbytes

theorem Conduit.Rests.bytes_eq {device : Device}
    (hrests : (Device.conduit capacity).Rests device bytes) : device.bytes = bytes := by
  cases hrests with
  | carried hholds => exact hholds.2.1
  | full _ hbytes => exact hbytes

end Rests

end JvmCalls

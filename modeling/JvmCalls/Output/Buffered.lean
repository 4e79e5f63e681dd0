import JvmCalls.Output.Device

/-!
# Buffers

An output can be put behind a buffer, which holds bytes back for as long as it
has room for them, so that a refusal may show later than the write that caused
it.  A buffer by lines passes on whole lines at once and holds back only what
follows them.
-/

namespace JvmCalls

/-- What a buffer passes on although it has room. -/
inductive Buffering
  | byBlock
  | byLine
  deriving DecidableEq, Repr

def Buffering.lineBreak : UInt8 := 0x0A

/-- The bytes that are passed on at once, and those that are held back. -/
def Buffering.split (buffering : Buffering) (bytes : Bytes) : Bytes × Bytes :=
  match buffering with
  | .byBlock => ([], bytes)
  | .byLine =>
      let partialLine := (bytes.reverse.takeWhile (· != lineBreak)).reverse
      (bytes.take (bytes.length - partialLine.length), partialLine)

/-- An output behind a buffer of `size` bytes. -/
structure Buffered (buffering : Buffering) (size : Nat) (State : Type) where
  output : State
  pending : Array UInt8
  deriving DecidableEq, Repr

namespace Buffered

variable {buffering : Buffering} {size : Nat} {State : Type}

def ofOutput (output : State) : Buffered buffering size State := { output, pending := #[] }

variable [Output State]

def onOutput (action : EStateM OutputFault State Unit) :
    EStateM OutputFault (Buffered buffering size State) Unit := fun buffered =>
  match action buffered.output with
  | .ok () output => .ok () { buffered with output }
  | .error fault output => .error fault { buffered with output }

/-- Passes the buffer on.  It is empty after a refusal as well, since the output
will take nothing more. -/
def passOn : EStateM OutputFault (Buffered buffering size State) Unit := do
  let pending := (← get).pending
  modify (fun buffered => { buffered with pending := #[] })
  onOutput (Output.write pending.toList)

/-- Passes everything on, also what the output holds back. -/
def flush : EStateM OutputFault (Buffered buffering size State) Unit := do
  passOn
  onOutput Output.flush

/-- Holds bytes back.  The buffer is passed on if it has no room for them, and
bytes that would fill a whole buffer go past it. -/
def hold (bytes : Bytes) : EStateM OutputFault (Buffered buffering size State) Unit := do
  if size - (← get).pending.size < bytes.length then
    passOn
  if size ≤ bytes.length then
    onOutput (Output.write bytes)
  else
    modify (fun buffered => { buffered with pending := buffered.pending ++ bytes })

/-- Writes bytes.  What is passed on at once goes out behind the buffer. -/
def write (bytes : Bytes) : EStateM OutputFault (Buffered buffering size State) Unit := do
  let (lines, rest) := buffering.split bytes
  if !lines.isEmpty then
    passOn
    onOutput (Output.write lines)
  hold rest

instance : Output (Buffered buffering size State) where
  write := write
  flush := flush

/-- The output after everything that can be passed on has been. -/
def close (buffered : Buffered buffering size State) : State :=
  match flush buffered with
  | .ok () final => final.output
  | .error _ final => final.output

end Buffered

end JvmCalls

import JvmCalls.Command.Run
import JvmCalls.Proofs.Output.Buffered
import JvmCalls.Proofs.Output.Record
import JvmCalls.Proofs.Walk.Truncated

/-!
# The contract of a run

A run goes through its archives in order and writes what each of them alone would
write.  The fault of one archive does not keep the next one from being opened, but
a fault of the output does, no matter at which write or flush it shows.  So the
bytes that an output takes tell how far a run has come, with or without buffers
in front of it.

All of this is about runs without an archive at which the run is given up: one with
an entry for which more memory is asked than there can be.
-/

namespace JvmCalls.Command

/-! ## One archive alone -/

section Alone

variable (options : Options) (contentOf : String → PathContent) (path : String)

/-- Processing the archive at a path with a device that takes everything. -/
def alone : EStateM.Result ExtractFault Device WalkStats :=
  extractPath options path (contentOf path) Device.unlimited

/-- The bytes that an archive alone writes, also if it fails. -/
def outputOf : Bytes := (Outcome.final (alone options contentOf path)).bytes

/-- Whether an archive is opened and walked without a fault. -/
def succeeds : Bool := (Outcome.verdict (alone options contentOf path)).isOk

def isGivenUp : Bool :=
  match Outcome.verdict (alone options contentOf path) with
  | .error (.read fault) => fault.endsRun
  | _ => false

def totalOutput (paths : List String) : Bytes := paths.flatMap (outputOf options contentOf)

end Alone

/-! ## The archives that are opened -/

section Opened

variable {State : Type} [Output State] (options : Options) (contentOf : String → PathContent)

/-- The output with which a run goes on behind an archive, unless it ends there. -/
def behind? (path : String) (state : State) : Option State :=
  let flushed (state : State) :=
    match Output.flush state with
    | .ok () next => some next
    | .error _ _ => none
  match extractPath options path (contentOf path) state with
  | .ok _ next => flushed next
  | .error fault next =>
      match judge path fault with
      | .ok _ => flushed next
      | .error _ => none

/-- The archives that a run opens, in the order in which it does. -/
def opened : (paths : List String) → State → List String
  | [], _ => []
  | path :: paths, state =>
      path :: match behind? options contentOf path state with
        | some next => opened paths next
        | none => []

/-- A run depends on the archives it opens alone. -/
theorem extractFrom_eq_of_opened {options : Options} {contentOf contentOf' : String → PathContent}
    (paths : List String) (success : Bool) (reports : List Report) (state : State)
    (hsame : ∀ path ∈ opened options contentOf paths state, contentOf' path = contentOf path) :
    extractFrom options contentOf' paths success reports state =
      extractFrom options contentOf paths success reports state := by
  induction paths generalizing success reports state with
  | nil => rfl
  | cons path paths ih =>
      rw [opened, List.forall_mem_cons, behind?] at hsame
      obtain ⟨hfirst, hrest⟩ := hsame
      rw [extractFrom, extractFrom, hfirst]
      cases hpath : extractPath options path (contentOf path) state with
      | ok stats next =>
          simp only [hpath] at hrest ⊢
          cases hflush : (Output.flush next : EStateM.Result OutputFault State Unit) with
          | error fault last => rfl
          | ok value next =>
              simp only [hflush] at hrest
              exact ih success reports next hrest
      | error fault next =>
          simp only [hpath] at hrest ⊢
          cases hjudge : judge path fault with
          | error stop => rfl
          | ok report =>
              simp only [hjudge] at hrest ⊢
              cases hflush : (Output.flush next : EStateM.Result OutputFault State Unit) with
              | error fault last => rfl
              | ok value next =>
                  simp only [hflush] at hrest
                  exact ih false (report :: reports) next hrest

end Opened

/-- What is promised of a run over `paths` with an output that takes `capacity`
bytes: how it ends, which archives it opens and which bytes get out.  If the bytes
of all archives fit, all of them are processed, and the run is successful if each
archive is.  Otherwise the output fails, the bytes that fit are out, and the last
archive opened is the one with which the bytes become too many. -/
inductive Contract (options : Options) (contentOf : String → PathContent)
    (capacity : Option Nat) (paths : List String) : Ending → List String → Bytes → Prop
  | complete (hfits : ¬ Device.Exceeds capacity (totalOutput options contentOf paths)) :
      Contract options contentOf capacity paths (.complete (paths.all (succeeds options contentOf)))
        paths (totalOutput options contentOf paths)
  | cutOff {before after : List String} {path : String} (hpaths : paths = before ++ path :: after)
      (hbefore : ¬ Device.Exceeds capacity (totalOutput options contentOf before))
      (hupto : Device.Exceeds capacity (totalOutput options contentOf (before ++ [path]))) :
      Contract options contentOf capacity paths .outputFailed (before ++ [path])
        (Device.fitting capacity (totalOutput options contentOf paths))

/-! ## What an archive writes -/

def Options.encode (options : Options) (edge : CallEdge) : Bytes :=
  if options.json then edge.recordBytes options.style else edge.lineBytes options.style

theorem writes_sink {State : Type} [Output State] {capacity : Option Nat}
    (conduit : Conduit State capacity) (options : Options) :
    options.sink.Writes conduit options.encode := by
  cases hjson : options.json with
  | true =>
      have hencode : options.encode = CallEdge.recordBytes options.style := by
        funext edge
        rw [Options.encode, hjson, if_pos rfl]
      rw [Options.sink, hjson, if_pos rfl, hencode]
      exact CallEdge.puts_recordSink options.style
  | false =>
      have hencode : options.encode = CallEdge.lineBytes options.style := by
        funext edge
        rw [Options.encode, hjson, if_neg Bool.false_ne_true]
      rw [Options.sink, hjson, if_neg Bool.false_ne_true, hencode]
      exact CallEdge.puts_lineSink options.style

/-- The calls that an archive makes and how processing it ends, both for an output
that refuses nothing. -/
def courseAt (options : Options) (path : String) (content : PathContent) :
    List SinkCall × Except (WalkFault Empty) WalkStats :=
  match Archive.ofPath path content with
  | .error fault => ([], .error (.read fault))
  | .ok archive =>
      (options.walker.allCalls (options.readsOf archive),
        options.walker.ending (options.readsOf archive))

theorem extractPath_eq_conclude {State : Type} [Output State] (options : Options) (path : String)
    (content : PathContent) (state : State) :
    extractPath options path content state =
      Walker.conclude (courseAt options path content).2
        (options.sink.feed (courseAt options path content).1 state) := by
  rw [extractPath, courseAt]
  cases Archive.ofPath path content with
  | error fault => rfl
  | ok archive => exact Walker.walk_eq_conclude _ _ _ _ _

section Step

variable {options : Options} {contentOf : String → PathContent} {path : String}

theorem delivers_alone (options : Options) (contentOf : String → PathContent) (path : String) :
    Delivers (alone options contentOf path) (courseAt options path (contentOf path)).2
      (SinkCall.bytesOf options.encode (courseAt options path (contentOf path)).1) := by
  rw [alone, extractPath_eq_conclude]
  exact delivers_conclude (writes_sink (Device.conduit none) options) id _

theorem outputOf_eq (options : Options) (contentOf : String → PathContent) (path : String) :
    outputOf options contentOf path =
      SinkCall.bytesOf options.encode (courseAt options path (contentOf path)).1 :=
  (delivers_alone options contentOf path).bytes_eq

theorem verdict_alone (options : Options) (contentOf : String → PathContent) (path : String) :
    Outcome.verdict (alone options contentOf path) =
      (courseAt options path (contentOf path)).2.mapError WalkFault.lift :=
  (delivers_alone options contentOf path).verdict

/-- The fault of an archive is reported unless it ends the run. -/
theorem exists_judge_eq_ok {fault : WalkFault Empty}
    (hfault : (courseAt options path (contentOf path)).2 = .error fault)
    (hkept : isGivenUp options contentOf path = false) :
    ∃ report, judge path fault.lift = .ok report := by
  rw [isGivenUp, verdict_alone, hfault] at hkept
  match fault with
  | .undecodable entry cause => exact ⟨_, rfl⟩
  | .read cause =>
      cases cause with
      | excessiveSize => cases hkept
      | _ => exact ⟨_, rfl⟩

/-- Hands on the calls of an archive and flushes the output. -/
def emit {State : Type} [Output State] (options : Options) (path : String)
    (content : PathContent) : EStateM OutputFault State Unit :=
  options.sink.feed (courseAt options path content).1 >>= fun _ => Output.flush

variable {State : Type} [Output State]

/-- A run goes on behind an archive exactly if the output takes its bytes. -/
theorem behind?_eq (state : State) (hkept : isGivenUp options contentOf path = false) :
    behind? options contentOf path state =
      match emit options path (contentOf path) state with
      | .ok () next => some next
      | .error _ _ => none := by
  rw [behind?, extractPath_eq_conclude, emit]
  cases hfed : options.sink.feed (courseAt options path (contentOf path)).1 state with
  | error fault last =>
      rw [Outcome.run_bind_of_error hfed]
      rfl
  | ok value next =>
      rw [Outcome.run_bind_of_ok hfed]
      cases hending : (courseAt options path (contentOf path)).2 with
      | ok stats => rfl
      | error fault =>
          obtain ⟨report, hreport⟩ := exists_judge_eq_ok hending hkept
          simp only [Walker.conclude, hreport]

theorem succeeds_eq (options : Options) (contentOf : String → PathContent) (path : String) :
    succeeds options contentOf path = (courseAt options path (contentOf path)).2.isOk := by
  rw [succeeds, verdict_alone]
  cases (courseAt options path (contentOf path)).2 <;> rfl

/-- A run over archives is the first one, and behind it the run over the others if
the output takes its bytes.  The output may fail at a write or at the flush, and only
the report tells which. -/
theorem extractFrom_cons (paths : List String) (success : Bool) (reports : List Report)
    (state : State) (hkept : isGivenUp options contentOf path = false) :
    ∃ onward last : List Report,
      extractFrom options contentOf (path :: paths) success reports state =
        match emit options path (contentOf path) state with
        | .ok () next =>
            extractFrom options contentOf paths (success && succeeds options contentOf path)
              onward next
        | .error _ next => (.outputFailed, last, next) := by
  rw [extractFrom, extractPath_eq_conclude, emit, succeeds_eq]
  cases hfed : options.sink.feed (courseAt options path (contentOf path)).1 state with
  | error fault last =>
      rw [Outcome.run_bind_of_error hfed]
      exact ⟨[], _, rfl⟩
  | ok value next =>
      rw [Outcome.run_bind_of_ok hfed]
      cases hending : (courseAt options path (contentOf path)).2 with
      | ok stats =>
          simp only [Walker.conclude, Except.isOk, Except.toBool, Bool.and_true]
          cases (Output.flush next : EStateM.Result OutputFault State Unit) with
          | ok value next => exact ⟨reports, [], rfl⟩
          | error fault last => exact ⟨[], _, rfl⟩
      | error fault =>
          obtain ⟨report, hreport⟩ := exists_judge_eq_ok hending hkept
          simp only [Walker.conclude, hreport, Except.isOk, Except.toBool, Bool.and_false]
          cases (Output.flush next : EStateM.Result OutputFault State Unit) with
          | ok value next => exact ⟨report :: reports, [], rfl⟩
          | error fault last => exact ⟨[], _, rfl⟩

/-- The output takes the bytes of an archive, or it refuses them because with them
there are too many. -/
theorem emit_settles {capacity : Option Nat} {conduit : Conduit State capacity} {sent : Bytes}
    {state : State} (hcarries : conduit.Carries state sent) :
    Settles conduit.device capacity
      (fun next => conduit.Carries next (sent ++ outputOf options contentOf path) ∧
        (conduit.device next).bytes = sent ++ outputOf options contentOf path ∧
        ¬ Device.Exceeds capacity (sent ++ outputOf options contentOf path))
      (sent ++ outputOf options contentOf path) (emit options path (contentOf path) state) := by
  rw [outputOf_eq]
  exact ((writes_sink conduit options).feed _ hcarries).bind List.prefix_rfl
    (fun _ hnext => conduit.flush hnext)

end Step

/-! ## The whole run -/

section Run

variable {State : Type} [Output State] {capacity : Option Nat}

/-- The contract of a run that goes on behind other bytes, with an output at the end
of the run. -/
inductive Ran (conduit : Conduit State capacity) (options : Options)
    (contentOf : String → PathContent) (sent : Bytes) (success : Bool) (paths : List String) :
    Ending → List String → State → Prop
  | complete {state : State}
      (hcarries : conduit.Carries state (sent ++ totalOutput options contentOf paths))
      (hbytes : (conduit.device state).bytes = sent ++ totalOutput options contentOf paths)
      (hfits : ¬ Device.Exceeds capacity (sent ++ totalOutput options contentOf paths)) :
      Ran conduit options contentOf sent success paths
        (.complete (success && paths.all (succeeds options contentOf))) paths state
  | cutOff {state : State} {before after : List String} {path : String}
      (hpaths : paths = before ++ path :: after)
      (hfull : (conduit.device state).IsFull)
      (htaken : (conduit.device state).bytes =
        Device.fitting capacity (sent ++ totalOutput options contentOf paths))
      (hbefore : ¬ Device.Exceeds capacity (sent ++ totalOutput options contentOf before))
      (hupto : Device.Exceeds capacity
        (sent ++ totalOutput options contentOf (before ++ [path]))) :
      Ran conduit options contentOf sent success paths .outputFailed (before ++ [path]) state

variable {conduit : Conduit State capacity} {options : Options}
variable {contentOf : String → PathContent} {sent : Bytes} {success : Bool}
variable {path : String} {paths opens : List String} {ending : Ending} {state : State}

theorem append_totalOutput_cons (options : Options) (contentOf : String → PathContent)
    (sent : Bytes) (path : String) (paths : List String) :
    sent ++ totalOutput options contentOf (path :: paths) =
      sent ++ outputOf options contentOf path ++ totalOutput options contentOf paths := by
  rw [totalOutput, List.flatMap_cons, List.append_assoc]
  rfl

/-- An archive whose bytes are out may stand in front. -/
theorem Ran.cons
    (hran : Ran conduit options contentOf (sent ++ outputOf options contentOf path)
      (success && succeeds options contentOf path) paths ending opens state) :
    Ran conduit options contentOf sent success (path :: paths) ending (path :: opens) state := by
  cases hran with
  | complete hcarries hbytes hfits =>
      rw [Bool.and_assoc, ← List.all_cons]
      rw [← append_totalOutput_cons] at hcarries hbytes hfits
      exact .complete hcarries hbytes hfits
  | @cutOff _ before after last hpaths hfull htaken hbefore hupto =>
      rw [← append_totalOutput_cons] at htaken hbefore hupto
      subst hpaths
      rw [← List.cons_append]
      exact .cutOff (List.cons_append ..).symm hfull htaken hbefore hupto

/-- What a run keeps to, by induction on its archives: the output carries the bytes
of the archives so far and holds none of them back. -/
theorem extractFrom_ran (reports : List Report)
    (hkept : ∀ path ∈ paths, isGivenUp options contentOf path = false)
    (hcarries : conduit.Carries state sent) (hbytes : (conduit.device state).bytes = sent)
    (hfits : ¬ Device.Exceeds capacity sent) :
    Ran conduit options contentOf sent success paths
      (extractFrom options contentOf paths success reports state).1
      (opened options contentOf paths state)
      (extractFrom options contentOf paths success reports state).2.2 := by
  induction paths generalizing sent success reports state with
  | nil =>
      have hnone : sent ++ totalOutput options contentOf [] = sent := List.append_nil sent
      rw [← hnone] at hcarries hbytes hfits
      have hran : Ran conduit options contentOf sent success [] _ _ state :=
        .complete hcarries hbytes hfits
      rw [List.all_nil, Bool.and_true] at hran
      exact hran
  | cons path paths ih =>
      rw [List.forall_mem_cons] at hkept
      obtain ⟨onward, last, hrun⟩ :=
        extractFrom_cons paths success reports state hkept.1
      have hsettles : Settles _ _ _ (sent ++ outputOf options contentOf path)
          (emit options path (contentOf path) state) := emit_settles hcarries
      rw [opened, behind?_eq state hkept.1, hrun]
      generalize emit options path (contentOf path) state = result at hsettles
      cases hsettles with
      | ok hnext =>
          exact Ran.cons (ih onward hkept.2 hnext.1 hnext.2.1 hnext.2.2)
      | refused hexceeds hfull htaken =>
          have hnone : sent ++ totalOutput options contentOf [] = sent := List.append_nil sent
          have hfirst : sent ++ totalOutput options contentOf ([] ++ [path]) =
              sent ++ outputOf options contentOf path := by
            rw [List.nil_append, append_totalOutput_cons]
            exact List.append_nil _
          refine .cutOff rfl hfull ?_ (hnone ▸ hfits) (hfirst ▸ hexceeds)
          calc
            _ = Device.fitting capacity (sent ++ outputOf options contentOf path) := htaken
            _ = Device.fitting capacity (sent ++ outputOf options contentOf path ++
                totalOutput options contentOf paths) := (hexceeds.fitting_append _).symm
            _ = Device.fitting capacity
                (sent ++ totalOutput options contentOf (path :: paths)) := by
              rw [append_totalOutput_cons]

theorem Ran.contract (hran : Ran conduit options contentOf [] true paths ending opens state) :
    Contract options contentOf capacity paths ending opens (conduit.device state).bytes := by
  cases hran with
  | complete hcarries hbytes hfits =>
      rw [hbytes]
      exact .complete hfits
  | cutOff hpaths hfull htaken hbefore hupto =>
      rw [htaken]
      exact .cutOff hpaths hbefore hupto

theorem Ran.rests (hran : Ran conduit options contentOf sent success paths ending opens state) :
    conduit.Rests state (conduit.device state).bytes := by
  cases hran with
  | complete hcarries hbytes hfits =>
      rw [hbytes]
      exact .carried hcarries hfits
  | cutOff hpaths hfull => exact .full hfull rfl

theorem extract_ran (hkept : ∀ path ∈ options.archives, isGivenUp options contentOf path = false)
    (hcarries : conduit.Carries state []) (hbytes : (conduit.device state).bytes = []) :
    Ran conduit options contentOf [] true options.archives
      (extract options contentOf state).1 (opened options contentOf options.archives state)
      (extract options contentOf state).2.2 :=
  extractFrom_ran [] hkept hcarries hbytes Device.not_exceeds_nil

end Run

/-- The status of a run that keeps the contract. -/
theorem Contract.status_eq {options : Options} {contentOf : String → PathContent}
    {capacity : Option Nat} {paths opens : List String} {ending : Ending} {written : Bytes}
    (hcontract : Contract options contentOf capacity paths ending opens written) :
    ending.status = if ending = .complete true then 0 else 1 := by
  cases hcontract with
  | complete hfits =>
      cases paths.all (succeeds options contentOf) <;> rfl
  | cutOff => rfl

def buffered (capacity : Option Nat) : Conduit (Buffered .byBlock 8192 Device) capacity :=
  (Device.conduit capacity).behindBuffer .byBlock (by decide)

def standard (capacity : Option Nat) : Conduit BufferedDevice capacity :=
  ((Device.conduit capacity).behindBuffer .byLine (by decide)).behindBuffer .byBlock (by decide)

/-- The contract of a run.  Let no archive be one at which the run is given up.
Then the contract holds for every list of archives, all options and every capacity,
with the output at the device itself, behind one buffer, and for a whole command
line with its two buffers, where the exit status is 0 exactly if all archives were
processed successfully. -/
theorem extract_contract (options : Options) (contentOf : String → PathContent)
    (capacity : Option Nat)
    (hkept : ∀ path ∈ options.archives, isGivenUp options contentOf path = false) :
    (let device : Device := .ofCapacity capacity
      let result := extract options contentOf device
      Contract options contentOf capacity options.archives result.1
        (opened options contentOf options.archives device) result.2.2.bytes) ∧
    (let buffer : Buffered .byBlock 8192 Device := .ofOutput (.ofCapacity capacity)
      let result := extract options contentOf buffer
      Contract options contentOf capacity options.archives result.1
        (opened options contentOf options.archives buffer) result.2.2.output.bytes) ∧
    ∀ arguments, readArguments arguments = .ok (.extract options) →
      let buffers : BufferedDevice := .ofOutput (.ofOutput (.ofCapacity capacity))
      let outcome := run arguments contentOf (.ofCapacity capacity)
      ∃ ending, Contract options contentOf capacity options.archives ending
          (opened options contentOf options.archives buffers) outcome.output.bytes ∧
        outcome.status = if ending = .complete true then 0 else 1 := by
  refine ⟨?_, ?_, ?_⟩
  · have hran : Ran (Device.conduit capacity) _ _ _ _ _ _ _ _ :=
      extract_ran hkept (Device.holds_ofCapacity capacity) rfl
    exact hran.contract
  · have hran : Ran (buffered capacity) _ _ _ _ _ _ _ _ :=
      extract_ran hkept (Buffered.holds_ofOutput (Device.holds_ofCapacity capacity)) rfl
    exact hran.contract
  · intro arguments harguments buffers outcome
    have hran : Ran (standard capacity) _ _ _ _ _ _ _ _ :=
      extract_ran hkept (Buffered.holds_ofOutput
        (Buffered.holds_ofOutput (Device.holds_ofCapacity capacity))) rfl
    have hclosed := hran.rests.close.close.bytes_eq
    have hcontract := hran.contract
    rw [← hclosed] at hcontract
    have hrun : outcome = {
        status := (extract options contentOf buffers).1.status
        output := (extract options contentOf buffers).2.2.close.close
        reports := (extract options contentOf buffers).2.1 } := by
      simp only [outcome, run, harguments]
      rfl
    rw [hrun]
    exact ⟨_, hcontract, hcontract.status_eq⟩

/-- The bytes of an archive whose only entry is the class `ClassFile.callingClass`. -/
def callingJar : Bytes :=
  Archive.callingEntry ++ Archive.callingRecord ++ Archive.endRecord 1 53 0x91

/-- The bytes of an archive whose only entry is `B.class`, without content and with
a recorded size of 2^63 bytes. -/
def boundlessJar : Bytes :=
  Archive.emptyEntry ++ Archive.boundlessRecord 0 ++ Archive.endRecord 1 65 37

def twoJars (path : String) : PathContent :=
  if path = "calling.jar" then .file callingJar
  else if path = "boundless.jar" then .file boundlessJar
  else .missing

set_option maxRecDepth 4000 in
theorem extract_contract_callingJar :
    let options : Options := { Options.none with archives := ["missing.jar", "calling.jar"] }
    let buffers : BufferedDevice := .ofOutput (.ofOutput (.ofCapacity (some 20)))
    let outcome := run ["missing.jar", "calling.jar"] twoJars (.ofCapacity (some 20))
    (∀ path ∈ options.archives, isGivenUp options twoJars path = false) ∧
    totalOutput options twoJars options.archives =
      Utf8.encode "A f A f ()void\nA f A f ()void\n" ∧
    ∃ ending, Contract options twoJars (some 20) options.archives ending
        (opened options twoJars options.archives buffers) outcome.output.bytes ∧
      outcome.status = if ending = .complete true then 0 else 1 := by
  intro options buffers outcome
  have hkept : ∀ path ∈ options.archives, isGivenUp options twoJars path = false := by
    decide +kernel
  refine ⟨hkept, by decide +kernel, ?_⟩
  exact (extract_contract options twoJars (some 20) hkept).2.2 _ (by decide +kernel)

set_option maxRecDepth 4000 in
/-- The contract does not hold of a run that is given up: the archive behind the one
at which it is would have been processed, and the status is neither 0 nor 1. -/
theorem run_givenUp_boundlessJar :
    let options : Options := { Options.none with archives := ["boundless.jar", "calling.jar"] }
    readArguments ["boundless.jar", "calling.jar"] = .ok (.extract options) ∧
    totalOutput options twoJars options.archives =
      Utf8.encode "A f A f ()void\nA f A f ()void\n" ∧
    opened options twoJars options.archives Device.unlimited = ["boundless.jar"] ∧
    run ["boundless.jar", "calling.jar"] twoJars Device.unlimited =
      { status := 101, output := Device.unlimited, reports := [] } := by
  decide +kernel

end JvmCalls.Command

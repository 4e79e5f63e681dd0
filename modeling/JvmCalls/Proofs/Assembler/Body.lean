import JvmCalls.Proofs.Assembler.Step
import JvmCalls.Proofs.ClassFile.RoundTrip
import Mathlib.Algebra.GroupWithZero.Nat

/-!
# Assembled bodies

A body under assembly records the steps so far: one instruction for each step
that adds one, the exception handlers and the limits.  The constants are still
growing, so that indices mean what they should in every pool that the present
one grows into.  One step keeps the record, hence a whole program does.
-/

namespace JvmCalls.Assembler

namespace BodyStep

/-- Whether the step can be assembled: it adds no bytes of its own, its texts
can be stored, and a method that it calls has a descriptor of the right form. -/
structure Sound (step : BodyStep) : Prop where
  highLevel : step.isHighLevel = true
  texts_fit : ∀ text ∈ step.texts, (Constant.utf8 text).Fits
  descriptor : ∀ descriptor ∈ step.calls?, ∃ type, MethodType.parse descriptor = .ok type

instance (descriptor : String) : Decidable (∃ type, MethodType.parse descriptor = .ok type) :=
  match MethodType.parse descriptor with
  | .ok type => isTrue ⟨type, rfl⟩
  | .error _ => isFalse nofun

instance (step : BodyStep) : Decidable step.Sound :=
  decidable_of_iff
    (step.isHighLevel = true ∧ (∀ text ∈ step.texts, (Constant.utf8 text).Fits) ∧
      ∀ descriptor ∈ step.calls?, ∃ type, MethodType.parse descriptor = .ok type)
    ⟨fun ⟨highLevel, texts, descriptor⟩ => ⟨highLevel, texts, descriptor⟩,
      fun ⟨highLevel, texts, descriptor⟩ => ⟨highLevel, texts, descriptor⟩⟩

theorem handler?_of_emits {step : BodyStep} (hemits : step.emits = true) :
    step.handler? = none := by
  cases step <;> first | rfl | cases hemits

theorem limits?_of_emits {step : BodyStep} (hemits : step.emits = true) :
    step.limits? = none := by
  cases step <;> first | rfl | cases hemits

end BodyStep

namespace Body

/-- The instructions that the steps add, the steps being in their order. -/
def emitted (steps : List BodyStep) : List BodyStep :=
  steps.filter BodyStep.emits

def handlersOf (steps : List BodyStep) : List Handler :=
  steps.filterMap BodyStep.handler?

/-- The limits that were set last, otherwise 16 each. -/
def limitsOf (steps : List BodyStep) : UInt16 × UInt16 :=
  lastOf BodyStep.limits? (16, 16) steps

def codeSizeOf (steps : List BodyStep) : Nat :=
  ((emitted steps).map BodyStep.size).sum

theorem emitted_concat (steps : List BodyStep) (step : BodyStep) :
    emitted (steps ++ [step]) = emitted steps ++ if step.emits then [step] else [] := by
  rw [emitted, List.filter_append, List.filter_singleton, emitted]
  cases step.emits <;> rfl

theorem handlersOf_concat (steps : List BodyStep) (step : BodyStep) :
    handlersOf (steps ++ [step]) = handlersOf steps ++ step.handler?.toList := by
  rw [handlersOf, List.filterMap_append, handlersOf]
  cases hhandler : step.handler? <;> simp [hhandler]

/-- The body is the one that the steps assemble from the pool `start`. -/
structure Records (start : Pool) (steps : List BodyStep) (body : Body) : Prop where
  sound : body.pool.Sound
  kept : start.Extends body.pool
  limits : (body.maxStack, body.maxLocals) = limitsOf steps
  code : ∀ final, body.pool.GrowsInto final → ∃ layouts,
    body.code.toList = InstructionLayout.encodeAll layouts ∧
      List.Forall₂ (BodyStep.LaidOut final.slots) (emitted steps) layouts
  handlers : ∀ final, body.pool.GrowsInto final →
    List.Forall₂ (HandlerLayout.Describes final.slots) body.handlers.toList (handlersOf steps)

section Steps

variable {start : Pool} {steps : List BodyStep} {body : Body} {step : BodyStep}

theorem records_start (hstart : start.Sound) : Records start [] (Body.start start) where
  sound := hstart
  kept := Pool.Extends.refl start
  limits := rfl
  code := fun _ _ => ⟨[], rfl, List.Forall₂.nil⟩
  handlers := fun _ _ => List.Forall₂.nil

/-- A request lets the pool grow and leaves the rest of the body alone. -/
theorem Records.request (hbody : Records start steps body) {constant : Request}
    {means : ConstantPool → UInt16 → Prop} (hconstant : Pool.Secures constant means) :
    Records start steps (body.request constant).2 ∧
      ∀ final, (body.request constant).2.pool.GrowsInto final →
        means final.slots (body.request constant).1 := by
  rcases hrun : constant.run body.pool with ⟨index, later⟩
  have hresult : body.request constant = (index, { body with pool := later }) := by
    rw [Body.request, hrun]
  obtain ⟨hsound, hkept, hmeans⟩ := hconstant hbody.sound hrun
  rw [hresult]
  exact ⟨{
    sound := hsound
    kept := hbody.kept.trans hkept
    limits := hbody.limits
    code := fun final hfinal => hbody.code final (hkept.growsInto hfinal)
    handlers := fun final hfinal => hbody.handlers final (hkept.growsInto hfinal) }, hmeans⟩

/-- A step that adds nothing to the body. -/
theorem Records.silent (hbody : Records start steps body) (hemits : step.emits = false)
    (hhandler : step.handler? = none) (hlimits : step.limits? = none) :
    Records start (steps ++ [step]) body := by
  have hemitted : emitted (steps ++ [step]) = emitted steps := by
    simp [emitted_concat, hemits]
  have hhandlers : handlersOf (steps ++ [step]) = handlersOf steps := by
    simp [handlersOf_concat, hhandler]
  refine ⟨hbody.sound, hbody.kept, ?_, hemitted ▸ hbody.code, hhandlers ▸ hbody.handlers⟩
  rw [limitsOf, lastOf_concat, hlimits]
  exact hbody.limits

/-- A step that adds its instruction. -/
theorem Records.emit (hbody : Records start steps body) {bytes : Bytes}
    (hemits : step.emits = true)
    (hstores : ∀ final, body.pool.GrowsInto final → step.Stores final.slots bytes) :
    Records start (steps ++ [step]) (body.emit bytes) := by
  have hemitted : emitted (steps ++ [step]) = emitted steps ++ [step] := by
    simp [emitted_concat, hemits]
  have hhandlers : handlersOf (steps ++ [step]) = handlersOf steps := by
    simp [handlersOf_concat, BodyStep.handler?_of_emits hemits]
  refine ⟨hbody.sound, hbody.kept, ?_, fun final hfinal => ?_, hhandlers ▸ hbody.handlers⟩
  · rw [limitsOf, lastOf_concat, BodyStep.limits?_of_emits hemits]
    exact hbody.limits
  · obtain ⟨layouts, hcode, hlaidOut⟩ := hbody.code final hfinal
    obtain ⟨layout, hbytes, hlayout⟩ := hstores final hfinal
    rw [hemitted]
    refine ⟨layouts ++ [layout], ?_, ?_⟩
    · simp [Body.emit, hcode, ← hbytes, InstructionLayout.encodeAll]
    · exact List.rel_append hlaidOut (List.Forall₂.cons hlayout List.Forall₂.nil)

/-- A step that adds an instruction with the index of a constant. -/
theorem Records.emitConstant (hbody : Records start steps body) {constant : Request}
    {means : ConstantPool → UInt16 → Prop} (hconstant : Pool.Secures constant means)
    (hemits : step.emits = true) (bytes : UInt16 → Bytes)
    (hstores : ∀ pool index, means pool index → step.Stores pool (bytes index)) :
    Records start (steps ++ [step])
      ((body.request constant).2.emit (bytes (body.request constant).1)) := by
  obtain ⟨hlater, hmeans⟩ := hbody.request hconstant
  exact hlater.emit hemits (fun final hfinal => hstores _ _ (hmeans final hfinal))

theorem emit_emit (body : Body) (first second : Bytes) :
    (body.emit first).emit second = body.emit (first ++ second) := by
  have hcode : body.code ++ first ++ second = body.code ++ (first ++ second) :=
    Array.ext' (by simp)
  simp only [Body.emit, hcode]

/-- A call, with its argument count if it is the call of an interface method. -/
theorem Records.emitInvoke (hbody : Records start steps body) {kind : InvokeKind}
    {owner name descriptor : String} {type : MethodType}
    (htype : MethodType.parse descriptor = .ok type) (howner : (Constant.utf8 owner).Fits)
    (hname : (Constant.utf8 name).Fits) (hdescriptor : (Constant.utf8 descriptor).Fits) :
    Records start (steps ++ [.invoke kind owner name descriptor])
      (body.emitInvoke kind owner name descriptor) := by
  rw [Body.emitInvoke]
  by_cases hinterface : kind = .interface
  · subst hinterface
    simp only [decide_true, if_true, Body.emitRequest, emit_emit]
    exact hbody.emitConstant (Pool.secures_methodRef howner hname hdescriptor true) rfl
      (fun index => InvokeKind.interface.byte :: Constant.encodeIndex index ++
        [argumentCount descriptor, 0])
      (fun pool index hindex => BodyStep.stores_invoke_interface htype hindex)
  · have hclass : decide (kind = .interface) = false := decide_eq_false hinterface
    simp only [hinterface, decide_false, if_false]
    refine hbody.emitConstant (Pool.secures_methodRef howner hname hdescriptor false) rfl
      (fun index => kind.byte :: Constant.encodeIndex index) (fun pool index hindex => ?_)
    rw [← hclass] at hindex
    exact BodyStep.stores_invoke hinterface htype hindex

/-- A handler is stored with the index of the class it catches, if any. -/
theorem Records.pushHandler (hbody : Records start steps body) {first finish target : UInt16}
    {catchType : Option String} {index : UInt16}
    (hindex : ∀ final, body.pool.GrowsInto final → final.slots.NamesOptionalClass index catchType) :
    Records start (steps ++ [.handler first finish target catchType])
      { body with handlers := body.handlers.push ⟨first, finish, target, index⟩ } := by
  have hemitted : emitted (steps ++ [.handler first finish target catchType]) = emitted steps := by
    rw [emitted_concat]
    exact List.append_nil _
  refine ⟨hbody.sound, hbody.kept, ?_, hemitted ▸ hbody.code, fun final hfinal => ?_⟩
  · rw [limitsOf, lastOf_concat]
    exact hbody.limits
  · rw [handlersOf_concat, Array.toList_push]
    refine List.rel_append (hbody.handlers final hfinal) (List.Forall₂.cons ?_ List.Forall₂.nil)
    exact ⟨rfl, rfl, rfl, hindex final hfinal⟩

theorem Records.addHandler (hbody : Records start steps body) (first finish target : UInt16)
    {catchType : Option String} (hfits : ∀ name ∈ catchType, (Constant.utf8 name).Fits) :
    Records start (steps ++ [.handler first finish target catchType])
      (body.addHandler first finish target catchType) := by
  cases catchType with
  | none => exact hbody.pushHandler (fun _ _ => rfl)
  | some name =>
      obtain ⟨hlater, hnames⟩ := hbody.request (Pool.secures_className (hfits name rfl))
      refine hlater.pushHandler (fun final hfinal => ?_)
      obtain ⟨text, hholds, htext⟩ := hnames final hfinal
      exact ⟨Pool.index_ne_zero hholds, text, hholds, htext⟩

theorem Records.setLimits (hbody : Records start steps body) (maxStack maxLocals : UInt16) :
    Records start (steps ++ [.limits maxStack maxLocals]) { body with maxStack, maxLocals } := by
  have hemitted : emitted (steps ++ [.limits maxStack maxLocals]) = emitted steps := by
    rw [emitted_concat]
    exact List.append_nil _
  have hhandlers : handlersOf (steps ++ [.limits maxStack maxLocals]) = handlersOf steps := by
    rw [handlersOf_concat]
    exact List.append_nil _
  refine ⟨hbody.sound, hbody.kept, ?_, hemitted ▸ hbody.code, hhandlers ▸ hbody.handlers⟩
  rw [limitsOf, lastOf_concat]
  rfl

/-- A step of the assembly keeps the record. -/
theorem Records.add (hbody : Records start steps body) (hstep : step.Sound) :
    Records start (steps ++ [step]) (body.add step) := by
  have htexts := hstep.texts_fit
  cases step with
  | text value =>
      exact (hbody.request (Pool.secures_text (htexts value (by simp [BodyStep.texts])))).1.silent
        rfl rfl rfl
  | className name =>
      exact (hbody.request (Pool.secures_className
        (htexts name (by simp [BodyStep.texts])))).1.silent rfl rfl rfl
  | methodRef owner name descriptor isInterface =>
      simp only [BodyStep.texts, List.forall_mem_cons] at htexts
      exact (hbody.request (Pool.secures_methodRef htexts.1 htexts.2.1 htexts.2.2.1
        isInterface)).1.silent rfl rfl rfl
  | bytes | op | invokeRaw => cases hstep.highLevel
  | iconst value => exact hbody.emit rfl (fun _ _ => BodyStep.stores_iconst value)
  | iload slot =>
      exact hbody.emit rfl (fun _ _ =>
        BodyStep.stores_of_slot ⟨0x15, by decide⟩ slot rfl rfl ⟨rfl, rfl⟩)
  | aload slot =>
      exact hbody.emit rfl (fun _ _ =>
        BodyStep.stores_of_slot ⟨0x19, by decide⟩ slot rfl rfl ⟨rfl, rfl⟩)
  | pop =>
      exact hbody.emit rfl (fun _ _ =>
        BodyStep.stores_of_empty ⟨0x57, by decide⟩ rfl rfl ⟨rfl, rfl⟩)
  | dup =>
      exact hbody.emit rfl (fun _ _ =>
        BodyStep.stores_of_empty ⟨0x59, by decide⟩ rfl rfl ⟨rfl, rfl⟩)
  | returnVoid =>
      exact hbody.emit rfl (fun _ _ =>
        BodyStep.stores_of_empty ⟨0xB1, by decide⟩ rfl rfl ⟨rfl, rfl⟩)
  | ireturn =>
      exact hbody.emit rfl (fun _ _ =>
        BodyStep.stores_of_empty ⟨0xAC, by decide⟩ rfl rfl ⟨rfl, rfl⟩)
  | areturn =>
      exact hbody.emit rfl (fun _ _ =>
        BodyStep.stores_of_empty ⟨0xB0, by decide⟩ rfl rfl ⟨rfl, rfl⟩)
  | athrow =>
      exact hbody.emit rfl (fun _ _ =>
        BodyStep.stores_of_empty ⟨0xBF, by decide⟩ rfl rfl ⟨rfl, rfl⟩)
  | newObject name =>
      exact hbody.emitConstant (Pool.secures_className (htexts name (by simp [BodyStep.texts]))) rfl
        (fun index => 0xBB :: Constant.encodeIndex index)
        (fun pool index hname => BodyStep.stores_newObject hname)
  | invoke kind owner name descriptor =>
      obtain ⟨type, htype⟩ := hstep.descriptor descriptor rfl
      simp only [BodyStep.texts, List.forall_mem_cons] at htexts
      exact hbody.emitInvoke htype htexts.1 htexts.2.1 htexts.2.2.1
  | invokeDynamic name descriptor =>
      simp only [BodyStep.texts, List.forall_mem_cons] at htexts
      simp only [Body.add, Body.emitRequest, emit_emit]
      exact hbody.emitConstant (Pool.secures_invokeDynamic htexts.1 htexts.2.1) rfl
        (fun index => dynamicCallByte :: Constant.encodeIndex index ++ [0, 0])
        (fun pool index hsite => BodyStep.stores_invokeDynamic hsite)
  | handler first finish target catchType =>
      refine hbody.addHandler first finish target (fun name hname => htexts name ?_)
      cases hname
      simp [BodyStep.texts]
  | limits maxStack maxLocals => exact hbody.setLimits maxStack maxLocals

/-- Steps one after another keep the record. -/
theorem Records.addAll {more : List BodyStep} (hbody : Records start steps body)
    (hmore : ∀ step ∈ more, step.Sound) : Records start (steps ++ more) (body.addAll more) := by
  induction more generalizing steps body with
  | nil =>
      rw [List.append_nil]
      exact hbody
  | cons step more ih =>
      rw [List.forall_mem_cons] at hmore
      rw [List.append_cons]
      exact ih (hbody.add hmore.1) hmore.2

/-- A program of steps is recorded by the body it assembles. -/
theorem records_addAll (hstart : start.Sound) (hsteps : ∀ step ∈ steps, step.Sound) :
    Records start steps ((Body.start start).addAll steps) :=
  (records_start hstart).addAll hsteps

end Steps

/-! ## The layout of a body -/

/-- Whether a body can be stored: its steps can be assembled, they add at least
one byte and not too many, and the exception handlers can be counted. -/
structure Storable (steps : List BodyStep) : Prop where
  sound : ∀ step ∈ steps, step.Sound
  size_pos : 0 < codeSizeOf steps
  size_le : codeSizeOf steps ≤ Code.maxLength
  handlers_fit : (handlersOf steps).length < 0x10000

instance (steps : List BodyStep) : Decidable (Storable steps) :=
  decidable_of_iff
    ((∀ step ∈ steps, step.Sound) ∧ 0 < codeSizeOf steps ∧ codeSizeOf steps ≤ Code.maxLength ∧
      (handlersOf steps).length < 0x10000)
    ⟨fun ⟨sound, positive, bounded, handlers⟩ => ⟨sound, positive, bounded, handlers⟩,
      fun ⟨sound, positive, bounded, handlers⟩ => ⟨sound, positive, bounded, handlers⟩⟩

/-- The code that the steps of a body are disassembled as. -/
structure DecodesTo (pool : ConstantPool) (steps : List BodyStep) (code : Code) : Prop where
  limits : (code.maxStack, code.maxLocals) = limitsOf steps
  length : code.length = codeSizeOf steps
  instructions : List.Forall₂ (BodyStep.DecodesTo pool) (emitted steps) code.instructions
  handlers : code.handlers = handlersOf steps

section Layout

variable {pool : ConstantPool} {steps : List BodyStep} {layouts : List InstructionLayout}

theorem fitsFrom_of_laidOut (hlaidOut : List.Forall₂ (BodyStep.LaidOut pool) steps layouts)
    (offset : Nat) : InstructionLayout.FitsFrom offset layouts := by
  induction hlaidOut generalizing offset with
  | nil => trivial
  | cons hlayout _ ih => exact ⟨hlayout.fits offset, ih _⟩

theorem length_encodeAll_of_laidOut
    (hlaidOut : List.Forall₂ (BodyStep.LaidOut pool) steps layouts) :
    (InstructionLayout.encodeAll layouts).length = (steps.map BodyStep.size).sum := by
  induction hlaidOut with
  | nil => rfl
  | cons hlayout _ ih =>
      rw [InstructionLayout.encodeAll_cons, List.length_append, hlayout.size, ih, List.map_cons,
        List.sum_cons]

theorem decodesTo_of_laidOut (hlaidOut : List.Forall₂ (BodyStep.LaidOut pool) steps layouts)
    (offset : Nat) :
    List.Forall₂ (BodyStep.DecodesTo pool) steps
      (InstructionLayout.toInstructions offset layouts) := by
  induction hlaidOut generalizing offset with
  | nil => exact List.Forall₂.nil
  | cons hlayout _ ih => exact List.Forall₂.cons (hlayout.decodesTo offset) (ih _)

/-- The layout of an assembled body is well-formed and describes the code that
its steps are disassembled as. -/
theorem Records.exists_code {start final : Pool} {body : Body} (hbody : Records start steps body)
    (hsteps : Storable steps) (hfinal : body.pool.GrowsInto final) :
    body.layout.WellFormed final.slots ∧
      ∃ code, body.layout.Describes final.slots code ∧ DecodesTo final.slots steps code := by
  obtain ⟨layouts, hcode, hlaidOut⟩ := hbody.code final hfinal
  have hhandlers := hbody.handlers final hfinal
  have hlength : body.code.toList.length = codeSizeOf steps := by
    rw [hcode, length_encodeAll_of_laidOut hlaidOut]
    rfl
  have hbounds : 0 < body.code.toList.length ∧ body.code.toList.length ≤ Code.maxLength :=
    hlength ▸ ⟨hsteps.size_pos, hsteps.size_le⟩
  have hlimit : Code.maxLength = 65535 := rfl
  have hdecoded : Instruction.decodeAll body.code.toList =
      .ok (InstructionLayout.toInstructions 0 layouts) := by
    rw [hcode] at hbounds ⊢
    exact Instruction.decodeAll_of_fitsFrom (fitsFrom_of_laidOut hlaidOut 0) (by omega)
  have hinstructions := decodesTo_of_laidOut hlaidOut 0
  refine ⟨?_, ⟨body.maxStack, body.maxLocals, body.code.toList.length,
    InstructionLayout.toInstructions 0 layouts, handlersOf steps⟩,
    ⟨rfl, rfl, rfl, hdecoded, hhandlers⟩, ⟨hbody.limits, hlength, hinstructions, rfl⟩⟩
  exact {
    code_ne_nil := List.length_pos_iff.mp hbounds.1
    code_fits := hbounds.2
    instructions := ⟨_, hdecoded, fun instruction hinstruction => by
      obtain ⟨step, _, hstep⟩ := Outcome.exists_of_mem_right hinstructions hinstruction
      exact hstep.resolves⟩
    handlers_fit := hhandlers.length_eq ▸ hsteps.handlers_fit
    catchTypes := fun layout hlayout hnonzero => by
      obtain ⟨handler, _, hdescribes⟩ := Outcome.exists_of_mem_right hhandlers.flip hlayout
      exact hdescribes.catchType.exists_namesClass hnonzero
    attributes_fit := ⟨Nat.zero_lt_succ _, nofun⟩ }

end Layout

end Body

end JvmCalls.Assembler

import JvmCalls.Proofs.Assembler.Class
import JvmCalls.Proofs.Assembler.Interning

/-!
# The constants of assembled classes

Whatever steps assemble a class, its constants come from demands that are made one after
another, first for the bodies and the members and last for the class and its links.  So
what holds of any demands holds of the constants of every class that can be stored.
-/

namespace JvmCalls.Assembler

/-- The later pool comes from the earlier one through demands whose texts can be stored. -/
def Pool.Reaches (earlier later : Pool) : Prop :=
  ∃ demands : List Demand, (∀ demand ∈ demands, demand.Fits) ∧
    ((demands.mapM Demand.request).run earlier).2 = later

namespace Pool

theorem Reaches.refl (pool : Pool) : pool.Reaches pool := ⟨[], nofun, rfl⟩

theorem Reaches.trans {first second third : Pool} (hfirst : first.Reaches second)
    (hsecond : second.Reaches third) : first.Reaches third := by
  obtain ⟨demands, hfits, rfl⟩ := hfirst
  obtain ⟨others, hothers, rfl⟩ := hsecond
  refine ⟨demands ++ others, List.forall_mem_append.mpr ⟨hfits, hothers⟩, ?_⟩
  rw [List.mapM_append]
  rfl

theorem reaches_request (pool : Pool) {demand : Demand} (hfits : demand.Fits) :
    pool.Reaches (demand.request.run pool).2 :=
  ⟨[demand], List.forall_mem_singleton.mpr hfits, rfl⟩

end Pool

theorem Demand.fits_text {value : String} (hfits : (Constant.utf8 value).Fits) :
    (Demand.text value).Fits :=
  List.forall_mem_singleton.mpr hfits

theorem Demand.fits_className {name : String} (hfits : (Constant.utf8 name).Fits) :
    (Demand.className name).Fits :=
  List.forall_mem_singleton.mpr hfits

theorem Body.reaches_add (body : Body) {step : BodyStep} (hstep : step.Sound) :
    body.pool.Reaches (body.add step).pool := by
  have htexts := hstep.texts_fit
  cases step with
  | text value =>
      exact body.pool.reaches_request (show (Demand.text value).Fits from htexts)
  | className name | newObject name =>
      exact body.pool.reaches_request (show (Demand.className name).Fits from htexts)
  | methodRef owner name descriptor isInterface =>
      exact body.pool.reaches_request
        (show (Demand.methodRef owner name descriptor isInterface).Fits from htexts)
  | invoke kind owner name descriptor =>
      have hcalled := body.pool.reaches_request
        (show (Demand.methodRef owner name descriptor (decide (kind = .interface))).Fits
          from htexts)
      simp only [add, emitInvoke]
      split <;> exact hcalled
  | invokeDynamic name descriptor =>
      exact body.pool.reaches_request
        (show (Demand.invokeDynamic name descriptor).Fits from htexts)
  | handler start finish target catchType =>
      cases catchType with
      | some name =>
          exact body.pool.reaches_request (show (Demand.className name).Fits from htexts)
      | none => exact Pool.Reaches.refl body.pool
  | _ => exact Pool.Reaches.refl body.pool

theorem Body.reaches_addAll (body : Body) {steps : List BodyStep}
    (hsteps : ∀ step ∈ steps, step.Sound) : body.pool.Reaches (body.addAll steps).pool := by
  induction steps generalizing body with
  | nil => exact Pool.Reaches.refl body.pool
  | cons step steps ih =>
      rw [List.forall_mem_cons] at hsteps
      exact (body.reaches_add hsteps.1).trans (ih (body.add step) hsteps.2)

namespace Class

theorem reaches_member (pool : Pool) (access : UInt16) {name descriptor : String}
    (hname : (Constant.utf8 name).Fits) (hdescriptor : (Constant.utf8 descriptor).Fits) :
    pool.Reaches ((member access name descriptor).run pool).2 :=
  (pool.reaches_request (Demand.fits_text hname)).trans
    (Pool.reaches_request _ (Demand.fits_text hdescriptor))

theorem reaches_add (assembled : Class) {step : ClassStep} (hstep : step.Sound) :
    assembled.pool.Reaches (assembled.add step).pool := by
  have htexts := hstep.texts_fit
  cases step with
  | field name descriptor =>
      simp only [ClassStep.texts, List.forall_mem_cons] at htexts
      exact reaches_member assembled.pool 0x0002 htexts.1 htexts.2.1
  | abstractMethod name descriptor =>
      simp only [ClassStep.texts, List.forall_mem_cons] at htexts
      exact reaches_member assembled.pool 0x0401 htexts.1 htexts.2.1
  | method access name descriptor steps =>
      simp only [ClassStep.texts, List.forall_mem_cons] at htexts
      have hcode : (Constant.utf8 Method.codeAttribute).Fits := by decide +kernel
      have hbody := (Body.start assembled.pool).reaches_addAll (hstep.body steps rfl).sound
      exact (hbody.trans (reaches_member _ access.bits htexts.1 htexts.2.1)).trans
        (Pool.reaches_request _ (Demand.fits_text hcode))
  | _ => exact Pool.Reaches.refl assembled.pool

theorem reaches_addAll (assembled : Class) {steps : List ClassStep}
    (hsteps : ∀ step ∈ steps, step.Sound) :
    assembled.pool.Reaches (steps.foldl add assembled).pool := by
  induction steps generalizing assembled with
  | nil => exact Pool.Reaches.refl assembled.pool
  | cons step steps ih =>
      rw [List.forall_mem_cons] at hsteps
      exact (assembled.reaches_add hsteps.1).trans (ih (assembled.add step) hsteps.2)

theorem reaches_optionalClassName (pool : Pool) {name : Option String}
    (hname : ∀ text ∈ name, (Constant.utf8 text).Fits) :
    pool.Reaches ((optionalClassName name).run pool).2 := by
  cases name with
  | some name => exact pool.reaches_request (Demand.fits_className (hname name rfl))
  | none => exact Pool.Reaches.refl pool

theorem reaches_interfaces (pool : Pool) {names : List String}
    (hnames : ∀ name ∈ names, (Constant.utf8 name).Fits) :
    pool.Reaches ((names.mapM Pool.className).run pool).2 := by
  refine ⟨names.map Demand.className, ?_, ?_⟩
  · rw [List.forall_mem_map]
    exact fun name hmem => Demand.fits_className (hnames name hmem)
  · rw [List.mapM_map]
    rfl

theorem reaches_links {assembled : Class} (hname : (Constant.utf8 assembled.name).Fits)
    (hparent : ∀ parent ∈ assembled.superName, (Constant.utf8 parent).Fits)
    (hinterfaces : ∀ interface ∈ assembled.interfaces, (Constant.utf8 interface).Fits) :
    assembled.pool.Reaches (assembled.links.run assembled.pool).2 :=
  ((assembled.pool.reaches_request (Demand.fits_className hname)).trans
    (reaches_optionalClassName _ hparent)).trans (reaches_interfaces _ hinterfaces)

variable {name : String} {steps : List ClassStep}

/-- The constants of a class that can be stored are those of some demands. -/
theorem exists_demands (hsteps : Storable name steps) :
    ∃ demands : List Demand, (∀ demand ∈ demands, demand.Fits) ∧
      ((demands.mapM Demand.request).run Pool.empty).2.entries.toList =
        (steps.foldl add (start name)).layout.constants := by
  obtain ⟨hheader, _⟩ := records_addAll (header_start name) (members_start name) hsteps.sound
  rw [List.nil_append] at hheader
  have hmembers := (start name).reaches_addAll hsteps.sound
  generalize steps.foldl add (start name) = assembled at hheader hmembers ⊢
  have hlinks := reaches_links (hheader.name ▸ hsteps.name_fits)
    (hheader.superName ▸ fits_superName hsteps.sound)
    (hheader.interfaces ▸ fits_interface hsteps.sound)
  obtain ⟨demands, hfits, hdemands⟩ := hmembers.trans hlinks
  exact ⟨demands, hfits, congrArg (fun pool => pool.entries.toList) hdemands⟩

/-- The constants of every class that can be stored are interned faithfully, as the answers
to some demands, and stand in the class as they are kept. -/
theorem exists_isFaithful (hsteps : Storable name steps) :
    ∃ (demands : List Demand) (indices : List UInt16) (register : Register),
      (∀ demand ∈ demands, demand.Fits) ∧
      (demands.mapM Demand.enter).run Register.empty = (indices, register) ∧
      register.IsFaithful (steps.foldl add (start name)).layout.constants demands indices := by
  obtain ⟨demands, hfits, hconstants⟩ := exists_demands hsteps
  have hsmall : ((demands.mapM Demand.request).run Pool.empty).2.entries.size < 0xFFFF := by
    rw [← Array.length_toList, hconstants]
    exact hsteps.pool_small
  obtain ⟨indices, pool, register, hrequest, henter, hfaithful⟩ :=
    Register.exists_isFaithful hfits hsmall
  rw [hrequest] at hconstants
  exact ⟨demands, indices, register, hfits, henter, hconstants ▸ hfaithful⟩

end Class

end JvmCalls.Assembler

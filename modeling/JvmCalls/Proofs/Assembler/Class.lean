import JvmCalls.Assembler.Class
import JvmCalls.Proofs.Assembler.Body

/-!
# Assembled classes

What is assembled is parsed.  A class under assembly records the steps so far:
its header holds the settings that were made last, and every member leads to
the texts it was given, in each pool that the present one grows into.  When the
class is written the pool is complete, so that the layout is well-formed and
describes the class that the steps ask for.
-/

namespace JvmCalls.Assembler

namespace ClassStep

/-- The texts that become constants of their own, those of a body aside. -/
def texts : ClassStep → List String
  | superClass name | interface name => [name]
  | field name descriptor | abstractMethod name descriptor | method _ name descriptor _ =>
      [name, descriptor]
  | _ => []

/-- The major and the minor version that the step sets. -/
def version? : ClassStep → Option (UInt16 × UInt16)
  | version major minor => some (major, minor)
  | _ => none

def access? : ClassStep → Option ClassAccess
  | access flags => some flags
  | _ => none

/-- The superclass that the step sets, or that it removes. -/
def superName? : ClassStep → Option (Option String)
  | superClass name => some (some name)
  | noSuper => some none
  | _ => none

def interface? : ClassStep → Option String
  | interface name => some name
  | _ => none

def isField : ClassStep → Bool
  | field .. => true
  | _ => false

def isMethod : ClassStep → Bool
  | abstractMethod .. | method .. => true
  | _ => false

def body? : ClassStep → Option (List BodyStep)
  | method _ _ _ body => some body
  | _ => none

structure Sound (step : ClassStep) : Prop where
  texts_fit : ∀ text ∈ step.texts, (Constant.utf8 text).Fits
  body : ∀ body ∈ step.body?, Body.Storable body

instance (step : ClassStep) : Decidable step.Sound :=
  decidable_of_iff
    ((∀ text ∈ step.texts, (Constant.utf8 text).Fits) ∧ ∀ body ∈ step.body?, Body.Storable body)
    ⟨fun ⟨texts, body⟩ => ⟨texts, body⟩, fun ⟨texts, body⟩ => ⟨texts, body⟩⟩

/-- The method of the class `owner` is the one that the step adds. -/
def DecodesTo (pool : ConstantPool) (owner : String) (step : ClassStep) (decoded : Method) :
    Prop :=
  match step with
  | abstractMethod name descriptor =>
      decoded = { owner, name, descriptor, access := ⟨0x0401⟩, code := none }
  | method flags name descriptor body => ∃ code,
      decoded = { owner, name, descriptor, access := flags, code := some code } ∧
        Body.DecodesTo pool body code
  | _ => False

/-- The member stores the method that the step adds. -/
def LaidOut (pool : ConstantPool) (step : ClassStep) (member : MemberLayout) : Prop :=
  member.WellFormed pool ∧
    ∀ owner, ∃ decoded, member.Describes pool owner decoded ∧ step.DecodesTo pool owner decoded

end ClassStep

namespace Class

def interfacesOf (steps : List ClassStep) : List String :=
  steps.filterMap ClassStep.interface?

def superNameOf (steps : List ClassStep) : Option String :=
  lastOf ClassStep.superName? (some "java/lang/Object") steps

/-- Whether a class can be stored: its steps can be assembled, its name fits,
the indices of all its constants fit two bytes, and so do the counts of its
tables. -/
structure Storable (name : String) (steps : List ClassStep) : Prop where
  name_fits : (Constant.utf8 name).Fits
  sound : ∀ step ∈ steps, step.Sound
  pool_small : (steps.foldl add (start name)).layout.constants.length < 0xFFFF
  interfaces_fit : (interfacesOf steps).length < 0x10000
  fields_fit : (steps.filter ClassStep.isField).length < 0x10000
  methods_fit : (steps.filter ClassStep.isMethod).length < 0x10000

/-- The class is the one that the steps ask for. -/
structure DecodesTo (name : String) (steps : List ClassStep) (decoded : ClassFile) : Prop where
  version : (decoded.majorVersion, decoded.minorVersion) =
    lastOf ClassStep.version? (52, 0) steps
  access : decoded.access = lastOf ClassStep.access? ⟨0x0021⟩ steps
  name : decoded.name = binaryName name
  superName : decoded.superName = (superNameOf steps).map binaryName
  interfaces : decoded.interfaces = (interfacesOf steps).map binaryName
  fieldCount : decoded.fieldCount = (steps.filter ClassStep.isField).length
  methods : List.Forall₂ (ClassStep.DecodesTo decoded.pool decoded.name)
    (steps.filter ClassStep.isMethod) decoded.methods

/-! ## Members -/

section Members

variable {name descriptor : String}

theorem secures_member (access : UInt16) (hname : (Constant.utf8 name).Fits)
    (hdescriptor : (Constant.utf8 descriptor).Fits) :
    Pool.Secures (member access name descriptor) (fun slots layout =>
      layout.access = access ∧ layout.attributes = [] ∧
        slots.Holds layout.name (.utf8 name) ∧ slots.Holds layout.descriptor (.utf8 descriptor)) :=
  Pool.secures_bind (Pool.secures_text hname) (fun _ =>
    Pool.secures_bind (Pool.secures_text hdescriptor) (fun _ =>
      Pool.secures_pure (fun _ hdescriptor hname => ⟨rfl, rfl, hname, hdescriptor⟩)))

theorem attributes_of_member {access : UInt16} {pool later : Pool} {layout : MemberLayout}
    (hrun : (member access name descriptor).run pool = (layout, later)) :
    layout.attributes = [] :=
  (congrArg (fun result : MemberLayout × Pool => result.1.attributes) hrun).symm

theorem secures_methodOf (access : MethodAccess) (hname : (Constant.utf8 name).Fits)
    (hdescriptor : (Constant.utf8 descriptor).Fits) (body : Body) :
    Pool.Secures (methodOf access name descriptor body) (fun slots layout =>
      layout.access = access.bits ∧
        (∃ code, layout.attributes = [⟨code, body.layout.encode⟩] ∧
          slots.Holds code (.utf8 Method.codeAttribute)) ∧
        slots.Holds layout.name (.utf8 name) ∧
        slots.Holds layout.descriptor (.utf8 descriptor)) := by
  have hcode : (Constant.utf8 Method.codeAttribute).Fits := by decide +kernel
  refine Pool.secures_bind (secures_member access.bits hname hdescriptor) (fun head =>
    Pool.secures_bind (Pool.secures_text hcode) (fun code =>
      Pool.secures_pure (fun _ hcode hhead => ?_)))
  obtain ⟨haccess, _, hname, hdescriptor⟩ := hhead
  exact ⟨haccess, ⟨code, rfl, hcode⟩, hname, hdescriptor⟩

end Members

/-! ## The members of a class -/

section Layouts

variable {pool : ConstantPool} {name descriptor : String} {layout : MemberLayout}

/-- A method without attributes stores a method without a body. -/
theorem laidOut_abstractMethod (haccess : layout.access = 0x0401)
    (hattributes : layout.attributes = []) (hname : pool.Holds layout.name (.utf8 name))
    (hdescriptor : pool.Holds layout.descriptor (.utf8 descriptor)) :
    (ClassStep.abstractMethod name descriptor).LaidOut pool layout := by
  constructor
  · exact {
      name := ⟨name, hname⟩
      descriptor := ⟨descriptor, hdescriptor⟩
      attributes_fit := hattributes ▸ ⟨Nat.zero_lt_succ _, nofun⟩
      attributeNames := hattributes ▸ nofun
      single_body := hattributes ▸ List.Pairwise.nil
      bodies := hattributes ▸ nofun }
  · intro owner
    refine ⟨_, ⟨rfl, ?_, hname, hdescriptor, ?_⟩, rfl⟩
    · exact haccess.symm
    · rw [hattributes]
      exact nofun

/-- The attribute of an assembled body is short enough. -/
theorem length_encode_lt {body : BodyLayout} (hcode : body.code.length ≤ Code.maxLength)
    (hhandlers : body.handlers.length < 0x10000) (hattributes : body.attributes = []) :
    body.encode.length < 0x100000000 := by
  have hlimit : Code.maxLength = 65535 := rfl
  have hhandler : ∀ handler : HandlerLayout, handler.encode.length = 8 := by
    intro handler
    simp [HandlerLayout.encode, encodeIndices, Constant.encodeIndex]
  simp only [BodyLayout.encode, encodeTable, encodeIndices, Constant.encodeIndex,
    List.length_append, List.flatMap_cons, List.flatMap_nil, BigEndian.length_digits,
    BigEndian.length_flatMap_of_width hhandler, hattributes, List.length_nil]
  omega

/-- A method with the attribute of an assembled body stores the method that has
this body. -/
theorem laidOut_method {flags : MethodAccess} {code : UInt16} {steps : List BodyStep}
    {start final : Pool} {body : Body} (haccess : layout.access = flags.bits)
    (hattributes : layout.attributes = [⟨code, body.layout.encode⟩])
    (hname : final.slots.Holds layout.name (.utf8 name))
    (hdescriptor : final.slots.Holds layout.descriptor (.utf8 descriptor))
    (hcode : final.slots.Holds code (.utf8 Method.codeAttribute))
    (hbody : body.Records start steps) (hsteps : Body.Storable steps)
    (hfinal : body.pool.GrowsInto final) :
    (ClassStep.method flags name descriptor steps).LaidOut final.slots layout := by
  obtain ⟨hwell, decoded, hdescribes, hdecodes⟩ := hbody.exists_code hsteps hfinal
  have hshort := length_encode_lt hwell.code_fits hwell.handlers_fit rfl
  constructor
  · refine ⟨⟨name, hname⟩, ⟨descriptor, hdescriptor⟩, ?_, ?_, ?_, ?_⟩ <;> rw [hattributes]
    · exact ⟨Nat.one_lt_succ_succ _, List.forall_mem_singleton.mpr hshort⟩
    · exact List.forall_mem_singleton.mpr ⟨_, hcode⟩
    · exact List.pairwise_singleton _ _
    · exact List.forall_mem_singleton.mpr (fun _ => ⟨body.layout, hwell, rfl⟩)
  · intro owner
    refine ⟨_, ⟨rfl, haccess.symm, hname, hdescriptor, ?_⟩, decoded, rfl, hdecodes⟩
    exact ⟨⟨code, body.layout.encode⟩, hattributes ▸ List.mem_singleton_self _, hcode,
      body.layout, hwell, rfl, hdescribes⟩

end Layouts

/-! ## Steps -/

structure Header (name : String) (steps : List ClassStep) (assembled : Class) : Prop where
  name : assembled.name = name
  version : (assembled.majorVersion, assembled.minorVersion) =
    lastOf ClassStep.version? (52, 0) steps
  access : assembled.access = lastOf ClassStep.access? ⟨0x0021⟩ steps
  superName : assembled.superName = superNameOf steps
  interfaces : assembled.interfaces = interfacesOf steps

structure Members (steps : List ClassStep) (assembled : Class) : Prop where
  sound : assembled.pool.Sound
  fieldCount : assembled.fields.size = (steps.filter ClassStep.isField).length
  fields : ∀ field ∈ assembled.fields.toList, field.attributes = []
  methods : ∀ final, assembled.pool.GrowsInto final →
    List.Forall₂ (ClassStep.LaidOut final.slots) (steps.filter ClassStep.isMethod)
      assembled.methods.toList

section Steps

variable {name : String} {steps : List ClassStep} {assembled : Class} {step : ClassStep}

theorem header_start (name : String) : Header name [] (start name) :=
  ⟨rfl, rfl, rfl, rfl, rfl⟩

theorem members_start (name : String) : Members [] (start name) :=
  ⟨Pool.sound_empty, rfl, nofun, fun _ _ => List.Forall₂.nil⟩

/-- The header after a step has the setting that the step makes. -/
theorem Header.add (hclass : Header name steps assembled) (step : ClassStep) :
    Header name (steps ++ [step]) (assembled.add step) := by
  have hinterfaces : interfacesOf (steps ++ [step]) =
      interfacesOf steps ++ step.interface?.toList := by
    rw [interfacesOf, List.filterMap_append, interfacesOf]
    cases hinterface : step.interface? <;> simp [hinterface]
  have hnone : interfacesOf steps ++ [] = interfacesOf steps := List.append_nil _
  constructor
  · cases step <;> exact hclass.name
  · rw [lastOf_concat, ← hclass.version]
    cases step <;> rfl
  · rw [lastOf_concat, ← hclass.access]
    cases step <;> rfl
  · rw [superNameOf, lastOf_concat, ← superNameOf, ← hclass.superName]
    cases step <;> rfl
  · rw [hinterfaces, ← hclass.interfaces]
    cases step <;> first | rfl | exact (List.append_nil _).symm

/-- A step that adds no member. -/
theorem Members.silent (hclass : Members steps assembled) {later : Class}
    (hpool : later.pool = assembled.pool) (hfields : later.fields = assembled.fields)
    (hmethods : later.methods = assembled.methods) (hfield : step.isField = false)
    (hmethod : step.isMethod = false) : Members (steps ++ [step]) later := by
  constructor
  · exact hpool ▸ hclass.sound
  · rw [List.filter_append, List.filter_singleton, hfield, hfields, hclass.fieldCount]
    simp
  · exact hfields ▸ hclass.fields
  · rw [List.filter_append, List.filter_singleton, hmethod, hpool, hmethods]
    simpa using hclass.methods

theorem Members.addField (hclass : Members steps assembled) {field descriptor : String}
    (hname : (Constant.utf8 field).Fits) (hdescriptor : (Constant.utf8 descriptor).Fits) :
    Members (steps ++ [.field field descriptor]) (assembled.addField field descriptor) := by
  rcases hrun : (member 0x0002 field descriptor).run assembled.pool with ⟨layout, later⟩
  obtain ⟨hsound, hkept, hmeans⟩ := secures_member 0x0002 hname hdescriptor hclass.sound hrun
  rw [Class.addField, hrun]
  constructor
  · exact hsound
  · rw [List.filter_append, List.length_append, ← hclass.fieldCount]
    exact Array.size_push _
  · rw [Array.toList_push, List.forall_mem_append, List.forall_mem_singleton]
    exact ⟨hclass.fields, attributes_of_member hrun⟩
  · intro final hfinal
    rw [List.filter_append]
    simpa [ClassStep.isMethod] using hclass.methods final (hkept.growsInto hfinal)

/-- A step that adds a method. -/
theorem Members.push (hclass : Members steps assembled) {later : Pool} {layout : MemberLayout}
    (hsound : later.Sound) (hkept : assembled.pool.Extends later)
    (hfield : step.isField = false) (hmethod : step.isMethod = true)
    (hlayout : ∀ final, later.GrowsInto final → step.LaidOut final.slots layout) :
    Members (steps ++ [step])
      { assembled with pool := later, methods := assembled.methods.push layout } := by
  constructor
  · exact hsound
  · rw [List.filter_append, List.filter_singleton, hfield, hclass.fieldCount]
    simp
  · exact hclass.fields
  · intro final hfinal
    rw [List.filter_append, List.filter_singleton, hmethod, Array.toList_push]
    exact List.rel_append (hclass.methods final (hkept.growsInto hfinal))
      (List.Forall₂.cons (hlayout final hfinal) List.Forall₂.nil)

/-- A step that can be assembled keeps the members in step. -/
theorem Members.add (hclass : Members steps assembled) (hstep : step.Sound) :
    Members (steps ++ [step]) (assembled.add step) := by
  have htexts := hstep.texts_fit
  cases step with
  | version | access | superClass | noSuper | interface =>
      exact hclass.silent rfl rfl rfl rfl rfl
  | field field descriptor =>
      simp only [ClassStep.texts, List.forall_mem_cons] at htexts
      exact hclass.addField htexts.1 htexts.2.1
  | abstractMethod method descriptor =>
      simp only [ClassStep.texts, List.forall_mem_cons] at htexts
      rcases hrun : (member 0x0401 method descriptor).run assembled.pool with ⟨layout, later⟩
      obtain ⟨hsound, hkept, hmeans⟩ :=
        secures_member 0x0401 htexts.1 htexts.2.1 hclass.sound hrun
      rw [Class.add, Class.addAbstractMethod, hrun]
      refine hclass.push hsound hkept rfl rfl (fun final hfinal => ?_)
      obtain ⟨haccess, hattributes, hname, hdescriptor⟩ := hmeans final hfinal
      exact laidOut_abstractMethod haccess hattributes hname hdescriptor
  | method flags method descriptor body =>
      simp only [ClassStep.texts, List.forall_mem_cons] at htexts
      have hbody := hstep.body body rfl
      have hrecords := Body.records_addAll hclass.sound hbody.sound
      rcases hrun : (methodOf flags method descriptor
        ((Body.start assembled.pool).addAll body)).run
          ((Body.start assembled.pool).addAll body).pool with ⟨layout, later⟩
      obtain ⟨hsound, hkept, hmeans⟩ :=
        secures_methodOf flags htexts.1 htexts.2.1 _ hrecords.sound hrun
      rw [Class.add, Class.addMethod, hrun]
      refine hclass.push hsound (hrecords.kept.trans hkept) rfl rfl (fun final hfinal => ?_)
      obtain ⟨haccess, ⟨code, hattributes, hcode⟩, hname, hdescriptor⟩ := hmeans final hfinal
      exact laidOut_method haccess hattributes hname hdescriptor hcode hrecords hbody
        (hkept.growsInto hfinal)

/-- Steps one after another keep header and members in step. -/
theorem records_addAll {more : List ClassStep} (hheader : Header name steps assembled)
    (hmembers : Members steps assembled) (hmore : ∀ step ∈ more, step.Sound) :
    Header name (steps ++ more) (more.foldl add assembled) ∧
      Members (steps ++ more) (more.foldl add assembled) := by
  induction more generalizing steps assembled with
  | nil =>
      rw [List.append_nil]
      exact ⟨hheader, hmembers⟩
  | cons step more ih =>
      rw [List.forall_mem_cons] at hmore
      rw [List.append_cons]
      exact ih (hheader.add step) (hmembers.add hmore.1) hmore.2

end Steps

/-! ## Parsing -/

section Parse

variable {name : String} {steps : List ClassStep} {assembled : Class}

/-- The superclass is one that a step has named, or the one of every class. -/
theorem fits_superName (hsteps : ∀ step ∈ steps, step.Sound) :
    ∀ parent ∈ superNameOf steps, (Constant.utf8 parent).Fits := by
  intro parent hparent
  rcases lastOf_eq_or ClassStep.superName? (some "java/lang/Object") steps with
    hinitial | ⟨step, hstep, hset⟩
  · rw [superNameOf, hinitial] at hparent
    cases hparent
    decide +kernel
  · rw [← superNameOf, Option.mem_def.mp hparent] at hset
    refine (hsteps step hstep).texts_fit parent ?_
    cases step with
    | superClass name =>
        cases hset
        exact List.mem_singleton_self _
    | noSuper => cases hset
    | version | access | interface | field | abstractMethod | method => cases hset

theorem fits_interface (hsteps : ∀ step ∈ steps, step.Sound) :
    ∀ interface ∈ interfacesOf steps, (Constant.utf8 interface).Fits := by
  intro interface hinterface
  obtain ⟨step, hstep, hadded⟩ := List.mem_filterMap.mp hinterface
  refine (hsteps step hstep).texts_fit interface ?_
  cases step with
  | interface name =>
      cases hadded
      exact List.mem_singleton_self _
  | version | access | superClass | noSuper | field | abstractMethod | method => cases hadded

theorem secures_optionalClassName {parent : Option String}
    (hfits : ∀ name ∈ parent, (Constant.utf8 name).Fits) :
    Pool.Secures (optionalClassName parent)
      (fun slots index => slots.NamesOptionalClass index parent) := by
  cases parent with
  | none => exact Pool.secures_pure (fun _ => rfl)
  | some name =>
      refine (Pool.secures_className (hfits name rfl)).imp (fun final index hname => ?_)
      obtain ⟨text, hholds, htext⟩ := hname
      exact ⟨Pool.index_ne_zero hholds, text, hholds, htext⟩

/-- The indices that are written last lead to the class, its superclass and its
interfaces. -/
theorem secures_links (hname : (Constant.utf8 assembled.name).Fits)
    (hparent : ∀ parent ∈ assembled.superName, (Constant.utf8 parent).Fits)
    (hinterfaces : ∀ interface ∈ assembled.interfaces, (Constant.utf8 interface).Fits) :
    Pool.Secures assembled.links (fun slots indices =>
      slots.NamesClass indices.1 assembled.name ∧
        slots.NamesOptionalClass indices.2.1 assembled.superName ∧
        List.Forall₂ (fun interface index => slots.NamesClass index interface)
          assembled.interfaces indices.2.2) :=
  Pool.secures_bind (Pool.secures_className hname) (fun _ =>
    Pool.secures_bind (secures_optionalClassName hparent) (fun _ =>
      Pool.secures_bind (Pool.secures_mapM (fun interface hinterface =>
        Pool.secures_className (hinterfaces interface hinterface))) (fun _ =>
          Pool.secures_pure (fun _ hinterfaces hparent hself => ⟨hself, hparent, hinterfaces⟩))))

/-- The methods that are stored are those that the steps ask for. -/
theorem exists_methods {pool : ConstantPool} {members : List MemberLayout}
    (hmembers : List.Forall₂ (ClassStep.LaidOut pool) steps members) (owner : String) :
    ∃ methods, List.Forall₂ (MemberLayout.Describes pool owner) members methods ∧
      List.Forall₂ (ClassStep.DecodesTo pool owner) steps methods := by
  induction hmembers with
  | nil => exact ⟨[], List.Forall₂.nil, List.Forall₂.nil⟩
  | cons hmember _ ih =>
      obtain ⟨method, hdescribes, hdecodes⟩ := hmember.2 owner
      obtain ⟨methods, hmore, hothers⟩ := ih
      exact ⟨method :: methods, hmore.cons hdescribes, hothers.cons hdecodes⟩

/-- What the indices that are written last have to lead to, in the complete
pool. -/
structure Linked (final : Pool) (assembled : Class) (own parent : UInt16)
    (links : List UInt16) : Prop where
  name : final.slots.NamesClass own assembled.name
  superName : final.slots.NamesOptionalClass parent assembled.superName
  interfaces : List.Forall₂ (fun interface index => final.slots.NamesClass index interface)
    assembled.interfaces links

/-- The layout of a class with a complete pool. -/
def layoutWith (assembled : Class) (final : Pool) (own parent : UInt16)
    (links : List UInt16) : ClassLayout where
  minorVersion := assembled.minorVersion
  majorVersion := assembled.majorVersion
  constants := final.entries.toList
  access := assembled.access.bits
  self := own
  parent := parent
  interfaces := links
  fields := assembled.fields.toList
  methods := assembled.methods.toList
  attributes := []

section Linked

variable {final : Pool} {own parent : UInt16} {links : List UInt16}

theorem wellFormed_layoutWith (hlinked : Linked final assembled own parent links)
    (hmembers : Members steps assembled) (hfinal : assembled.pool.GrowsInto final)
    (hinterfaces : assembled.interfaces.length < 0x10000)
    (hfields : (steps.filter ClassStep.isField).length < 0x10000)
    (hmethods : (steps.filter ClassStep.isMethod).length < 0x10000) :
    (assembled.layoutWith final own parent links).WellFormed := by
  have hstored := hmembers.methods final hfinal
  have hsize := hfinal.sound.size_slots
  have hsmall := hfinal.small
  exact {
    constants_fit := fun constant hconstant => (hfinal.sound constant hconstant).1
    pool_fits := by
      change final.slots.size < 0x10000
      omega
    self := ⟨_, hlinked.name⟩
    parent := hlinked.superName.exists_namesClass
    interfaces_fit := hlinked.interfaces.length_eq ▸ hinterfaces
    interfaces := fun index hindex => by
      obtain ⟨interface, _, hnames⟩ := Outcome.exists_of_mem_right hlinked.interfaces hindex
      exact ⟨interface, hnames⟩
    fields_fit := by
      rw [← hmembers.fieldCount, ← Array.length_toList] at hfields
      exact hfields
    fields := fun field hfield => by
      rw [hmembers.fields field hfield]
      exact ⟨Nat.zero_lt_succ _, nofun⟩
    methods_fit := hstored.length_eq ▸ hmethods
    methods := fun method hmethod => by
      obtain ⟨step, _, hlaidOut⟩ := Outcome.exists_of_mem_right hstored hmethod
      exact hlaidOut.1
    attributes_fit := ⟨Nat.zero_lt_succ _, nofun⟩ }

theorem exists_described_layoutWith (hlinked : Linked final assembled own parent links)
    (hheader : Header name steps assembled) (hmembers : Members steps assembled)
    (hfinal : assembled.pool.GrowsInto final) :
    ∃ decoded, (assembled.layoutWith final own parent links).Describes decoded ∧
      DecodesTo name steps decoded := by
  have hstored := hmembers.methods final hfinal
  obtain ⟨methods, hdescribes, hdecodes⟩ := exists_methods hstored (binaryName name)
  refine ⟨{
    minorVersion := assembled.minorVersion
    majorVersion := assembled.majorVersion
    pool := final.slots
    access := assembled.access
    name := binaryName name
    superName := assembled.superName.map binaryName
    interfaces := assembled.interfaces.map binaryName
    fieldCount := assembled.fields.size
    methods }, ?_, ?_⟩
  · refine ⟨rfl, rfl, rfl, rfl, ⟨name, hheader.name ▸ hlinked.name, rfl⟩,
      ⟨assembled.superName, hlinked.superName, rfl⟩, ?_, rfl, hdescribes⟩
    rw [List.forall₂_map_right_iff]
    exact hlinked.interfaces.flip.imp (fun _ interface hnames => ⟨interface, hnames, rfl⟩)
  · exact ⟨hheader.version, hheader.access, rfl, by rw [hheader.superName],
      by rw [hheader.interfaces], hmembers.fieldCount, hdecodes⟩

end Linked

/-- The class that a program assembles is parsed as the class that the program
asks for: with the versions, the flags and the names that were set last, with
its methods in order, and in every body with exactly one instruction for each
step that adds one. -/
theorem parse_assemble (hsteps : Storable name steps) :
    ∃ decoded, ClassFile.parse (assemble name steps) = .ok decoded ∧
      DecodesTo name steps decoded := by
  obtain ⟨hheader, hmembers⟩ :=
    records_addAll (header_start name) (members_start name) hsteps.sound
  have hsmall := hsteps.pool_small
  rw [assemble, encode]
  rw [List.nil_append] at hheader hmembers
  generalize steps.foldl add (start name) = assembled at hheader hmembers hsmall ⊢
  rcases hrun : assembled.links.run assembled.pool with ⟨⟨own, parent, links⟩, final⟩
  obtain ⟨hsound, hkept, hlinks⟩ := secures_links (hheader.name ▸ hsteps.name_fits)
    (hheader.superName ▸ fits_superName hsteps.sound)
    (hheader.interfaces ▸ fits_interface hsteps.sound) hmembers.sound hrun
  have hlayout : assembled.layout = assembled.layoutWith final own parent links := by
    rw [layout, hrun]
    rfl
  rw [hlayout] at hsmall ⊢
  have hfinal : final.GrowsInto final := ⟨Pool.Extends.refl final, hsound, hsmall⟩
  obtain ⟨hself, hparent, hinterfaces⟩ := hlinks final hfinal
  have hlinked : Linked final assembled own parent links := ⟨hself, hparent, hinterfaces⟩
  obtain ⟨decoded, hdescribes, hdecodes⟩ := exists_described_layoutWith hlinked hheader hmembers
    (hkept.growsInto hfinal)
  have hwell := wellFormed_layoutWith hlinked hmembers (hkept.growsInto hfinal)
    (hheader.interfaces ▸ hsteps.interfaces_fit) hsteps.fields_fit hsteps.methods_fit
  exact ⟨decoded, hdescribes.parsed hwell, hdecodes⟩

/-- A program that sets the superclass twice and whose body calls in four
ways, with an exception handler between the calls. -/
def callingProgram : List ClassStep :=
  [.version 55 0, .superClass "a/First", .interface "a/Shape", .field "count" "I",
    .abstractMethod "area" "()D", .superClass "a/Base",
    .method ⟨0x0009⟩ "run" "(La/Shape;)I"
      [.limits 3 1, .aload 0, .invoke .interface "a/Shape" "scale" "(JI)V", .iconst (-1),
        .iconst 100, .handler 0 7 7 (some "java/lang/Throwable"),
        .invoke .static "a/Base" "add" "(II)I", .newObject "a/Base", .pop,
        .invokeDynamic "get" "()I", .pop, .ireturn]]

theorem parse_callingProgram :
    ∃ decoded, ClassFile.parse (assemble "a/Main" callingProgram) = .ok decoded ∧
      DecodesTo "a/Main" callingProgram decoded ∧ decoded.superName = some "a.Base" ∧
      decoded.methods.length = 2 := by
  have hstorable : Storable "a/Main" callingProgram := by
    refine ⟨?_, ?_, ?_, ?_, ?_, ?_⟩ <;> decide +kernel
  have hparent : (superNameOf callingProgram).map binaryName = some "a.Base" := by
    decide +kernel
  obtain ⟨decoded, hparsed, hdecoded⟩ := parse_assemble hstorable
  exact ⟨decoded, hparsed, hdecoded, hdecoded.superName.trans hparent,
    hdecoded.methods.length_eq.symm⟩

end Parse

end Class

end JvmCalls.Assembler

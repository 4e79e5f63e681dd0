import JvmCalls.ClassFile.Basic
import JvmCalls.Proofs.Call.Extraction
import JvmCalls.Proofs.Constant.Resolution
import JvmCalls.Proofs.Constant.RoundTrip

/-!
# The class that a layout describes

A layout is well-formed if its counts and lengths fit their fields and its
indices lead to constants of the kinds that their places ask for.  Such a
layout describes a class: the indices are replaced by the names they lead to,
the code of every body by its instructions, and fields and all attributes that
are no bodies are dropped.  Neither notion mentions how a class is read.
-/

namespace JvmCalls

/-- The index is zero and there is no name, or the index leads to the class of
the name. -/
def ConstantPool.NamesOptionalClass (pool : ConstantPool) (index : UInt16) :
    Option String → Prop
  | none => index = 0
  | some name => index ≠ 0 ∧ pool.NamesClass index name

/-- Whether the constant that an invocation refers to can be followed: from the
call of a method to a method with a descriptor of the right form, from a
dynamic call site to its name and descriptor. -/
structure Instruction.Resolves (pool : ConstantPool) (instruction : Instruction) : Prop where
  method : ∀ index, instruction.operand.constantIndex? = some index →
    instruction.isMethodCall = true →
      ∃ owner name descriptor type, pool.NamesMethod index owner name descriptor ∧
        MethodType.parse descriptor = .ok type
  dynamic : ∀ index, instruction.operand.constantIndex? = some index →
    instruction.opcode.byte = dynamicCallByte →
      ∃ name descriptor, pool.NamesDynamic index name descriptor

def AttributesFit (attributes : List AttributeLayout) : Prop :=
  attributes.length < 0x10000 ∧ ∀ attr ∈ attributes, attr.content.length < 0x100000000

instance (attributes : List AttributeLayout) : Decidable (AttributesFit attributes) :=
  inferInstanceAs (Decidable (_ ∧ _))

structure HandlerLayout.Describes (pool : ConstantPool) (layout : HandlerLayout)
    (handler : Handler) : Prop where
  start : handler.start = layout.start
  finish : handler.finish = layout.finish
  target : handler.target = layout.target
  catchType : pool.NamesOptionalClass layout.catchType handler.catchType

namespace BodyLayout

/-- Whether a body can be stored and its code be disassembled, with all of its
invocations and handlers naming what they should. -/
structure WellFormed (pool : ConstantPool) (body : BodyLayout) : Prop where
  code_ne_nil : body.code ≠ []
  code_fits : body.code.length ≤ Code.maxLength
  instructions : ∃ instructions, Instruction.decodeAll body.code = .ok instructions ∧
    ∀ instruction ∈ instructions, instruction.Resolves pool
  handlers_fit : body.handlers.length < 0x10000
  catchTypes : ∀ handler ∈ body.handlers,
    handler.catchType ≠ 0 → ∃ name, pool.NamesClass handler.catchType name
  attributes_fit : AttributesFit body.attributes

structure Describes (pool : ConstantPool) (body : BodyLayout) (code : Code) : Prop where
  maxStack : code.maxStack = body.maxStack
  maxLocals : code.maxLocals = body.maxLocals
  length : code.length = body.code.length
  instructions : Instruction.decodeAll body.code = .ok code.instructions
  handlers : List.Forall₂ (HandlerLayout.Describes pool) body.handlers code.handlers

end BodyLayout

/-- Whether the attribute holds the body of a method, which its name says. -/
def AttributeLayout.IsBody (pool : ConstantPool) (attr : AttributeLayout) : Prop :=
  pool.Holds attr.name (.utf8 Method.codeAttribute)

instance (pool : ConstantPool) (attr : AttributeLayout) : Decidable (attr.IsBody pool) :=
  inferInstanceAs (Decidable (pool.Holds _ _))

/-- The body among the attributes of a method; none if no attribute is one. -/
def DescribesBody (pool : ConstantPool) (attributes : List AttributeLayout) :
    Option Code → Prop
  | none => ∀ attr ∈ attributes, ¬ attr.IsBody pool
  | some code => ∃ attr ∈ attributes, attr.IsBody pool ∧
      ∃ body : BodyLayout, body.WellFormed pool ∧ attr.content = body.encode ∧
        body.Describes pool code

namespace MemberLayout

/-- Whether a method can be stored, its names are texts, and it has no body or
a single one that is well-formed. -/
structure WellFormed (pool : ConstantPool) (member : MemberLayout) : Prop where
  name : ∃ text, pool.Holds member.name (.utf8 text)
  descriptor : ∃ text, pool.Holds member.descriptor (.utf8 text)
  attributes_fit : AttributesFit member.attributes
  attributeNames : ∀ attr ∈ member.attributes, ∃ text, pool.Holds attr.name (.utf8 text)
  single_body : member.attributes.Pairwise
    (fun left right => left.IsBody pool → ¬ right.IsBody pool)
  bodies : ∀ attr ∈ member.attributes, attr.IsBody pool →
    ∃ body : BodyLayout, body.WellFormed pool ∧ attr.content = body.encode

structure Describes (pool : ConstantPool) (owner : String) (member : MemberLayout)
    (method : Method) : Prop where
  owner : method.owner = owner
  access : method.access.bits = member.access
  name : pool.Holds member.name (.utf8 method.name)
  descriptor : pool.Holds member.descriptor (.utf8 method.descriptor)
  body : DescribesBody pool member.attributes method.code

end MemberLayout

namespace ClassLayout

def pool (layout : ClassLayout) : ConstantPool := .ofList layout.constants

/-- Whether a class can be stored and the indices in it lead to constants of the
right kinds.  Nothing is asked of the names of fields and of attributes outside
methods. -/
structure WellFormed (layout : ClassLayout) : Prop where
  constants_fit : ∀ constant ∈ layout.constants, constant.Fits
  pool_fits : layout.pool.size < 0x10000
  self : ∃ name, layout.pool.NamesClass layout.self name
  parent : layout.parent ≠ 0 → ∃ name, layout.pool.NamesClass layout.parent name
  interfaces_fit : layout.interfaces.length < 0x10000
  interfaces : ∀ index ∈ layout.interfaces, ∃ name, layout.pool.NamesClass index name
  fields_fit : layout.fields.length < 0x10000
  fields : ∀ field ∈ layout.fields, AttributesFit field.attributes
  methods_fit : layout.methods.length < 0x10000
  methods : ∀ method ∈ layout.methods, method.WellFormed layout.pool
  attributes_fit : AttributesFit layout.attributes

/-- The class that its layout describes.  Class names are stored with slashes
and described with dots. -/
structure Describes (layout : ClassLayout) (decoded : ClassFile) : Prop where
  minorVersion : decoded.minorVersion = layout.minorVersion
  majorVersion : decoded.majorVersion = layout.majorVersion
  pool : decoded.pool = layout.pool
  access : decoded.access.bits = layout.access
  name : ∃ stored, layout.pool.NamesClass layout.self stored ∧ decoded.name = binaryName stored
  superName : ∃ stored, layout.pool.NamesOptionalClass layout.parent stored ∧
    decoded.superName = stored.map binaryName
  interfaces : List.Forall₂
    (fun index name => ∃ stored, layout.pool.NamesClass index stored ∧ name = binaryName stored)
    layout.interfaces decoded.interfaces
  fieldCount : decoded.fieldCount = layout.fields.length
  methods : List.Forall₂ (MemberLayout.Describes layout.pool decoded.name)
    layout.methods decoded.methods

end ClassLayout

/-! ## Existence -/

variable {pool : ConstantPool}

theorem ConstantPool.optionalClassName_eq_ok_iff {index : UInt16} {name : Option String} :
    pool.optionalClassName index = .ok name ↔ pool.NamesOptionalClass index name := by
  rw [ConstantPool.optionalClassName]
  by_cases hzero : index = 0
  · rw [if_pos hzero]
    cases name with
    | none => simp [ConstantPool.NamesOptionalClass, hzero]
    | some name => simp [ConstantPool.NamesOptionalClass, hzero]
  · rw [if_neg hzero, Outcome.map_eq_ok_iff]
    cases name with
    | none => simp [ConstantPool.NamesOptionalClass, hzero]
    | some name =>
        simp [ConstantPool.NamesOptionalClass, hzero, ConstantPool.className_eq_ok_iff]

theorem ConstantPool.NamesOptionalClass.exists_namesClass {index : UInt16} {name : Option String}
    (hname : pool.NamesOptionalClass index name) (hnonzero : index ≠ 0) :
    ∃ stored, pool.NamesClass index stored := by
  cases name with
  | none => exact absurd hname hnonzero
  | some stored => exact ⟨stored, hname.2⟩

theorem exists_namesOptionalClass {index : UInt16}
    (hnames : index ≠ 0 → ∃ name, pool.NamesClass index name) :
    ∃ name, pool.NamesOptionalClass index name := by
  by_cases hzero : index = 0
  · exact ⟨none, hzero⟩
  · obtain ⟨name, hname⟩ := hnames hzero
    exact ⟨some name, hzero, hname⟩

theorem BodyLayout.WellFormed.exists_described {body : BodyLayout}
    (hbody : body.WellFormed pool) : ∃ code, body.Describes pool code := by
  obtain ⟨instructions, hdecoded, _⟩ := hbody.instructions
  have hhandler : ∀ layout ∈ body.handlers, ∃ handler, layout.Describes pool handler := by
    intro layout hlayout
    obtain ⟨catchType, hcatchType⟩ := exists_namesOptionalClass (hbody.catchTypes layout hlayout)
    exact ⟨⟨layout.start, layout.finish, layout.target, catchType⟩, rfl, rfl, rfl, hcatchType⟩
  obtain ⟨handlers, hhandlers⟩ := Outcome.exists_forall₂ hhandler
  exact ⟨⟨body.maxStack, body.maxLocals, body.code.length, instructions, handlers⟩,
    rfl, rfl, rfl, hdecoded, hhandlers⟩

theorem MemberLayout.WellFormed.exists_describesBody {member : MemberLayout}
    (hmember : member.WellFormed pool) :
    ∃ code, DescribesBody pool member.attributes code := by
  by_cases hbodyless : ∀ attr ∈ member.attributes, ¬ attr.IsBody pool
  · exact ⟨none, hbodyless⟩
  · push Not at hbodyless
    obtain ⟨attr, hattr, hnamed⟩ := hbodyless
    obtain ⟨body, hbody, hcontent⟩ := hmember.bodies attr hattr hnamed
    obtain ⟨code, hcode⟩ := hbody.exists_described
    exact ⟨some code, attr, hattr, hnamed, body, hbody, hcontent, hcode⟩

theorem MemberLayout.WellFormed.exists_described {member : MemberLayout}
    (hmember : member.WellFormed pool) (owner : String) :
    ∃ method, member.Describes pool owner method := by
  obtain ⟨name, hname⟩ := hmember.name
  obtain ⟨descriptor, hdescriptor⟩ := hmember.descriptor
  obtain ⟨code, hcode⟩ := hmember.exists_describesBody
  exact ⟨⟨owner, name, descriptor, ⟨member.access⟩, code⟩, rfl, rfl, hname, hdescriptor, hcode⟩

/-- A well-formed layout describes a class. -/
theorem ClassLayout.WellFormed.exists_described {layout : ClassLayout}
    (hlayout : layout.WellFormed) : ∃ decoded, layout.Describes decoded := by
  obtain ⟨stored, hself⟩ := hlayout.self
  obtain ⟨parent, hparent⟩ := exists_namesOptionalClass hlayout.parent
  have hinterface : ∀ index ∈ layout.interfaces, ∃ name, ∃ stored,
      layout.pool.NamesClass index stored ∧ name = binaryName stored := by
    intro index hindex
    obtain ⟨stored, hstored⟩ := hlayout.interfaces index hindex
    exact ⟨binaryName stored, stored, hstored, rfl⟩
  obtain ⟨interfaces, hinterfaces⟩ := Outcome.exists_forall₂ hinterface
  obtain ⟨methods, hmethods⟩ := Outcome.exists_forall₂ (fun method hmethod =>
    (hlayout.methods method hmethod).exists_described (binaryName stored))
  exact ⟨{
    minorVersion := layout.minorVersion
    majorVersion := layout.majorVersion
    pool := layout.pool
    access := ⟨layout.access⟩
    name := binaryName stored
    superName := parent.map binaryName
    interfaces
    fieldCount := layout.fields.length
    methods }, rfl, rfl, rfl, rfl, ⟨stored, hself, rfl⟩, ⟨parent, hparent, rfl⟩, hinterfaces,
    rfl, hmethods⟩

end JvmCalls

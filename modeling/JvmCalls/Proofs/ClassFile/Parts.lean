import JvmCalls.Proofs.ClassFile.Described
import JvmCalls.Proofs.Constant.Stored

/-!
# The parts of a class

A class divides into numbers, constants, tables, attributes that are skipped as
a whole, and bodies of methods.  Only an attribute that holds a body may be
longer than what it holds: the bytes behind the body belong to no part.
-/

namespace JvmCalls

open BigEndian

structure BodyLayout.Fits (body : BodyLayout) : Prop where
  code_ne_nil : body.code ≠ []
  code_fits : body.code.length ≤ Code.maxLength
  handlers_fit : body.handlers.length < 0x10000
  attributes_fit : AttributesFit body.attributes

/-- The content of an attribute of a method: passed over as a whole, or a body
and the bytes behind it, which are left unread. -/
inductive ContentParts
  | skipped (content : Bytes)
  | body (layout : BodyLayout) (unread : Bytes)

namespace ContentParts

def encode : ContentParts → Bytes
  | skipped content => content
  | body layout unread => layout.encode ++ unread

/-- The bytes that belong to no part. -/
def unread : ContentParts → Bytes
  | skipped _ => []
  | body _ unread => unread

end ContentParts

structure AttributeParts where
  name : UInt16
  content : ContentParts

namespace AttributeParts

def layout (attr : AttributeParts) : AttributeLayout where
  name := attr.name
  content := attr.content.encode

/-- The attribute is no body, and it is passed over. -/
def IsSkipped (pool : ConstantPool) (attr : AttributeParts) : Prop :=
  ¬ attr.layout.IsBody pool ∧ ∃ content, attr.content = .skipped content

/-- The attribute holds the body that was read as `code`.  The read ends where
the unread bytes start. -/
def IsBodyOf (pool : ConstantPool) (attr : AttributeParts) (code : Code) : Prop :=
  attr.layout.IsBody pool ∧ ∃ body unread, attr.content = .body body unread ∧
    body.Fits ∧ body.Describes pool code ∧
    ∃ stop, Code.decode pool (.start attr.content.encode) = .ok code stop ∧ stop.rest = unread

end AttributeParts

structure MethodParts where
  access : UInt16
  name : UInt16
  descriptor : UInt16
  attributes : List AttributeParts

namespace MethodParts

def layout (method : MethodParts) : MemberLayout where
  access := method.access
  name := method.name
  descriptor := method.descriptor
  attributes := method.attributes.map AttributeParts.layout

def unread (method : MethodParts) : Bytes :=
  method.attributes.flatMap (fun attr => attr.content.unread)

end MethodParts

/-- All attributes are passed over except for one that holds the body. -/
def DescribesParts (pool : ConstantPool) (attributes : List AttributeParts) :
    Option Code → Prop
  | none => ∀ attr ∈ attributes, attr.IsSkipped pool
  | some code => ∃ before attr after, attributes = before ++ attr :: after ∧
      attr.IsBodyOf pool code ∧ ∀ other ∈ before ++ after, other.IsSkipped pool

/-- The method of the class `owner` that was read from the parts. -/
structure MethodParts.Describes (pool : ConstantPool) (owner : String) (parts : MethodParts)
    (method : Method) : Prop where
  owner : method.owner = owner
  access : method.access.bits = parts.access
  name : pool.Holds parts.name (.utf8 method.name)
  descriptor : pool.Holds parts.descriptor (.utf8 method.descriptor)
  body : DescribesParts pool parts.attributes method.code

structure ClassParts where
  minorVersion : UInt16
  majorVersion : UInt16
  constants : List Constant.Stored
  access : UInt16
  self : UInt16
  parent : UInt16
  interfaces : List UInt16
  fields : List MemberLayout
  methods : List MethodParts
  attributes : List AttributeLayout

namespace ClassParts

def pool (parts : ClassParts) : ConstantPool := .ofStored parts.constants

/-- All bytes of the class, those that are left unread included. -/
def encode (parts : ClassParts) : Bytes :=
  digits 4 classMagic.toNat ++
    encodeIndices [parts.minorVersion, parts.majorVersion] ++
    ConstantPool.encodeStored parts.constants ++
    encodeIndices [parts.access, parts.self, parts.parent] ++
    encodeTable Constant.encodeIndex parts.interfaces ++
    encodeTable MemberLayout.encode parts.fields ++
    encodeTable (fun method => method.layout.encode) parts.methods ++
    encodeTable AttributeLayout.encode parts.attributes

def unread (parts : ClassParts) : Bytes :=
  parts.methods.flatMap MethodParts.unread

/-- Whether all counts and lengths fit their fields, so that the parts can be
told from the bytes. -/
structure Fits (parts : ClassParts) : Prop where
  pool : parts.pool.size < 0x10000
  interfaces : parts.interfaces.length < 0x10000
  fields : parts.fields.length < 0x10000 ∧
    ∀ field ∈ parts.fields, AttributesFit field.attributes
  methods : parts.methods.length < 0x10000 ∧
    ∀ method ∈ parts.methods, AttributesFit method.layout.attributes
  attributes : AttributesFit parts.attributes

structure Describes (parts : ClassParts) (decoded : ClassFile) : Prop where
  minorVersion : decoded.minorVersion = parts.minorVersion
  majorVersion : decoded.majorVersion = parts.majorVersion
  pool : decoded.pool = parts.pool
  access : decoded.access.bits = parts.access
  name : ∃ stored, parts.pool.NamesClass parts.self stored ∧ decoded.name = binaryName stored
  superName : ∃ stored, parts.pool.NamesOptionalClass parts.parent stored ∧
    decoded.superName = stored.map binaryName
  interfaces : List.Forall₂
    (fun index name => ∃ stored, parts.pool.NamesClass index stored ∧ name = binaryName stored)
    parts.interfaces decoded.interfaces
  fieldCount : decoded.fieldCount = parts.fields.length
  methods : List.Forall₂ (MethodParts.Describes parts.pool decoded.name)
    parts.methods decoded.methods

/-- The attributes of bodies are exactly as long as the bodies in them. -/
def Exact (parts : ClassParts) : Prop :=
  ∀ method ∈ parts.methods, ∀ attr ∈ method.attributes, ∀ body unread,
    attr.content = .body body unread → attr.layout.content.length = body.encode.length

/-- No byte is left unread exactly if the attributes of bodies are as long as
the bodies. -/
theorem unread_eq_nil_iff {parts : ClassParts} : parts.unread = [] ↔ parts.Exact := by
  have hcontent : ∀ content : ContentParts, content.unread = [] ↔
      ∀ body unread, content = .body body unread →
        content.encode.length = body.encode.length := by
    intro content
    cases content with
    | skipped content => simp [ContentParts.unread]
    | body body unread =>
        constructor
        · rintro hunread _ _ ⟨⟩
          rw [ContentParts.encode, show unread = [] from hunread, List.append_nil]
        · intro hlength
          have hsame := hlength body unread rfl
          rw [ContentParts.encode, List.length_append] at hsame
          have hnone : unread.length = 0 := by omega
          exact List.length_eq_zero_iff.mp hnone
  simp only [unread, MethodParts.unread, List.flatMap_eq_nil_iff, hcontent, Exact,
    AttributeParts.layout]

end ClassParts

end JvmCalls

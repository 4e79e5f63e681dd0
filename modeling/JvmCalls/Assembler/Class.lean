import JvmCalls.Assembler.Body
import JvmCalls.ClassFile.Method

/-!
# Assembling classes

A class is assembled from steps that set its header and add members.  The
names of the class, its superclass and its interfaces become constants last,
when the class is written.
-/

namespace JvmCalls.Assembler

structure Class where
  pool : Pool
  majorVersion : UInt16
  minorVersion : UInt16
  access : ClassAccess
  name : String
  superName : Option String
  interfaces : List String
  fields : Array MemberLayout
  methods : Array MemberLayout
  deriving DecidableEq, Repr

inductive ClassStep
  | version (major minor : UInt16)
  | access (access : ClassAccess)
  | superClass (name : String)
  | noSuper
  | interface (name : String)
  | field (name descriptor : String)
  | abstractMethod (name descriptor : String)
  | method (access : MethodAccess) (name descriptor : String) (body : List BodyStep)
  deriving DecidableEq, Repr

namespace Class

/-- A public class without members, of the given internal name. -/
def start (name : String) : Class where
  pool := Pool.empty
  majorVersion := 52
  minorVersion := 0
  access := ⟨0x0021⟩
  name := name
  superName := some "java/lang/Object"
  interfaces := []
  fields := #[]
  methods := #[]

/-- The access flags of a method unless they are given. -/
def publicAccess : MethodAccess := ⟨0x0001⟩

def member (access : UInt16) (name descriptor : String) : StateM Pool MemberLayout := do
  let name ← Pool.text name
  let descriptor ← Pool.text descriptor
  return { access, name, descriptor, attributes := [] }

/-- A method with a body.  The body has asked for its constants before the
head of the method does. -/
def methodOf (access : MethodAccess) (name descriptor : String) (body : Body) :
    StateM Pool MemberLayout := do
  let head ← member access.bits name descriptor
  let code ← Pool.text Method.codeAttribute
  return { head with attributes := [{ name := code, content := body.layout.encode }] }

/-- Adds a private field. -/
def addField (assembled : Class) (name descriptor : String) : Class :=
  let (field, pool) := (member 0x0002 name descriptor).run assembled.pool
  { assembled with pool, fields := assembled.fields.push field }

/-- Adds a public method without a body. -/
def addAbstractMethod (assembled : Class) (name descriptor : String) : Class :=
  let (method, pool) := (member 0x0401 name descriptor).run assembled.pool
  { assembled with pool, methods := assembled.methods.push method }

def addMethod (assembled : Class) (access : MethodAccess) (name descriptor : String)
    (body : Body) : Class :=
  let (method, pool) := (methodOf access name descriptor body).run body.pool
  { assembled with pool, methods := assembled.methods.push method }

def add (assembled : Class) : ClassStep → Class
  | .version major minor => { assembled with majorVersion := major, minorVersion := minor }
  | .access access => { assembled with access }
  | .superClass name => { assembled with superName := some name }
  | .noSuper => { assembled with superName := none }
  | .interface name => { assembled with interfaces := assembled.interfaces ++ [name] }
  | .field name descriptor => assembled.addField name descriptor
  | .abstractMethod name descriptor => assembled.addAbstractMethod name descriptor
  | .method access name descriptor body =>
      assembled.addMethod access name descriptor ((Body.start assembled.pool).addAll body)

/-- The index of an optional class, zero without one. -/
def optionalClassName : Option String → Request
  | some name => Pool.className name
  | none => return 0

/-- The indices of the class, its superclass and its interfaces. -/
def links (assembled : Class) : StateM Pool (UInt16 × UInt16 × List UInt16) := do
  let self ← Pool.className assembled.name
  let parent ← optionalClassName assembled.superName
  return (self, parent, ← assembled.interfaces.mapM Pool.className)

def layout (assembled : Class) : ClassLayout :=
  let ((self, parent, interfaces), pool) := assembled.links.run assembled.pool
  { minorVersion := assembled.minorVersion
    majorVersion := assembled.majorVersion
    constants := pool.entries.toList
    access := assembled.access.bits
    self
    parent
    interfaces
    fields := assembled.fields.toList
    methods := assembled.methods.toList
    attributes := [] }

def encode (assembled : Class) : Bytes := assembled.layout.encode

/-- The stored form of the class of the given internal name that the steps
assemble. -/
def assemble (name : String) (steps : List ClassStep) : Bytes :=
  (steps.foldl add (start name)).encode

end Class

end JvmCalls.Assembler

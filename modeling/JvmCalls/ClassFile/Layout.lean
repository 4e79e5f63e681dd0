import JvmCalls.Constant.Pool

/-!
# Layouts of class files

A `ClassLayout` describes a class as it is stored: its constants in order, and
everything else by indices into them.  `ClassLayout.encode` writes it, with a
count of two bytes in front of every table and a length of four bytes in front
of the content of every attribute.
-/

namespace JvmCalls

def classMagic : UInt32 := 0xCAFEBABE

/-- A table: the count of its items and the items. -/
def encodeTable {Item : Type} (encode : Item → Bytes) (items : List Item) : Bytes :=
  BigEndian.digits 2 items.length ++ items.flatMap encode

/-- Indices and other numbers of two bytes, one after another. -/
def encodeIndices (numbers : List UInt16) : Bytes :=
  numbers.flatMap Constant.encodeIndex

structure AttributeLayout where
  name : UInt16
  content : Bytes
  deriving DecidableEq, Repr

def AttributeLayout.encode (attr : AttributeLayout) : Bytes :=
  Constant.encodeIndex attr.name ++ BigEndian.digits 4 attr.content.length ++ attr.content

structure MemberLayout where
  access : UInt16
  name : UInt16
  descriptor : UInt16
  attributes : List AttributeLayout
  deriving DecidableEq, Repr

def MemberLayout.encode (member : MemberLayout) : Bytes :=
  encodeIndices [member.access, member.name, member.descriptor] ++
    encodeTable AttributeLayout.encode member.attributes

/-- An exception handler; the class index is zero for all exceptions. -/
structure HandlerLayout where
  start : UInt16
  finish : UInt16
  target : UInt16
  catchType : UInt16
  deriving DecidableEq, Repr

def HandlerLayout.encode (handler : HandlerLayout) : Bytes :=
  encodeIndices [handler.start, handler.finish, handler.target, handler.catchType]

structure BodyLayout where
  maxStack : UInt16
  maxLocals : UInt16
  code : Bytes
  handlers : List HandlerLayout
  attributes : List AttributeLayout
  deriving DecidableEq, Repr

/-- The content of the attribute that holds a body. -/
def BodyLayout.encode (body : BodyLayout) : Bytes :=
  encodeIndices [body.maxStack, body.maxLocals] ++
    BigEndian.digits 4 body.code.length ++ body.code ++
    encodeTable HandlerLayout.encode body.handlers ++
    encodeTable AttributeLayout.encode body.attributes

structure ClassLayout where
  minorVersion : UInt16
  majorVersion : UInt16
  constants : List Constant
  access : UInt16
  self : UInt16
  parent : UInt16
  interfaces : List UInt16
  fields : List MemberLayout
  methods : List MemberLayout
  attributes : List AttributeLayout
  deriving DecidableEq, Repr

def ClassLayout.encode (layout : ClassLayout) : Bytes :=
  BigEndian.digits 4 classMagic.toNat ++
    encodeIndices [layout.minorVersion, layout.majorVersion] ++
    ConstantPool.encode layout.constants ++
    encodeIndices [layout.access, layout.self, layout.parent] ++
    encodeTable Constant.encodeIndex layout.interfaces ++
    encodeTable MemberLayout.encode layout.fields ++
    encodeTable MemberLayout.encode layout.methods ++
    encodeTable AttributeLayout.encode layout.attributes

end JvmCalls

import JvmCalls.Assembler.Pool
import JvmCalls.ClassFile.Layout
import JvmCalls.Descriptor.MethodType
import JvmCalls.Instruction.InvokeKind

/-!
# Assembling method bodies

A body is assembled step by step.  Most steps add one instruction; some only
ask for a constant, and the exception table and the limits are kept beside the
code.
-/

namespace JvmCalls.Assembler

inductive BodyStep
  | text (value : String)
  | className (name : String)
  | methodRef (owner name descriptor : String) (isInterface : Bool)
  | bytes (code : Bytes)
  | op (byte : UInt8)
  | iconst (value : Int8)
  | iload (slot : UInt8)
  | aload (slot : UInt8)
  | pop
  | dup
  | newObject (name : String)
  | invoke (kind : InvokeKind) (owner name descriptor : String)
  | invokeDynamic (name descriptor : String)
  | invokeRaw (byte : UInt8) (index : UInt16)
  | returnVoid
  | ireturn
  | areturn
  | athrow
  | handler (start finish target : UInt16) (catchType : Option String)
  | limits (maxStack maxLocals : UInt16)
  deriving DecidableEq, Repr

/-- A body under assembly, together with the constants of its class. -/
structure Body where
  pool : Pool
  code : Array UInt8
  handlers : Array HandlerLayout
  maxStack : UInt16
  maxLocals : UInt16
  deriving DecidableEq, Repr

namespace Body

/-- The empty body, with the limits it has unless they are set. -/
def start (pool : Pool) : Body where
  pool := pool
  code := #[]
  handlers := #[]
  maxStack := 16
  maxLocals := 16

def emit (body : Body) (bytes : Bytes) : Body :=
  { body with code := body.code ++ bytes }

def request (body : Body) (constant : Request) : UInt16 × Body :=
  let (index, pool) := constant.run body.pool
  (index, { body with pool })

def emitRequest (body : Body) (byte : UInt8) (constant : Request) : Body :=
  let (index, body) := body.request constant
  body.emit (byte :: Constant.encodeIndex index)

def loadConstant (value : Int8) : Bytes :=
  if -1 ≤ value && value ≤ 5 then [(3 + value).toUInt8] else [0x10, value.toUInt8]

/-- The argument count of an interface call: the slots of the parameters and
of the receiver, capped at 255; 1 if the descriptor is none. -/
def argumentCount (descriptor : String) : UInt8 :=
  match MethodType.parse descriptor with
  | .ok type => UInt8.ofNat (min 255 (type.slots + 1))
  | .error _ => 1

def emitInvoke (body : Body) (kind : InvokeKind) (owner name descriptor : String) : Body :=
  let isInterface := kind = .interface
  let called := body.emitRequest kind.byte (Pool.methodRef owner name descriptor isInterface)
  if isInterface then called.emit [argumentCount descriptor, 0] else called

def addHandler (body : Body) (start finish target : UInt16) (catchType : Option String) : Body :=
  let (index, body) :=
    match catchType with
    | some name => body.request (Pool.className name)
    | none => (0, body)
  let handler : HandlerLayout := { start, finish, target, catchType := index }
  { body with handlers := body.handlers.push handler }

/-- Carries out a step that answers nothing. -/
def add (body : Body) : BodyStep → Body
  | .text value => (body.request (Pool.text value)).2
  | .className name => (body.request (Pool.className name)).2
  | .methodRef owner name descriptor isInterface =>
      (body.request (Pool.methodRef owner name descriptor isInterface)).2
  | .bytes code => body.emit code
  | .op byte => body.emit [byte]
  | .iconst value => body.emit (loadConstant value)
  | .iload slot => body.emit [0x15, slot]
  | .aload slot => body.emit [0x19, slot]
  | .pop => body.emit [0x57]
  | .dup => body.emit [0x59]
  | .newObject name => body.emitRequest 0xBB (Pool.className name)
  | .invoke kind owner name descriptor => body.emitInvoke kind owner name descriptor
  | .invokeDynamic name descriptor =>
      (body.emitRequest dynamicCallByte (Pool.invokeDynamic name descriptor)).emit [0, 0]
  | .invokeRaw byte index => body.emit (byte :: Constant.encodeIndex index)
  | .returnVoid => body.emit [0xB1]
  | .ireturn => body.emit [0xAC]
  | .areturn => body.emit [0xB0]
  | .athrow => body.emit [0xBF]
  | .handler start finish target catchType => body.addHandler start finish target catchType
  | .limits maxStack maxLocals => { body with maxStack, maxLocals }

/-- The index a step asks for, if it only asks for a constant. -/
def answer? (body : Body) : BodyStep → Option UInt16
  | .text value => some (body.request (Pool.text value)).1
  | .className name => some (body.request (Pool.className name)).1
  | .methodRef owner name descriptor isInterface =>
      some (body.request (Pool.methodRef owner name descriptor isInterface)).1
  | _ => none

def addAll (body : Body) (steps : List BodyStep) : Body :=
  steps.foldl add body

/-- The layout of the body, which has no attributes of its own. -/
def layout (body : Body) : BodyLayout where
  maxStack := body.maxStack
  maxLocals := body.maxLocals
  code := body.code.toList
  handlers := body.handlers.toList
  attributes := []

end Body

end JvmCalls.Assembler

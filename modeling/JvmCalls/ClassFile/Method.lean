import JvmCalls.ClassFile.Access
import JvmCalls.ClassFile.Code

/-!
# Methods

A method has a name, a descriptor, access flags and attributes, of which only
the body is kept.
-/

namespace JvmCalls

structure Method where
  owner : String
  name : String
  descriptor : String
  access : MethodAccess
  code : Option Code
  deriving DecidableEq, Repr

namespace Method

def codeAttribute : String := "Code"

/-- The instructions of the body; none without a body. -/
def instructions (method : Method) : List Instruction :=
  match method.code with
  | some code => code.instructions
  | none => []

/-- Reads one attribute of a method; `method` is what was read before it.  A
body is read by a cursor of its own and may be followed by other bytes inside
its attribute. -/
def decodeAttribute (pool : ConstantPool) (method : Method) : Decoder Method := do
  let name ← Decoder.ofExcept (pool.text (← Decoder.uint16))
  let length ← Decoder.uint32
  let body ← Decoder.bytes length.toNat
  if name = codeAttribute then
    match method.code with
    | some _ =>
        Decoder.malformed (.repeatedCode method.owner method.name method.descriptor)
    | none => return { method with code := some (← Decoder.within body (Code.decode pool)) }
  else
    return method

def decodeAttributes (pool : ConstantPool) : (count : Nat) → Method → Decoder Method
  | 0, method => return method
  | count + 1, method => do decodeAttributes pool count (← decodeAttribute pool method)

def decode (pool : ConstantPool) (owner : String) : Decoder Method := do
  let access ← Decoder.uint16
  let name ← Decoder.ofExcept (pool.text (← Decoder.uint16))
  let descriptor ← Decoder.ofExcept (pool.text (← Decoder.uint16))
  let count ← Decoder.uint16
  decodeAttributes pool count.toNat
    { owner, name, descriptor, access := ⟨access⟩, code := none }

end Method

end JvmCalls

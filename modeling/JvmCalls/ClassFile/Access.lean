/-!
# Access flags

Classes and methods carry sixteen bits of access flags.  Unknown bits are
kept; the known ones have names.
-/

namespace JvmCalls

/-- The names of the flags whose bits are set, in the order of `flags`. -/
def flagNames (flags : List (UInt16 × String)) (bits : UInt16) : List String :=
  (flags.filter (fun flag => bits &&& flag.1 != 0)).map Prod.snd

structure ClassAccess where
  bits : UInt16
  deriving DecidableEq, Repr

namespace ClassAccess

/-- The known flags of a class, in ascending order of their bits. -/
def flags : List (UInt16 × String) :=
  [(0x0001, "PUBLIC"), (0x0010, "FINAL"), (0x0020, "SUPER"), (0x0200, "INTERFACE"),
    (0x0400, "ABSTRACT"), (0x1000, "SYNTHETIC"), (0x2000, "ANNOTATION"), (0x4000, "ENUM"),
    (0x8000, "MODULE")]

def names (access : ClassAccess) : List String := flagNames flags access.bits

end ClassAccess

structure MethodAccess where
  bits : UInt16
  deriving DecidableEq, Repr

namespace MethodAccess

def flags : List (UInt16 × String) :=
  [(0x0001, "PUBLIC"), (0x0002, "PRIVATE"), (0x0004, "PROTECTED"), (0x0008, "STATIC"),
    (0x0010, "FINAL"), (0x0020, "SYNCHRONIZED"), (0x0040, "BRIDGE"), (0x0080, "VARARGS"),
    (0x0100, "NATIVE"), (0x0400, "ABSTRACT"), (0x0800, "STRICT"), (0x1000, "SYNTHETIC")]

def names (access : MethodAccess) : List String := flagNames flags access.bits

/-- Whether the method is declared without a body: abstract or native. -/
def isBodyless (access : MethodAccess) : Bool := access.bits &&& 0x0500 != 0

end MethodAccess

end JvmCalls

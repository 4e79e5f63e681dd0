import JvmCalls.Constant.Pool

/-!
# Interned constants

While a class is assembled its constants are collected in the order in which
they are first asked for.  Asking again for a constant gives the index it
already has, so that indices written earlier keep their meaning while the pool
grows.
-/

namespace JvmCalls.Assembler

/-- The constants collected so far; the first one has index 1. -/
structure Pool where
  entries : Array Constant
  deriving DecidableEq, Repr

abbrev Request := StateM Pool UInt16

namespace Pool

def empty : Pool := { entries := #[] }

/-- The index the next new constant gets, which is also the count of slots. -/
def next (pool : Pool) : UInt16 := UInt16.ofNat (pool.entries.size + 1)

/-- The layouts of all constants, one after another. -/
def data (pool : Pool) : Bytes := pool.entries.toList.flatMap Constant.encode

/-- The index of a constant, which is added if it is new. -/
def intern (entry : Constant) : Request := fun pool =>
  match pool.entries.idxOf? entry with
  | some position => (UInt16.ofNat (position + 1), pool)
  | none => (pool.next, { entries := pool.entries.push entry })

def text (value : String) : Request :=
  intern (.utf8 value)

/-- The index of a class by its internal name. -/
def className (name : String) : Request := do
  intern (.classRef (← text name))

def nameAndType (name descriptor : String) : Request := do
  let name ← text name
  let descriptor ← text descriptor
  intern (.nameAndType name descriptor)

def methodRef (owner name descriptor : String) (isInterface : Bool) : Request := do
  let owner ← className owner
  let member ← nameAndType name descriptor
  if isInterface then
    intern (.interfaceMethodRef owner member)
  else
    intern (.methodRef owner member)

/-- The index of a dynamic call site with the first bootstrap method. -/
def invokeDynamic (name descriptor : String) : Request := do
  let member ← nameAndType name descriptor
  intern (.invokeDynamic 0 member)

end Pool

end JvmCalls.Assembler

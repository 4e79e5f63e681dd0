import JvmCalls.Constant.Basic

/-!
# The constant pool

The pool is a list of slots.  Slot 0 holds nothing, every constant takes the
next slot, and an eight-byte constant leaves the slot behind its own empty.
The resolution functions follow the indices from a slot to the names and
descriptors it stands for.
-/

namespace JvmCalls

/-- The slots of a class; a slot without a constant is unusable. -/
structure ConstantPool where
  slots : Array (Option Constant)
  deriving DecidableEq, Repr

structure NameAndType where
  name : String
  descriptor : String
  deriving DecidableEq, Repr

structure MethodRef where
  owner : String
  name : String
  descriptor : String
  isInterface : Bool
  deriving DecidableEq, Repr

namespace ConstantPool

/-- The count of slots, the reserved one included. -/
def size (pool : ConstantPool) : Nat := pool.slots.size

/-- Whether no slot besides the reserved one exists. -/
def isEmpty (pool : ConstantPool) : Bool := pool.size ≤ 1

def slot? (pool : ConstantPool) (index : UInt16) : Option (Option Constant) :=
  pool.slots[index.toNat]?

/-- The constants with their slots, in ascending order. -/
def entries (pool : ConstantPool) : List (Nat × Constant) :=
  pool.slots.toList.zipIdx.filterMap (fun entry =>
    entry.1.map (fun constant => (entry.2, constant)))

/-! ## Layout -/

/-- Reads the constants of the `remaining` slots from `index` on; `slots` are
the slots before them. -/
def decodeSlots (index : Nat) : (remaining : Nat) → (slots : Array (Option Constant)) →
    Decoder (Array (Option Constant))
  | 0, slots => return slots
  | remaining + 1, slots => do
      let constant ← Constant.decode index
      if constant.isWide then
        match remaining with
        | 0 => Decoder.malformed (.overrunningConstant index)
        | remaining + 1 =>
            decodeSlots (index + 2) remaining ((slots.push (some constant)).push none)
      else
        decodeSlots (index + 1) remaining (slots.push (some constant))

def decode : Decoder ConstantPool := do
  let count ← Decoder.uint16
  match count.toNat with
  | 0 => Decoder.malformed .emptyPool
  | remaining + 1 => return { slots := ← decodeSlots 1 remaining #[none] }

def slotsOf (constant : Constant) : List (Option Constant) :=
  if constant.isWide then [some constant, none] else [some constant]

/-- The pool that holds the constants in order. -/
def ofList (constants : List Constant) : ConstantPool where
  slots := (none :: constants.flatMap slotsOf).toArray

/-- The layout of the pool that holds the constants in order. -/
def encode (constants : List Constant) : Bytes :=
  BigEndian.digits 2 (ofList constants).size ++ constants.flatMap Constant.encode

/-! ## Resolution -/

def constant (pool : ConstantPool) (index : UInt16) : Except Defect Constant :=
  match pool.slot? index with
  | some (some constant) => .ok constant
  | _ => .error (.unusableConstant index)

def text (pool : ConstantPool) (index : UInt16) : Except Defect String := do
  match ← pool.constant index with
  | .utf8 text => return text
  | other => throw (.unexpectedConstant index other.tag .utf8)

def className (pool : ConstantPool) (index : UInt16) : Except Defect String := do
  match ← pool.constant index with
  | .classRef name => pool.text name
  | other => throw (.unexpectedConstant index other.tag .classRef)

def nameAndType (pool : ConstantPool) (index : UInt16) : Except Defect NameAndType := do
  match ← pool.constant index with
  | .nameAndType name descriptor =>
      return { name := ← pool.text name, descriptor := ← pool.text descriptor }
  | other => throw (.unexpectedConstant index other.tag .nameAndType)

def linkedMethod (pool : ConstantPool) (owner nameAndType : UInt16) (isInterface : Bool) :
    Except Defect MethodRef := do
  let owner ← pool.className owner
  let member ← pool.nameAndType nameAndType
  return { owner, name := member.name, descriptor := member.descriptor, isInterface }

/-- The method of a method constant, declared in a class or an interface. -/
def methodRef (pool : ConstantPool) (index : UInt16) : Except Defect MethodRef := do
  match ← pool.constant index with
  | .methodRef owner nameAndType => pool.linkedMethod owner nameAndType false
  | .interfaceMethodRef owner nameAndType => pool.linkedMethod owner nameAndType true
  | other => throw (.unexpectedConstant index other.tag .methodRef)

def invokeDynamic (pool : ConstantPool) (index : UInt16) : Except Defect NameAndType := do
  match ← pool.constant index with
  | .invokeDynamic _ nameAndType => pool.nameAndType nameAndType
  | other => throw (.unexpectedConstant index other.tag .invokeDynamic)

end ConstantPool

end JvmCalls

/-!
# Constant tags

A constant pool entry starts with one byte that names its kind.  The byte and
the kind determine each other, which `Tag.ofCode?_eq_some_iff` states.
-/

namespace JvmCalls.Constant

inductive Tag
  | utf8
  | integer
  | float
  | long
  | double
  | classRef
  | string
  | fieldRef
  | methodRef
  | interfaceMethodRef
  | nameAndType
  | methodHandle
  | methodType
  | dynamic
  | invokeDynamic
  | moduleRef
  | packageRef
  deriving DecidableEq, Repr

namespace Tag

def code : Tag → UInt8
  | utf8 => 1
  | integer => 3
  | float => 4
  | long => 5
  | double => 6
  | classRef => 7
  | string => 8
  | fieldRef => 9
  | methodRef => 10
  | interfaceMethodRef => 11
  | nameAndType => 12
  | methodHandle => 15
  | methodType => 16
  | dynamic => 17
  | invokeDynamic => 18
  | moduleRef => 19
  | packageRef => 20

/-- Every kind, in the order of the tag bytes. -/
def all : List Tag :=
  [utf8, integer, float, long, double, classRef, string, fieldRef, methodRef,
    interfaceMethodRef, nameAndType, methodHandle, methodType, dynamic,
    invokeDynamic, moduleRef, packageRef]

/-- The kind a byte stands for; the remaining bytes are unassigned. -/
def ofCode? (byte : UInt8) : Option Tag :=
  all.find? (fun tag => tag.code == byte)

def name : Tag → String
  | utf8 => "Utf8"
  | integer => "Integer"
  | float => "Float"
  | long => "Long"
  | double => "Double"
  | classRef => "Class"
  | string => "String"
  | fieldRef => "Fieldref"
  | methodRef => "Methodref"
  | interfaceMethodRef => "InterfaceMethodref"
  | nameAndType => "NameAndType"
  | methodHandle => "MethodHandle"
  | methodType => "MethodType"
  | dynamic => "Dynamic"
  | invokeDynamic => "InvokeDynamic"
  | moduleRef => "Module"
  | packageRef => "Package"

@[simp]
theorem ofCode?_code (tag : Tag) : ofCode? tag.code = some tag := by
  cases tag <;> rfl

theorem code_eq_of_ofCode? {byte : UInt8} {tag : Tag} (hfound : ofCode? byte = some tag) :
    tag.code = byte := by
  simpa using List.find?_some hfound

/-- A byte is read as exactly the kind that is written as this byte. -/
theorem ofCode?_eq_some_iff {byte : UInt8} {tag : Tag} :
    ofCode? byte = some tag ↔ tag.code = byte :=
  ⟨code_eq_of_ofCode?, fun hcode => hcode ▸ ofCode?_code tag⟩

end Tag

end JvmCalls.Constant

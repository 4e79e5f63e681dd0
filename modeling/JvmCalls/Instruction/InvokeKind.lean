import JvmCalls.Instruction.Basic

/-!
# Kinds of invocations

Four opcodes call a method that the constant pool names.  A dynamic call site
has no such method and is no invocation kind.
-/

namespace JvmCalls

inductive InvokeKind
  | virtual
  | special
  | static
  | interface
  deriving DecidableEq, Repr

namespace InvokeKind

/-- Every kind, in the order of the opcodes. -/
def all : List InvokeKind := [virtual, special, static, interface]

def byte : InvokeKind → UInt8
  | virtual => 0xB6
  | special => 0xB7
  | static => 0xB8
  | interface => 0xB9

/-- The kind an opcode byte calls with. -/
def ofByte? (byte : UInt8) : Option InvokeKind :=
  all.find? (fun kind => kind.byte == byte)

def name : InvokeKind → String
  | virtual => "virtual"
  | special => "special"
  | static => "static"
  | interface => "interface"

@[simp]
theorem ofByte?_byte (kind : InvokeKind) : ofByte? kind.byte = some kind := by
  cases kind <;> rfl

theorem ofByte?_eq_some_iff {byte : UInt8} {kind : InvokeKind} :
    ofByte? byte = some kind ↔ kind.byte = byte :=
  ⟨fun hfound => by simpa using List.find?_some hfound, fun hbyte => hbyte ▸ ofByte?_byte kind⟩

end InvokeKind

/-- The opcode byte of a dynamic call site. -/
def dynamicCallByte : UInt8 := 0xBA

end JvmCalls

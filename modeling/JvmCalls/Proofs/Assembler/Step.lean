import JvmCalls.Assembler.Body
import JvmCalls.Proofs.Assembler.Pool
import JvmCalls.Proofs.ClassFile.Described
import JvmCalls.Proofs.Instruction.RoundTrip

/-!
# The instruction of a step

Each step of the assembly of a body adds one instruction or none.  What the
instruction has to say is stated here by the operands that the step was given,
and by what the index of its constant leads to; how the instruction is stored
is a layout that can stand at any offset.
-/

namespace JvmCalls.Assembler

open BigEndian

/-! ## Programs -/

/-- The setting that the steps make last, or else the given one. -/
def lastOf {Step Setting : Type} (setting? : Step → Option Setting) (initial : Setting)
    (steps : List Step) : Setting :=
  (steps.filterMap setting?).getLastD initial

section LastOf

variable {Step Setting : Type} (setting? : Step → Option Setting) (initial : Setting)

theorem lastOf_concat (steps : List Step) (step : Step) :
    lastOf setting? initial (steps ++ [step]) =
      (setting? step).getD (lastOf setting? initial steps) := by
  rw [lastOf, List.filterMap_append]
  cases hsetting : setting? step with
  | none => simp [lastOf, hsetting]
  | some setting =>
      have hsingle : List.filterMap setting? [step] = [setting] := by simp [hsetting]
      rw [hsingle, List.getLastD_concat]
      rfl

/-- The last setting was made by one of the steps or by none of them. -/
theorem lastOf_eq_or (steps : List Step) :
    lastOf setting? initial steps = initial ∨
      ∃ step ∈ steps, setting? step = some (lastOf setting? initial steps) := by
  rw [lastOf]
  cases hsettings : steps.filterMap setting? with
  | nil => exact Or.inl rfl
  | cons setting settings =>
      have hmem : (setting :: settings).getLastD initial ∈ setting :: settings := by
        rw [List.getLastD_cons]
        exact List.getLastD_mem_cons
      rw [← hsettings] at hmem ⊢
      exact Or.inr (List.mem_filterMap.mp hmem)

end LastOf

namespace BodyStep

/-- Whether the step leaves the choice of all bytes to the assembler. -/
def isHighLevel : BodyStep → Bool
  | bytes _ | op _ | invokeRaw .. => false
  | _ => true

def emits : BodyStep → Bool
  | iconst _ | iload _ | aload _ | pop | dup | newObject _ | invoke .. | invokeDynamic ..
  | returnVoid | ireturn | areturn | athrow => true
  | _ => false

/-- Whether the number has an instruction of its own. -/
def IsTiny (value : Int8) : Prop := -1 ≤ value.toInt ∧ value.toInt ≤ 5

instance (value : Int8) : Decidable (IsTiny value) :=
  inferInstanceAs (Decidable (_ ∧ _))

def size : BodyStep → Nat
  | iconst value => if IsTiny value then 1 else 2
  | iload _ | aload _ => 2
  | newObject _ => 3
  | invoke kind .. => if kind = .interface then 5 else 3
  | invokeDynamic .. => 5
  | pop | dup | returnVoid | ireturn | areturn | athrow => 1
  | text _ | className _ | methodRef .. | bytes _ | op _ | invokeRaw .. | handler ..
  | limits .. => 0

def texts : BodyStep → List String
  | text value => [value]
  | className name | newObject name => [name]
  | methodRef owner name descriptor _ | invoke _ owner name descriptor =>
      [owner, name, descriptor]
  | invokeDynamic name descriptor => [name, descriptor]
  | handler _ _ _ (some name) => [name]
  | _ => []

def calls? : BodyStep → Option String
  | invoke _ _ _ descriptor => some descriptor
  | _ => none

def handler? : BodyStep → Option Handler
  | handler start finish target catchType => some { start, finish, target, catchType }
  | _ => none

def limits? : BodyStep → Option (UInt16 × UInt16)
  | limits maxStack maxLocals => some (maxStack, maxLocals)
  | _ => none

/-- Whether an opcode and an operand say what the step asks for.  A small
number has its own opcode and other numbers are immediate.  An index leads to
the given names, and the argument count of an interface call is one more than
the slots of the parameters, but not above 255. -/
def Means (pool : ConstantPool) (opcode : Opcode) (operand : Operand) : BodyStep → Prop
  | iconst value =>
      if IsTiny value then (opcode.byte.toNat : Int) = 3 + value.toInt ∧ operand = .empty
      else opcode.byte = 0x10 ∧ operand = .immediate value.toInt32
  | iload slot => opcode.byte = 0x15 ∧ operand = .slot slot.toUInt16
  | aload slot => opcode.byte = 0x19 ∧ operand = .slot slot.toUInt16
  | pop => opcode.byte = 0x57 ∧ operand = .empty
  | dup => opcode.byte = 0x59 ∧ operand = .empty
  | newObject name => opcode.byte = 0xBB ∧
      ∃ index, operand = .constant index ∧ pool.NamesClass index name
  | invoke kind owner name descriptor => opcode.byte = kind.byte ∧
      ∃ index type, MethodType.parse descriptor = .ok type ∧
        pool.methodRef index =
          .ok { owner, name, descriptor, isInterface := kind = .interface } ∧
        if kind = .interface then
          ∃ count : UInt8, operand = .interfaceCall index count ∧
            count.toNat = min 255 (1 + type.slots)
        else operand = .constant index
  | invokeDynamic name descriptor => opcode.byte = dynamicCallByte ∧
      ∃ index, operand = .constant index ∧ pool.NamesDynamic index name descriptor
  | returnVoid => opcode.byte = 0xB1 ∧ operand = .empty
  | ireturn => opcode.byte = 0xAC ∧ operand = .empty
  | areturn => opcode.byte = 0xB0 ∧ operand = .empty
  | athrow => opcode.byte = 0xBF ∧ operand = .empty
  | text _ | className _ | methodRef .. | bytes _ | op _ | invokeRaw .. | handler ..
  | limits .. => False

structure DecodesTo (pool : ConstantPool) (step : BodyStep) (instruction : Instruction) :
    Prop where
  size : instruction.size = step.size
  narrow : instruction.wide = false
  means : step.Means pool instruction.opcode instruction.operand

/-- The instruction of the step has the layout, at whatever offset. -/
structure LaidOut (pool : ConstantPool) (step : BodyStep) (layout : InstructionLayout) :
    Prop where
  fits : ∀ offset, layout.Fits offset
  size : layout.encode.length = step.size
  narrow : layout.wide = false
  means : step.Means pool layout.opcode layout.operand

def Stores (pool : ConstantPool) (step : BodyStep) (bytes : Bytes) : Prop :=
  ∃ layout : InstructionLayout, layout.encode = bytes ∧ step.LaidOut pool layout

theorem LaidOut.decodesTo {pool : ConstantPool} {step : BodyStep} {layout : InstructionLayout}
    (hlayout : step.LaidOut pool layout) (offset : Nat) :
    step.DecodesTo pool (layout.toInstruction offset) :=
  ⟨hlayout.size, hlayout.narrow, hlayout.means⟩

theorem resolves_of_no_index {pool : ConstantPool} {instruction : Instruction}
    (hnone : instruction.operand.constantIndex? = none) : instruction.Resolves pool := by
  constructor <;> intro index hindex <;> rw [hnone] at hindex <;> cases hindex

/-- An instruction that is no call of a method resolves if its dynamic call
site does. -/
theorem resolves_of_not_isMethodCall {pool : ConstantPool} {instruction : Instruction}
    (hkind : InvokeKind.ofByte? instruction.opcode.byte = none)
    (hdynamic : ∀ index, instruction.operand.constantIndex? = some index →
      instruction.opcode.byte = dynamicCallByte →
        ∃ name descriptor, pool.NamesDynamic index name descriptor) :
    instruction.Resolves pool := by
  refine ⟨fun index _ hcall => ?_, hdynamic⟩
  obtain ⟨kind, hfound⟩ := Instruction.isMethodCall_iff.mp hcall
  rw [hkind] at hfound
  cases hfound

/-- What a step asks for can be followed from its instruction: only three steps
add an index, and each asks for the constant it leads to. -/
theorem DecodesTo.resolves {pool : ConstantPool} {step : BodyStep} {instruction : Instruction}
    (hinstruction : step.DecodesTo pool instruction) : instruction.Resolves pool := by
  have hmeans := hinstruction.means
  cases step with
  | iconst value =>
      simp only [Means] at hmeans
      split at hmeans <;> exact resolves_of_no_index (by rw [hmeans.2]; rfl)
  | iload | aload | pop | dup | returnVoid | ireturn | areturn | athrow =>
      exact resolves_of_no_index (by rw [hmeans.2]; rfl)
  | newObject name =>
      refine resolves_of_not_isMethodCall (by rw [hmeans.1]; decide) (fun index _ hbyte => ?_)
      rw [hmeans.1] at hbyte
      exact absurd hbyte (by decide)
  | invokeDynamic name descriptor =>
      obtain ⟨hbyte, index, hoperand, hnames⟩ := hmeans
      refine resolves_of_not_isMethodCall (by rw [hbyte]; decide) (fun found hfound _ => ?_)
      rw [hoperand] at hfound
      cases hfound
      exact ⟨name, descriptor, hnames⟩
  | invoke kind owner name descriptor =>
      obtain ⟨hbyte, index, type, htype, hmethod, hoperand⟩ := hmeans
      have hindex : instruction.operand.constantIndex? = some index := by
        split at hoperand
        · obtain ⟨count, hoperand, _⟩ := hoperand
          rw [hoperand]
          rfl
        · rw [hoperand]
          rfl
      constructor
      · intro found hfound _
        cases hindex.symm.trans hfound
        exact ⟨owner, name, descriptor, type, ConstantPool.namesMethod_iff.mpr ⟨_, hmethod⟩, htype⟩
      · intro found _ hdynamic
        rw [hbyte] at hdynamic
        cases kind <;> exact absurd hdynamic (by decide)
  | text | className | methodRef | bytes | op | invokeRaw | handler | limits =>
      exact hmeans.elim

/-! ## Layouts -/

section Layouts

variable {pool : ConstantPool} {step : BodyStep} {kind : OperandKind} {bytes : Bytes}

/-- A narrow instruction is its opcode byte and its operand. -/
theorem stores_of_means (opcode : Opcode) (operand : Operand) (ignored : Bytes)
    (hkind : opcode.info.operand = kind) (hoperand : operand.Fits false kind)
    (hignored : ∀ offset, ignored.length = kind.ignoredCount offset)
    (hbytes : opcode.byte :: operand.encode false ignored kind = bytes)
    (hsize : bytes.length = step.size) (hmeans : step.Means pool opcode operand) :
    step.Stores pool bytes := by
  subst hkind
  have hencode : (⟨opcode, false, operand, ignored⟩ : InstructionLayout).encode = bytes := by
    rw [← hbytes]
    rfl
  refine ⟨⟨opcode, false, operand, ignored⟩, hencode, ?_, hencode ▸ hsize, rfl, hmeans⟩
  intro offset
  exact ⟨nofun, hoperand, hignored _⟩

/-- An instruction without operand is its opcode byte. -/
theorem stores_of_empty (opcode : Opcode) (hkind : opcode.info.operand = .empty)
    (hsize : step.size = 1) (hmeans : step.Means pool opcode .empty) :
    step.Stores pool [opcode.byte] :=
  stores_of_means opcode .empty [] hkind trivial (fun _ => rfl) rfl hsize.symm hmeans

/-- An instruction with an index of the pool as its operand. -/
theorem stores_of_constant (opcode : Opcode) (index : UInt16)
    (hkind : opcode.info.operand = .constant16) (hsize : step.size = 3)
    (hmeans : step.Means pool opcode (.constant index)) :
    step.Stores pool (opcode.byte :: Constant.encodeIndex index) := by
  refine stores_of_means opcode (.constant index) [] hkind trivial (fun _ => rfl) rfl ?_ hmeans
  simp [hsize, Constant.encodeIndex]

/-- A load from a local slot. -/
theorem stores_of_slot (opcode : Opcode) (slot : UInt8) (hkind : opcode.info.operand = .slot)
    (hsize : step.size = 2) (hmeans : step.Means pool opcode (.slot slot.toUInt16)) :
    step.Stores pool [opcode.byte, slot] := by
  refine stores_of_means opcode (.slot slot.toUInt16) [] hkind slot.toNat_lt (fun _ => rfl) ?_
    hsize.symm hmeans
  rw [Operand.encode, Operand.slotWidth, if_neg Bool.false_ne_true, UInt8.toNat_toUInt16,
    digits_one]

theorem isTiny_iff {value : Int8} : (-1 ≤ value && value ≤ 5) = true ↔ IsTiny value := by
  rw [Bool.and_eq_true, decide_eq_true_eq, decide_eq_true_eq, Int8.le_iff_toInt_le,
    Int8.le_iff_toInt_le]
  rfl

/-- A tiny number is loaded by the opcode whose byte is three more. -/
theorem stores_tiny (value : Int8) (opcode : Opcode) (htiny : IsTiny value)
    (hcode : Body.loadConstant value = [opcode.byte])
    (hnumber : (opcode.byte.toNat : Int) = 3 + value.toInt)
    (hkind : opcode.info.operand = .empty) :
    (iconst value).Stores pool (Body.loadConstant value) := by
  rw [hcode]
  refine stores_of_empty opcode hkind (if_pos htiny) ?_
  rw [Means, if_pos htiny]
  exact ⟨hnumber, rfl⟩

theorem stores_iconst (value : Int8) :
    (iconst value).Stores pool (Body.loadConstant value) := by
  by_cases htiny : IsTiny value
  · have hvalues : value = -1 ∨ value = 0 ∨ value = 1 ∨ value = 2 ∨ value = 3 ∨ value = 4 ∨
        value = 5 := by
      simp only [← Int8.toInt_inj]
      obtain ⟨hlow, hhigh⟩ := htiny
      change value.toInt = -1 ∨ value.toInt = 0 ∨ value.toInt = 1 ∨ value.toInt = 2 ∨
        value.toInt = 3 ∨ value.toInt = 4 ∨ value.toInt = 5
      omega
    rcases hvalues with rfl | rfl | rfl | rfl | rfl | rfl | rfl
    · exact stores_tiny _ ⟨2, by decide⟩ htiny rfl rfl rfl
    · exact stores_tiny _ ⟨3, by decide⟩ htiny rfl rfl rfl
    · exact stores_tiny _ ⟨4, by decide⟩ htiny rfl rfl rfl
    · exact stores_tiny _ ⟨5, by decide⟩ htiny rfl rfl rfl
    · exact stores_tiny _ ⟨6, by decide⟩ htiny rfl rfl rfl
    · exact stores_tiny _ ⟨7, by decide⟩ htiny rfl rfl rfl
    · exact stores_tiny _ ⟨8, by decide⟩ htiny rfl rfl rfl
  · have hbytes : Body.loadConstant value = [0x10, value.toUInt8] := by
      rw [Body.loadConstant, if_neg (fun hcode => htiny (isTiny_iff.mp hcode))]
    have hkind : (⟨0x10, by decide⟩ : Opcode).info.operand = .int8 := rfl
    rw [hbytes]
    refine stores_of_means ⟨0x10, by decide⟩ (.immediate value.toInt32) [] hkind ?_ (fun _ => rfl)
      ?_ (if_neg htiny).symm ?_
    · have hlow := value.le_toInt
      have hhigh := value.toInt_lt
      rw [Operand.Fits, Int8.toInt_toInt32, Operand.FitsSigned]
      change -256 ≤ _ ∧ _ < (256 : Int)
      omega
    · rw [Operand.encode, Operand.encodeSigned_int8, digits_one]
    · rw [Means, if_neg htiny]
      exact ⟨rfl, rfl⟩

theorem stores_newObject {index : UInt16} {name : String}
    (hname : pool.NamesClass index name) :
    (newObject name).Stores pool (0xBB :: Constant.encodeIndex index) :=
  stores_of_constant ⟨0xBB, by decide⟩ index rfl rfl ⟨rfl, index, rfl, hname⟩

theorem stores_invokeDynamic {index : UInt16} {name descriptor : String}
    (hsite : pool.NamesDynamic index name descriptor) :
    (invokeDynamic name descriptor).Stores pool
      (dynamicCallByte :: Constant.encodeIndex index ++ [0, 0]) := by
  refine stores_of_means ⟨dynamicCallByte, by decide⟩ (.constant index) [0, 0] rfl trivial
    (fun _ => rfl) rfl ?_ ⟨rfl, index, rfl, hsite⟩
  simp [size, Constant.encodeIndex]

/-- A call of a method of a class. -/
theorem stores_invoke {index : UInt16} {callKind : InvokeKind} {owner name descriptor : String}
    {type : MethodType} (hclass : callKind ≠ .interface)
    (htype : MethodType.parse descriptor = .ok type)
    (hmethod : pool.methodRef index =
      .ok { owner, name, descriptor, isInterface := callKind = .interface }) :
    (invoke callKind owner name descriptor).Stores pool
      (callKind.byte :: Constant.encodeIndex index) := by
  have hbyte : callKind.byte.toNat < 0xCA := by cases callKind <;> decide
  have hoperand : (⟨callKind.byte, hbyte⟩ : Opcode).info.operand = .constant16 := by
    cases callKind with
    | interface => exact absurd rfl hclass
    | virtual | special | static => rfl
  refine stores_of_constant ⟨callKind.byte, hbyte⟩ index hoperand (if_neg hclass) ?_
  refine ⟨rfl, index, type, htype, hmethod, ?_⟩
  rw [if_neg hclass]

theorem toNat_argumentCount {descriptor : String} {type : MethodType}
    (htype : MethodType.parse descriptor = .ok type) :
    (Body.argumentCount descriptor).toNat = min 255 (1 + type.slots) := by
  have hcapped : min 255 (type.slots + 1) < 256 := by omega
  rw [Body.argumentCount, htype, Nat.add_comm 1]
  exact UInt8.toNat_ofNat_of_lt' hcapped

/-- A call of a method of an interface, with its argument count. -/
theorem stores_invoke_interface {index : UInt16} {owner name descriptor : String}
    {type : MethodType} (htype : MethodType.parse descriptor = .ok type)
    (hmethod : pool.methodRef index = .ok { owner, name, descriptor, isInterface := true }) :
    (invoke .interface owner name descriptor).Stores pool
      (InvokeKind.interface.byte :: Constant.encodeIndex index ++
        [Body.argumentCount descriptor, 0]) := by
  refine stores_of_means ⟨InvokeKind.interface.byte, by decide⟩
    (.interfaceCall index (Body.argumentCount descriptor)) [0] rfl trivial (fun _ => rfl) rfl ?_ ?_
  · simp [size, Constant.encodeIndex]
  · exact ⟨rfl, index, type, htype, hmethod, _, rfl, toNat_argumentCount htype⟩

end Layouts

end BodyStep

end JvmCalls.Assembler

import JvmCalls.ClassFile.Basic
import JvmCalls.Proofs.Instruction.Stream
import JvmCalls.Proofs.Outcome

/-!
# Parsed classes

A class that was parsed holds what its tables were read for: the instructions
of every body are those of its code, and every invocation among them names a
method with a descriptor of the right form.  The second fact needs the first
one, because the check of a class passes over instructions without a constant
pool index, and only a disassembled invocation is known to have one.
-/

namespace JvmCalls

open Decoder

/-- The instructions of the body are those of some code of the recorded
length. -/
def Code.IsDisassembled (code : Code) : Prop :=
  ∃ content : Bytes, content.length = code.length ∧
    Instruction.decodeAll content = .ok code.instructions

def Method.IsDisassembled (method : Method) : Prop :=
  ∀ code, method.code = some code → code.IsDisassembled

theorem Code.ensures_instructionsOf (content : Bytes) :
    Ensures (instructionsOf content)
      (fun instructions => Instruction.decodeAll content = .ok instructions) := by
  rw [instructionsOf]
  split
  · next instructions hdecoded => exact ensures_pure hdecoded
  · exact ensures_throw _ _

theorem Code.ensures_decode (pool : ConstantPool) :
    Ensures (Code.decode pool) Code.IsDisassembled := by
  refine ensures_then (fun maxStack => ensures_then (fun maxLocals =>
    ensures_then (fun length => ?_)))
  simp only
  split
  · exact ensures_throw _ _
  · refine ensures_bind (ensures_bytes _) (fun content hlength => ?_)
    refine ensures_bind (ensures_instructionsOf content) (fun instructions hdecoded => ?_)
    refine ensures_then (fun handlerCount => ensures_then (fun handlers =>
      ensures_then (fun _ => ?_)))
    exact ensures_pure ⟨content, hlength, hdecoded⟩

namespace Method

/-- An attribute leaves a method disassembled, whether it is a body or not. -/
theorem ensures_decodeAttribute (pool : ConstantPool) {method : Method}
    (hmethod : method.IsDisassembled) :
    Ensures (decodeAttribute pool method) Method.IsDisassembled := by
  refine ensures_then (fun index => ensures_then (fun name => ensures_then (fun length =>
    ensures_then (fun body => ?_))))
  split
  · split
    · exact ensures_throw _ _
    · refine ensures_bind (ensures_within body (Code.ensures_decode pool)) (fun code hcode => ?_)
      apply ensures_pure
      intro found hfound
      cases hfound
      exact hcode
  · exact ensures_pure hmethod

theorem ensures_decodeAttributes (pool : ConstantPool) (count : Nat) {method : Method}
    (hmethod : method.IsDisassembled) :
    Ensures (decodeAttributes pool count method) Method.IsDisassembled := by
  induction count generalizing method with
  | zero => exact ensures_pure hmethod
  | succ count ih =>
      exact ensures_bind (ensures_decodeAttribute pool hmethod) (fun next hnext => ih hnext)

theorem ensures_decode (pool : ConstantPool) (owner : String) :
    Ensures (Method.decode pool owner) Method.IsDisassembled := by
  refine ensures_then (fun access => ensures_then (fun nameIndex => ensures_then (fun name =>
    ensures_then (fun descriptorIndex => ensures_then (fun descriptor =>
      ensures_then (fun count => ?_))))))
  apply ensures_decodeAttributes
  intro code hcode
  cases hcode

/-- The instructions of a disassembled method are a stream from the start of
its code, or there are none. -/
theorem IsDisassembled.reads {method : Method} (hmethod : method.IsDisassembled) :
    ∃ cursor, Instruction.Reads cursor method.instructions := by
  rw [instructions]
  split
  · next code hcode =>
      obtain ⟨content, _, hdecoded⟩ := hmethod code hcode
      exact ⟨.start content, Instruction.decodeAll_eq_ok_iff.mp hdecoded⟩
  · exact ⟨.start [], Instruction.Reads.done rfl⟩

end Method

namespace ClassFile

/-- All methods of a class that is read are disassembled. -/
theorem ensures_decode :
    Ensures decode (fun decoded => ∀ method ∈ decoded.methods, method.IsDisassembled) := by
  refine ensures_then (fun magic => ensures_then (fun _ => ensures_then (fun minor =>
    ensures_then (fun major => ensures_then (fun pool => ensures_then (fun access =>
      ensures_then (fun name => ensures_then (fun superName => ?_))))))))
  refine ensures_then (fun interfaceCount => ensures_then (fun interfaces =>
    ensures_then (fun fieldCount => ensures_then (fun _ => ensures_then (fun methodCount => ?_)))))
  refine ensures_bind (ensures_replicate _ (Method.ensures_decode pool name))
    (fun methods hmethods => ?_)
  exact ensures_then (fun _ => ensures_then (fun _ => ensures_pure hmethods))

/-- A class is parsed exactly if its data can be read to the end and its
invocations pass the check. -/
theorem parse_eq_ok_iff {data : Bytes} {decoded : ClassFile} :
    parse data = .ok decoded ↔
      data ≠ [] ∧ decode.run data = .ok decoded ∧ decoded.checkInvocations = .ok () := by
  cases data with
  | nil => simp [parse, throw, throwThe, MonadExceptOf.throw]
  | cons byte data =>
      simp only [parse, List.isEmpty_cons, Bool.false_eq_true, if_false, Outcome.bind_eq_ok_iff]
      constructor
      · rintro ⟨found, hread, hchecked⟩
        split at hchecked
        · next hcheck =>
            cases hchecked
            exact ⟨List.cons_ne_nil _ _, hread, hcheck⟩
        · cases hchecked
      · rintro ⟨_, hread, hcheck⟩
        exact ⟨decoded, hread, by rw [hcheck]; rfl⟩

/-- Reads a class and leaves the bytes behind it alone. -/
def decodeContent : Decoder ClassFile := do
  checkMagic (← Decoder.uint32)
  let minorVersion ← Decoder.uint16
  let majorVersion ← Decoder.uint16
  let pool ← ConstantPool.decode
  let access ← Decoder.uint16
  let name ← decodeClassName pool
  let superName ← decodeSuperName pool
  let interfaceCount ← Decoder.uint16
  let interfaces ← Decoder.replicate interfaceCount.toNat (decodeClassName pool)
  let fieldCount ← Decoder.uint16
  discard (Decoder.replicate fieldCount.toNat skipField)
  let methodCount ← Decoder.uint16
  let methods ← Decoder.replicate methodCount.toNat (Method.decode pool name)
  skipAttributes
  return {
    minorVersion, majorVersion, pool, access := ⟨access⟩, name, superName, interfaces,
    fieldCount := fieldCount.toNat, methods }

/-- A class is read to the end of its data by reading the class and looking
for bytes behind it. -/
theorem decode_eq_content : decode = do
    let decoded ← decodeContent
    checkEnd decoded.name
    return decoded := by
  simp only [decode, decodeContent, bind_assoc, pure_bind]

section Content

variable {cursor stop : Cursor} {data : Bytes} {decoded : ClassFile}

theorem decode_of_content_error {fault : Fault}
    (hcontent : decodeContent cursor = .error fault stop) :
    decode cursor = .error fault stop := by
  rw [decode_eq_content, Outcome.run_bind_of_error hcontent]

theorem decode_of_content_end (hcontent : decodeContent cursor = .ok decoded stop)
    (hend : stop.rest = []) : decode cursor = .ok decoded stop := by
  have hcheck : checkEnd decoded.name stop = .ok () stop := by
    simp [checkEnd, Cursor.atEnd, hend]
  rw [decode_eq_content, Outcome.run_bind_of_ok hcontent, Outcome.run_bind_of_ok hcheck]
  rfl

theorem decode_of_content_trailing (hcontent : decodeContent cursor = .ok decoded stop)
    (hmore : stop.rest ≠ []) :
    decode cursor =
      .error (.malformed (.trailingBytes stop.rest.length decoded.name)) stop := by
  have hcheck : checkEnd decoded.name stop =
      .error (.malformed (.trailingBytes stop.rest.length decoded.name)) stop := by
    simp [checkEnd, Cursor.atEnd, hmore]
  rw [decode_eq_content, Outcome.run_bind_of_ok hcontent, Outcome.run_bind_of_error hcheck]

theorem run_eq_ok_iff_content :
    decode.run data = .ok decoded ↔
      ∃ stop, decodeContent (.start data) = .ok decoded stop ∧ stop.rest = [] := by
  rw [run]
  cases hcontent : decodeContent (.start data) with
  | error fault stop => simp [decode_of_content_error hcontent]
  | ok found stop =>
      by_cases hend : stop.rest = []
      · simp [decode_of_content_end hcontent hend, hend]
      · simp [decode_of_content_trailing hcontent hend, hend]

end Content

/-- The check of a class is the check of each instruction. -/
theorem checkInvocations_eq_ok_iff {decoded : ClassFile} :
    decoded.checkInvocations = .ok () ↔
      ∀ method ∈ decoded.methods, ∀ instruction ∈ method.instructions,
        checkInvocation decoded.pool instruction = .ok () := by
  rw [checkInvocations, Outcome.forM_eq_ok_iff]
  simp only [Outcome.forM_eq_ok_iff]

/-- An invocation that has an index and passes the check names a method whose
descriptor has the right form. -/
theorem exists_target_of_checkInvocation {pool : ConstantPool} {instruction : Instruction}
    {kind : InvokeKind} {index : UInt16}
    (hcheck : checkInvocation pool instruction = .ok ())
    (hkind : InvokeKind.ofByte? instruction.opcode.byte = some kind)
    (hindex : instruction.operand.constantIndex? = some index) :
    ∃ target type, pool.methodRef index = .ok target ∧
      MethodType.parse target.descriptor = .ok type := by
  simp only [checkInvocation, hindex, hkind, Option.isSome_some, if_true] at hcheck
  obtain ⟨target, htarget, hdescriptor⟩ := Outcome.bind_eq_ok_iff.mp hcheck
  obtain ⟨type, htype, _⟩ := Outcome.map_eq_ok_iff.mp hdescriptor
  exact ⟨target, type, htarget, htype⟩

section Parse

variable {data : Bytes} {decoded : ClassFile} {method : Method}

theorem isDisassembled_of_parse (hparsed : parse data = .ok decoded)
    (hmethod : method ∈ decoded.methods) : method.IsDisassembled := by
  obtain ⟨_, hread, _⟩ := parse_eq_ok_iff.mp hparsed
  simp only [run] at hread
  cases hdecode : decode (.start data) with
  | error fault stop => simp [hdecode] at hread
  | ok found stop =>
      rw [hdecode] at hread
      cases hread
      exact ensures_decode hdecode method hmethod

/-- The instructions of a method of a parsed class stand in the order of their
offsets. -/
theorem pairwise_offset_lt_of_parse (hparsed : parse data = .ok decoded)
    (hmethod : method ∈ decoded.methods) :
    method.instructions.Pairwise (fun left right => left.offset < right.offset) := by
  obtain ⟨cursor, hreads⟩ := (isDisassembled_of_parse hparsed hmethod).reads
  exact hreads.pairwise_offset_lt

/-- Every invocation of a parsed class has a constant pool index, and the index
names a method whose descriptor has the right form. -/
theorem exists_target_of_parse (hparsed : parse data = .ok decoded)
    (hmethod : method ∈ decoded.methods) {instruction : Instruction}
    (hinstruction : instruction ∈ method.instructions) {kind : InvokeKind}
    (hkind : InvokeKind.ofByte? instruction.opcode.byte = some kind) :
    ∃ index target type, instruction.operand.constantIndex? = some index ∧
      decoded.pool.methodRef index = .ok target ∧
      MethodType.parse target.descriptor = .ok type := by
  obtain ⟨cursor, hreads⟩ := (isDisassembled_of_parse hparsed hmethod).reads
  obtain ⟨index, hindex⟩ := hreads.exists_constantIndex? hinstruction hkind
  obtain ⟨_, _, hchecked⟩ := parse_eq_ok_iff.mp hparsed
  have hcheck := checkInvocations_eq_ok_iff.mp hchecked method hmethod instruction hinstruction
  obtain ⟨target, type, htarget, htype⟩ := exists_target_of_checkInvocation hcheck hkind hindex
  exact ⟨index, target, type, hindex, htarget, htype⟩

end Parse

/-- The bytes of a class `A` whose method `f` calls itself as a static method, has a
dynamic call site and calls itself as an interface method.  Behind the constants, which
are the texts `A`, `f`, `()V` and `Code` and links between them, stand the header, which
names no superclass, interfaces and fields, and the method. -/
def callingClass : Bytes :=
  [0xCA, 0xFE, 0xBA, 0xBE, 0, 0, 0, 52,
    0, 10, 1, 0, 1, 65, 7, 0, 1, 1, 0, 1, 102, 1, 0, 3, 40, 41, 86, 12, 0, 3, 0, 4,
    10, 0, 2, 0, 5, 11, 0, 2, 0, 5, 1, 0, 4, 67, 111, 100, 101, 18, 0, 0, 0, 5,
    0, 0x21, 0, 2, 0, 0, 0, 0, 0, 0, 0, 1, 0, 1, 0, 3, 0, 4, 0, 1,
    0, 8, 0, 0, 0, 26, 0, 0, 0, 1, 0, 0, 0, 14,
    0xB8, 0, 6, 0xBA, 0, 9, 0, 0, 0xB9, 0, 7, 1, 0, 0xB1, 0, 0, 0, 0, 0, 0]

end ClassFile

end JvmCalls

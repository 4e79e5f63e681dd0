import JvmCalls.Proofs.ClassFile.Length
import JvmCalls.Proofs.Trapping.Constant
import JvmCalls.Proofs.Trapping.Descriptor
import JvmCalls.Proofs.Trapping.Instruction

/-!
# Class files

A class is read as `ClassFile.parse` reads it, by operations that may trap.
Bodies are read by readers of their own, in bytes of which there are no more
than a number of four bytes.  The descriptors that the check of a class reads
are texts of the pool, which are short.
-/

namespace JvmCalls.Trapping

open Checked Reading

def skipAttribute : Reading Unit := do
  skip 2
  let length ← uint32
  skip length.toNat

def skipAttributes : Reading Unit := do
  let count ← uint16
  discard (replicate count.toNat skipAttribute)

theorem follows_skipAttributes : Follows skipAttributes JvmCalls.skipAttributes := by
  have hattribute : Follows skipAttribute JvmCalls.skipAttribute :=
    follows_then (follows_skip 2) (fun _ => follows_then follows_uint32 (fun _ => follows_skip _))
  refine follows_then follows_uint16 (fun count => ?_)
  exact follows_map _ (follows_replicate _ hattribute)

namespace Code

open JvmCalls (Code Handler Instruction)

def decodeHandler (pool : JvmCalls.ConstantPool) : Reading Handler := do
  let start ← uint16
  let finish ← uint16
  let target ← uint16
  let catchType ← ofChecked (total (pool.optionalClassName (← uint16)))
  return { start, finish, target, catchType }

/-- The instructions of the code of a method, as a read that does not move. -/
def instructionsOf (code : Bytes) : Reading (List Instruction) :=
  match Instruction.streamFrom (.start code) [] with
  | .ok instructions => return instructions
  | .error halt => throw halt

def decode (pool : JvmCalls.ConstantPool) : Reading Code := do
  let maxStack ← uint16
  let maxLocals ← uint16
  let length := (← uint32).toNat
  if length = 0 || Code.maxLength < length then
    malformed (.invalidCodeLength length)
  else
    let instructions ← instructionsOf (← bytes length)
    let handlerCount ← uint16
    let handlers ← vector handlerCount.toNat (decodeHandler pool)
    skipAttributes
    return { maxStack, maxLocals, length, instructions, handlers }

theorem follows_decodeHandler (pool : JvmCalls.ConstantPool) :
    Follows (decodeHandler pool) (Handler.decode pool) :=
  follows_then follows_uint16 (fun _ => follows_then follows_uint16 (fun _ =>
    follows_then follows_uint16 (fun _ => follows_then follows_uint16 (fun _ =>
      follows_then (follows_ofChecked rfl) (fun _ => follows_pure _)))))

theorem follows_instructionsOf {code : Bytes} (hsmall : code.length < 2 ^ 63) :
    Follows (instructionsOf code) (JvmCalls.Code.instructionsOf code) := by
  have hstream : Instruction.streamFrom (.start code) [] =
      total (JvmCalls.Instruction.decodeAll code) :=
    Instruction.streamFrom_eq (.start code) hsmall []
  rw [instructionsOf, JvmCalls.Code.instructionsOf, hstream]
  cases JvmCalls.Instruction.decodeAll code with
  | ok instructions => exact follows_pure instructions
  | error fault => exact follows_fail fault

theorem follows_decode (pool : JvmCalls.ConstantPool) :
    Follows (decode pool) (JvmCalls.Code.decode pool) := by
  refine follows_then follows_uint16 (fun maxStack => follows_then follows_uint16
    (fun maxLocals => follows_then follows_uint32 (fun length => ?_)))
  simp only
  split
  · exact follows_malformed _
  · have hfits := length.toNat_lt
    refine follows_bind (follows_bytes _) (Decoder.ensures_bytes _) (fun content hlength => ?_)
    refine follows_then (follows_instructionsOf (by omega)) (fun instructions => ?_)
    refine follows_then follows_uint16 (fun handlerCount => ?_)
    have hcount := handlerCount.toNat_lt
    exact follows_then (follows_vector (by omega) (follows_decodeHandler pool)) (fun handlers =>
      follows_then follows_skipAttributes (fun _ => follows_pure _))

end Code

namespace Method

open JvmCalls (Method)

def decodeAttribute (pool : JvmCalls.ConstantPool) (method : Method) : Reading Method := do
  let name ← ofChecked (total (pool.text (← uint16)))
  let length ← uint32
  let body ← bytes length.toNat
  if name = Method.codeAttribute then
    match method.code with
    | some _ => malformed (.repeatedCode method.owner method.name method.descriptor)
    | none => return { method with code := some (← within body (Code.decode pool)) }
  else
    return method

def decodeAttributes (pool : JvmCalls.ConstantPool) : (count : Nat) → Method → Reading Method
  | 0, method => return method
  | count + 1, method => do decodeAttributes pool count (← decodeAttribute pool method)

def decode (pool : JvmCalls.ConstantPool) (owner : String) : Reading Method := do
  let access ← uint16
  let name ← ofChecked (total (pool.text (← uint16)))
  let descriptor ← ofChecked (total (pool.text (← uint16)))
  let count ← uint16
  decodeAttributes pool count.toNat
    { owner, name, descriptor, access := ⟨access⟩, code := none }

/-- The length of a body is a number of four bytes, so its reader has no more
bytes than there may be. -/
theorem follows_decodeAttribute (pool : JvmCalls.ConstantPool) (method : Method) :
    Follows (decodeAttribute pool method) (JvmCalls.Method.decodeAttribute pool method) := by
  refine follows_then follows_uint16 (fun index => follows_then (follows_ofChecked rfl)
    (fun name => follows_then follows_uint32 (fun length => ?_)))
  have hfits := length.toNat_lt
  refine follows_bind (follows_bytes _) (Decoder.ensures_bytes _) (fun body hlength => ?_)
  split
  · cases method.code with
    | some _ => exact follows_malformed _
    | none =>
        exact follows_then (follows_within (by omega) (Code.follows_decode pool))
          (fun _ => follows_pure _)
  · exact follows_pure _

theorem follows_decodeAttributes (pool : JvmCalls.ConstantPool) (count : Nat) (method : Method) :
    Follows (decodeAttributes pool count method)
      (JvmCalls.Method.decodeAttributes pool count method) := by
  induction count generalizing method with
  | zero => exact follows_pure _
  | succ count ih => exact follows_then (follows_decodeAttribute pool method) ih

theorem follows_decode (pool : JvmCalls.ConstantPool) (owner : String) :
    Follows (decode pool owner) (JvmCalls.Method.decode pool owner) :=
  follows_then follows_uint16 (fun _ => follows_then follows_uint16 (fun _ =>
    follows_then (follows_ofChecked rfl) (fun _ => follows_then follows_uint16 (fun _ =>
      follows_then (follows_ofChecked rfl) (fun _ => follows_then follows_uint16 (fun _ =>
        follows_decodeAttributes pool _ _))))))

end Method

namespace ClassFile

open JvmCalls (ClassFile Instruction)

def checkMagic (number : UInt32) : Reading Unit :=
  if number = classMagic then return () else fail (.invalidMagic number)

def skipField : Reading Unit := do
  skip 6
  skipAttributes

def decodeClassName (pool : JvmCalls.ConstantPool) : Reading String := do
  return binaryName (← ofChecked (total (pool.className (← uint16))))

def decodeSuperName (pool : JvmCalls.ConstantPool) : Reading (Option String) := do
  return (← ofChecked (total (pool.optionalClassName (← uint16)))).map binaryName

def checkEnd (name : String) : Reading Unit := do
  if (← position) < (← data).length then
    malformed (.trailingBytes (← left) name)
  else
    return ()

def decode : Reading ClassFile := do
  checkMagic (← uint32)
  let minorVersion ← uint16
  let majorVersion ← uint16
  let pool ← ConstantPool.decode
  let access ← uint16
  let name ← decodeClassName pool
  let superName ← decodeSuperName pool
  let interfaceCount ← uint16
  let interfaces ← vector interfaceCount.toNat (decodeClassName pool)
  let fieldCount ← uint16
  discard (replicate fieldCount.toNat skipField)
  let methodCount ← uint16
  let methods ← vector methodCount.toNat (Method.decode pool name)
  skipAttributes
  checkEnd name
  return {
    minorVersion, majorVersion, pool, access := ⟨access⟩, name, superName, interfaces,
    fieldCount := fieldCount.toNat, methods }

def checkInvocation (pool : JvmCalls.ConstantPool) (instruction : Instruction) :
    Checked Defect Unit :=
  match instruction.operand.constantIndex? with
  | none => .ok ()
  | some index =>
      if (InvokeKind.ofByte? instruction.opcode.byte).isSome then do
        let target ← total (pool.methodRef index)
        discard (MethodType.parse target.descriptor)
      else if instruction.opcode.byte = dynamicCallByte then
        discard (total (pool.invokeDynamic index))
      else
        .ok ()

def checkInvocations (decoded : ClassFile) : Checked Defect Unit :=
  decoded.methods.forM (fun method =>
    method.instructions.forM (checkInvocation decoded.pool))

def parse (content : Bytes) : Checked Fault ClassFile :=
  if content.isEmpty then
    flaw .empty
  else
    match decode (.start content) with
    | .error halt _ => .error halt
    | .ok decoded _ => do
        (checkInvocations decoded).mapFlaw .malformed
        return decoded

theorem follows_checkMagic (number : UInt32) :
    Follows (checkMagic number) (JvmCalls.ClassFile.checkMagic number) := by
  rw [checkMagic, JvmCalls.ClassFile.checkMagic]
  split
  · exact follows_pure _
  · exact follows_fail _

theorem follows_skipField : Follows skipField JvmCalls.ClassFile.skipField :=
  follows_then (follows_skip 6) (fun _ => follows_skipAttributes)

theorem follows_decodeClassName (pool : JvmCalls.ConstantPool) :
    Follows (decodeClassName pool) (JvmCalls.ClassFile.decodeClassName pool) :=
  follows_then follows_uint16 (fun _ => follows_then (follows_ofChecked rfl)
    (fun _ => follows_pure _))

theorem follows_decodeSuperName (pool : JvmCalls.ConstantPool) :
    Follows (decodeSuperName pool) (JvmCalls.ClassFile.decodeSuperName pool) :=
  follows_then follows_uint16 (fun _ => follows_then (follows_ofChecked rfl)
    (fun _ => follows_pure _))

theorem follows_checkEnd (name : String) :
    Follows (checkEnd name) (JvmCalls.ClassFile.checkEnd name) := by
  intro cursor hsmall
  have hlength := cursor.length_rest
  have hposition := cursor.position_le
  rw [checkEnd, position_bind, data_bind, JvmCalls.ClassFile.checkEnd, Cursor.atEnd]
  by_cases hend : (Reader.ofCursor cursor).position < (Reader.ofCursor cursor).data.length
  · have hinside : cursor.position < cursor.data.length := hend
    have hmore : cursor.rest.isEmpty = false := by
      rw [List.isEmpty_eq_false_iff, ← List.length_pos_iff]
      omega
    rw [if_pos hend, Outcome.run_bind_of_ok (left_ofCursor cursor)]
    simp only [hmore, Bool.false_eq_true, if_false]
    exact ⟨rfl, rfl⟩
  · have hpast : ¬ cursor.position < cursor.data.length := hend
    have hdone : cursor.rest.isEmpty = true := by
      rw [List.isEmpty_iff, ← List.length_eq_zero_iff]
      omega
    rw [if_neg hend]
    simp only [hdone, if_true]
    exact ⟨rfl, rfl⟩

theorem follows_decode : Follows decode JvmCalls.ClassFile.decode := by
  refine follows_then follows_uint32 (fun magic => follows_then (follows_checkMagic magic)
    (fun _ => follows_then follows_uint16 (fun minorVersion => follows_then follows_uint16
      (fun majorVersion => follows_then ConstantPool.follows_decode (fun pool => ?_)))))
  refine follows_then follows_uint16 (fun access => follows_then (follows_decodeClassName pool)
    (fun name => follows_then (follows_decodeSuperName pool) (fun superName =>
      follows_then follows_uint16 (fun interfaceCount => ?_))))
  have hinterfaces := interfaceCount.toNat_lt
  refine follows_then (follows_vector (by omega) (follows_decodeClassName pool))
    (fun interfaces => follows_then follows_uint16 (fun fieldCount => ?_))
  refine follows_then (follows_map _ (follows_replicate _ follows_skipField))
    (fun _ => follows_then follows_uint16 (fun methodCount => ?_))
  have hmethods := methodCount.toNat_lt
  refine follows_then (follows_vector (by omega) (Method.follows_decode pool name))
    (fun methods => follows_then follows_skipAttributes (fun _ => ?_))
  exact follows_then (follows_checkEnd name) (fun _ => follows_pure _)

/-- The bytes of a short text find room in memory. -/
theorem length_encode_lt {text : String} (hshort : IsShort text) :
    (Utf8.encode text).length < 2 ^ 63 := by
  have hsize := length_encode_le text
  rw [IsShort] at hshort
  omega

/-- The descriptor of a method that an index leads to is a text of the pool, so
it is short enough to be read. -/
theorem checkInvocation_eq {pool : JvmCalls.ConstantPool} (hpool : pool.HasShortTexts)
    (instruction : Instruction) :
    checkInvocation pool instruction =
      total (JvmCalls.ClassFile.checkInvocation pool instruction) := by
  rw [checkInvocation, JvmCalls.ClassFile.checkInvocation]
  cases instruction.operand.constantIndex? with
  | none => rfl
  | some index =>
      simp only
      by_cases hkind : (InvokeKind.ofByte? instruction.opcode.byte).isSome = true
      · rw [if_pos hkind, if_pos hkind, total_bind]
        cases htarget : pool.methodRef index with
        | error defect => rfl
        | ok target =>
            obtain ⟨_, _, hdescriptor⟩ := hpool.of_namesMethod
              (ConstantPool.namesMethod_iff.mpr ⟨target.isInterface, htarget⟩)
            rw [total_ok, ok_bind, ok_bind, MethodType.parse_eq (length_encode_lt hdescriptor),
              discard_total]
      · rw [if_neg hkind, if_neg hkind]
        by_cases hdynamic : instruction.opcode.byte = dynamicCallByte
        · rw [if_pos hdynamic, if_pos hdynamic, discard_total]
        · rw [if_neg hdynamic, if_neg hdynamic, total_ok]

theorem checkInvocations_eq {decoded : ClassFile} (hshort : decoded.IsShort) :
    checkInvocations decoded = total decoded.checkInvocations :=
  forM_eq_total (fun _ _ => forM_eq_total (fun instruction _ =>
    checkInvocation_eq hshort.texts instruction))

/-- Classes are read without traps. -/
theorem parse_eq {content : Bytes} (hsmall : content.length < 2 ^ 63) :
    parse content = total (JvmCalls.ClassFile.parse content) := by
  rw [parse, JvmCalls.ClassFile.parse, follows_decode.run hsmall]
  by_cases hempty : content.isEmpty = true
  · rw [if_pos hempty, if_pos hempty]
    rfl
  · rw [if_neg hempty, if_neg hempty, total_bind, Decoder.run]
    cases hread : JvmCalls.ClassFile.decode (.start content) with
    | error fault stop => rfl
    | ok decoded stop =>
        have hrun : JvmCalls.ClassFile.decode.run content = .ok decoded := by
          rw [Decoder.run, hread]
        have hcheck := checkInvocations_eq (JvmCalls.ClassFile.isShort_of_run hrun)
        simp only [image, hcheck, mapFlaw_total, total_ok, ok_bind]
        cases decoded.checkInvocations with
        | ok done => rfl
        | error defect => rfl

end ClassFile

end JvmCalls.Trapping

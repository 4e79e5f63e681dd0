import JvmCalls.Proofs.Bytes.Local
import JvmCalls.Proofs.ClassFile.Parsed

/-!
# Truncated and overlong classes

Every read of a class is local, so the class that was read from some data is
also read from the front of longer data, where bytes are left behind it, and
shorter data ends too early for it.
-/

namespace JvmCalls

open Decoder

theorem local_decodeConstant (index : Nat) : Local (Constant.decode index) := by
  have hindices : ∀ build, Local (Constant.decodeIndices build) := fun build =>
    local_bind local_uint16 (fun _ => local_bind local_uint16 (fun _ => local_pure _))
  have htext : ∀ length, Local (ModifiedUtf8.text length) := fun length =>
    local_bind (local_bytes length) (fun _ => local_ofExcept _)
  have hfields : ∀ tag, Local (Constant.decodeFields tag) := by
    intro tag
    cases tag with
    | utf8 =>
        exact local_bind local_uint16 (fun _ => local_bind (htext _) (fun _ => local_pure _))
    | integer => exact local_bind local_int32 (fun _ => local_pure _)
    | float => exact local_bind local_uint32 (fun _ => local_pure _)
    | long => exact local_bind local_int64 (fun _ => local_pure _)
    | double => exact local_bind local_uint64 (fun _ => local_pure _)
    | methodHandle =>
        exact local_bind local_uint8 (fun _ => local_bind local_uint16 (fun _ => local_pure _))
    | classRef | string | methodType | moduleRef | packageRef =>
        exact local_bind local_uint16 (fun _ => local_pure _)
    | fieldRef | methodRef | interfaceMethodRef | nameAndType | dynamic | invokeDynamic =>
        exact hindices _
  apply local_bind local_uint8
  intro byte
  split
  · exact hfields _
  · exact local_throw _

/-- An eight-byte constant takes two slots, so the induction is on all smaller counts. -/
theorem local_decodeSlots (index remaining : Nat) (slots : Array (Option Constant)) :
    Local (ConstantPool.decodeSlots index remaining slots) := by
  induction remaining using Nat.strongRecOn generalizing index slots with
  | ind remaining ih =>
      cases remaining with
      | zero => exact local_pure slots
      | succ remaining =>
          rw [ConstantPool.decodeSlots]
          apply local_bind (local_decodeConstant index)
          intro constant
          split
          · cases remaining with
            | zero => exact local_throw _
            | succ remaining => exact ih remaining (by omega) _ _
          · exact ih remaining (by omega) _ _

theorem local_decodePool : Local ConstantPool.decode := by
  apply local_bind local_uint16
  intro count
  split
  · exact local_throw _
  · exact local_bind (local_decodeSlots _ _ _) (fun _ => local_pure _)

theorem local_skipAttributes : Local skipAttributes := by
  have hskip : Local skipAttribute :=
    local_bind (local_skip 2) (fun _ => local_bind local_uint32 (fun _ => local_skip _))
  exact local_bind local_uint16 (fun _ => local_map _ (local_replicate _ hskip))

namespace Method

theorem local_decodeAttribute (pool : ConstantPool) (method : Method) :
    Local (decodeAttribute pool method) := by
  apply local_bind local_uint16
  intro index
  apply local_bind (local_ofExcept _)
  intro name
  apply local_bind local_uint32
  intro length
  apply local_bind (local_bytes _)
  intro body
  split
  · split
    · exact local_throw _
    · exact local_bind (local_within body _) (fun _ => local_pure _)
  · exact local_pure method

theorem local_decodeAttributes (pool : ConstantPool) (count : Nat) (method : Method) :
    Local (decodeAttributes pool count method) := by
  induction count generalizing method with
  | zero => exact local_pure method
  | succ count ih => exact local_bind (local_decodeAttribute pool method) (fun next => ih next)

theorem local_decode (pool : ConstantPool) (owner : String) :
    Local (Method.decode pool owner) := by
  apply local_bind local_uint16
  intro access
  apply local_bind local_uint16
  intro nameIndex
  apply local_bind (local_ofExcept _)
  intro name
  apply local_bind local_uint16
  intro descriptorIndex
  apply local_bind (local_ofExcept _)
  intro descriptor
  exact local_bind local_uint16 (fun count => local_decodeAttributes pool _ _)

end Method

namespace ClassFile

theorem local_checkMagic (number : UInt32) : Local (checkMagic number) := by
  rw [checkMagic]
  split
  · exact local_pure ()
  · exact local_throw _

theorem local_decodeClassName (pool : ConstantPool) : Local (decodeClassName pool) :=
  local_bind local_uint16 (fun _ => local_bind (local_ofExcept _) (fun _ => local_pure _))

theorem local_decodeSuperName (pool : ConstantPool) : Local (decodeSuperName pool) :=
  local_bind local_uint16 (fun _ => local_bind (local_ofExcept _) (fun _ => local_pure _))

theorem local_skipField : Local skipField :=
  local_bind (local_skip 6) (fun _ => local_skipAttributes)

/-- A class is read from its own bytes alone. -/
theorem local_decodeContent : Local decodeContent := by
  apply local_bind local_uint32
  intro magic
  apply local_bind (local_checkMagic magic)
  intro _
  apply local_bind local_uint16
  intro minorVersion
  apply local_bind local_uint16
  intro majorVersion
  apply local_bind local_decodePool
  intro pool
  apply local_bind local_uint16
  intro access
  apply local_bind (local_decodeClassName pool)
  intro name
  apply local_bind (local_decodeSuperName pool)
  intro superName
  apply local_bind local_uint16
  intro interfaceCount
  apply local_bind (local_replicate _ (local_decodeClassName pool))
  intro interfaces
  apply local_bind local_uint16
  intro fieldCount
  apply local_bind (local_map _ (local_replicate _ local_skipField))
  intro _
  apply local_bind local_uint16
  intro methodCount
  apply local_bind (local_replicate _ (Method.local_decode pool name))
  intro methods
  exact local_bind local_skipAttributes (fun _ => local_pure _)

theorem parse_eq_error_of_run {data : Bytes} {fault : Fault} (hdata : data ≠ [])
    (hrun : decode.run data = .error fault) : parse data = .error fault := by
  cases data with
  | nil => exact absurd rfl hdata
  | cons byte data =>
      rw [parse, List.isEmpty_cons, if_neg Bool.false_ne_true, hrun]
      rfl

section Parse

variable {data : Bytes} {decoded : ClassFile}

theorem parse_of_truncated {short tail : Bytes} (hparsed : parse (short ++ tail) = .ok decoded)
    (hshort : short ≠ []) (htail : tail ≠ []) : parse short = .error .outOfBounds := by
  obtain ⟨_, hrun, _⟩ := parse_eq_ok_iff.mp hparsed
  obtain ⟨stop, hcontent, hend⟩ := run_eq_ok_iff_content.mp hrun
  obtain ⟨_, hbounds⟩ := local_decodeContent.of_truncated hcontent hend htail
  apply parse_eq_error_of_run hshort
  rw [run, decode_of_content_error hbounds]

theorem parse_of_extended {tail : Bytes} (hparsed : parse data = .ok decoded)
    (htail : tail ≠ []) :
    parse (data ++ tail) = .error (.malformed (.trailingBytes tail.length decoded.name)) := by
  obtain ⟨hdata, hrun, _⟩ := parse_eq_ok_iff.mp hparsed
  obtain ⟨stop, hcontent, hend⟩ := run_eq_ok_iff_content.mp hrun
  obtain ⟨stop', hlonger, hrest⟩ := local_decodeContent.of_append hcontent tail
  rw [hend, List.nil_append] at hrest
  have hmore : stop'.rest ≠ [] := hrest ▸ htail
  apply parse_eq_error_of_run (List.append_ne_nil_of_left_ne_nil hdata tail)
  rw [run, decode_of_content_trailing hlonger hmore, hrest]

/-- A class is parsed from exactly its bytes.  The empty front of its data is
refused as empty, every other shorter front as too short, and data that goes on
behind it as too long, with the count of the bytes left and the name of the
class.  So no class that is parsed is a proper front of another one. -/
theorem parse_exact_extent (hparsed : parse data = .ok decoded) :
    parse [] = .error .empty ∧
      (∀ short, short <+: data → short ≠ [] → short ≠ data →
        parse short = .error .outOfBounds) ∧
      (∀ tail, tail ≠ [] → ∃ defect, parse (data ++ tail) = .error (.malformed defect) ∧
        defect.message = s!"{tail.length} trailing bytes after class {decoded.name}") ∧
      ∀ other decodedOther, parse other = .ok decodedOther → data <+: other → data = other := by
  refine ⟨rfl, ?_, ?_, ?_⟩
  · rintro short ⟨tail, rfl⟩ hshort hproper
    have htail : tail ≠ [] := by
      rintro rfl
      exact hproper (List.append_nil short).symm
    exact parse_of_truncated hparsed hshort htail
  · intro tail htail
    exact ⟨_, parse_of_extended hparsed htail, rfl⟩
  · rintro other decodedOther hother ⟨tail, rfl⟩
    by_contra hproper
    have htail : tail ≠ [] := by
      rintro rfl
      exact hproper (List.append_nil data).symm
    rw [parse_of_extended hparsed htail] at hother
    cases hother

/-- A class that is cut behind the first instruction of its method, and one with two bytes
behind it. -/
theorem parse_exact_extent_of_callingClass :
    (∃ decoded, parse callingClass = .ok decoded ∧ decoded.name = "A") ∧
      parse (callingClass.take 91) = .error .outOfBounds ∧
      ∃ defect, parse (callingClass ++ [0, 7]) = .error (.malformed defect) ∧
        defect.message = "2 trailing bytes after class A" := by
  have hname : (fun decoded => decoded.name) <$> parse callingClass = .ok "A" := by
    decide +kernel
  obtain ⟨decoded, hparsed, hdecoded⟩ := Outcome.map_eq_ok_iff.mp hname
  obtain ⟨_, hshort, hlong, _⟩ := parse_exact_extent hparsed
  have hcut := hshort (callingClass.take 91) (List.take_prefix 91 callingClass)
    (by decide) (by decide)
  obtain ⟨defect, hrefused, hmessage⟩ := hlong [0, 7] (by decide)
  rw [hdecoded] at hmessage
  exact ⟨⟨decoded, hparsed, hdecoded⟩, hcut, defect, hrefused, hmessage⟩

end Parse

end ClassFile

end JvmCalls

import JvmCalls.Proofs.Call.Extraction
import JvmCalls.Proofs.ClassFile.Accounted
import JvmCalls.Proofs.Descriptor.Length
import JvmCalls.Proofs.Text.ModifiedUtf8

/-!
# Short texts

The length of a stored text is a number of two bytes, and a text has no more
characters than bytes.  So all texts of a pool are short, and with them the
names that a class takes from its pool and the names that its calls lead to.
-/

namespace JvmCalls

open Decoder

/-- Whether the characters of a text can be counted with two bytes. -/
def IsShort (text : String) : Prop := text.length < 0x10000

/-! ## Pools -/

namespace ConstantPool

def HasShortTexts (pool : ConstantPool) : Prop :=
  ∀ ⦃index text⦄, pool.Holds index (.utf8 text) → IsShort text

theorem eq_of_mem_slotsOf {constant held : Constant} (hmem : some held ∈ slotsOf constant) :
    held = constant := by
  rw [slotsOf] at hmem
  split at hmem
  · simpa using hmem
  · simpa using hmem

theorem mem_of_holds_ofList {constants : List Constant} {index : UInt16} {constant : Constant}
    (hholds : (ofList constants).Holds index constant) : constant ∈ constants := by
  rw [Holds, slot?, ofList, List.getElem?_toArray] at hholds
  rcases List.mem_cons.mp (List.mem_of_getElem? hholds) with hnone | hslot
  · cases hnone
  · obtain ⟨stored, hstored, hheld⟩ := List.mem_flatMap.mp hslot
    rwa [eq_of_mem_slotsOf hheld]

/-- The length of every text that was read takes two bytes. -/
theorem hasShortTexts_ofStored (constants : List Constant.Stored) :
    (ofStored constants).HasShortTexts := by
  intro index text hholds
  obtain ⟨⟨constant, bytes, hstored⟩, _, rfl⟩ := List.mem_map.mp (mem_of_holds_ofList hholds)
  obtain ⟨content, hlength, hdecoded, _⟩ := hstored
  exact Nat.lt_of_le_of_lt (ModifiedUtf8.length_le_of_decode hdecoded) hlength

variable {pool : ConstantPool} {index : UInt16} {owner name descriptor : String}

theorem HasShortTexts.of_namesClass (hpool : pool.HasShortTexts)
    (hnames : pool.NamesClass index name) : IsShort name := by
  obtain ⟨text, _, htext⟩ := hnames
  exact hpool htext

theorem HasShortTexts.of_namesMember (hpool : pool.HasShortTexts)
    (hnames : pool.NamesMember index name descriptor) : IsShort name ∧ IsShort descriptor := by
  obtain ⟨nameText, descriptorText, _, hname, hdescriptor⟩ := hnames
  exact ⟨hpool hname, hpool hdescriptor⟩

theorem HasShortTexts.of_namesMethod (hpool : pool.HasShortTexts)
    (hnames : pool.NamesMethod index owner name descriptor) :
    IsShort owner ∧ IsShort name ∧ IsShort descriptor := by
  obtain ⟨ownerIndex, member, _, howner, hmember⟩ := hnames
  exact ⟨hpool.of_namesClass howner, hpool.of_namesMember hmember⟩

end ConstantPool

/-- The texts of a call site are those of the pool. -/
theorem CallSite.isShort_owner_of_resolve {pool : ConstantPool} (hpool : pool.HasShortTexts)
    {instruction : Instruction} {site : CallSite}
    (hsite : resolve pool instruction = .ok (some site)) : IsShort site.owner := by
  unfold resolve at hsite
  split at hsite
  · cases hsite
  · split at hsite
    · cases hsite
    · obtain ⟨target, htarget, hfound⟩ := Outcome.bind_eq_ok_iff.mp hsite
      cases hfound
      exact (hpool.of_namesMethod
        (ConstantPool.namesMethod_iff.mpr ⟨target.isInterface, htarget⟩)).1

/-! ## Classes -/

/-- Whether the pool of the class is small and all texts in the class are
short. -/
structure ClassFile.IsShort (decoded : ClassFile) : Prop where
  pool_size : decoded.pool.size < 0x10000
  texts : decoded.pool.HasShortTexts
  name : JvmCalls.IsShort decoded.name
  methods : ∀ method ∈ decoded.methods, JvmCalls.IsShort method.name

structure CallEdge.IsShort (edge : CallEdge) : Prop where
  callerType : JvmCalls.IsShort edge.callerType
  callerMethod : JvmCalls.IsShort edge.callerMethod
  calleeOwner : JvmCalls.IsShort edge.calleeOwner
  calleeMethod : JvmCalls.IsShort edge.calleeMethod
  calleeDescriptor : JvmCalls.IsShort edge.calleeDescriptor

/-- A field is no more than eight times as long as a short text. -/
theorem CallEdge.IsShort.length_field_le {edge : CallEdge} (hshort : edge.IsShort)
    (style : SignatureStyle) : ∀ field ∈ edge.fields style, field.length ≤ 0x80000 := by
  have hcallerType := hshort.callerType
  have hcallerMethod := hshort.callerMethod
  have hcalleeOwner := hshort.calleeOwner
  have hcalleeMethod := hshort.calleeMethod
  have hcalleeDescriptor := hshort.calleeDescriptor
  unfold JvmCalls.IsShort at hcallerType hcallerMethod hcalleeOwner hcalleeMethod hcalleeDescriptor
  have htype := edge.length_calleeType_le style
  have hsignature := edge.length_calleeSignature_le style
  intro field hfield
  simp only [fields, List.mem_cons, List.not_mem_nil, or_false] at hfield
  rcases hfield with rfl | rfl | rfl | rfl | rfl
  all_goals omega

namespace ClassFile

variable {content : Bytes} {decoded : ClassFile}

theorem isShort_of_run (hread : decode.run content = .ok decoded) : decoded.IsShort := by
  obtain ⟨stop, hcontent, _⟩ := run_eq_ok_iff_content.mp hread
  obtain ⟨parts, _, hfits, hdescribes⟩ := accounts_decodeContent hcontent
  have htexts : parts.pool.HasShortTexts := ConstantPool.hasShortTexts_ofStored parts.constants
  obtain ⟨stored, hstored, hname⟩ := hdescribes.name
  refine ⟨hdescribes.pool ▸ hfits.pool, hdescribes.pool ▸ htexts, ?_, fun method hmethod => ?_⟩
  · rw [JvmCalls.IsShort, hname, length_binaryName]
    exact htexts.of_namesClass hstored
  · obtain ⟨part, _, hpart⟩ := Outcome.exists_of_mem_right hdescribes.methods hmethod
    exact htexts hpart.name

theorem Names.isShort {site : Method × Instruction} {edge : CallEdge} (hshort : decoded.IsShort)
    (hmethod : site.1 ∈ decoded.methods) (hnames : decoded.Names site edge) : edge.IsShort := by
  obtain ⟨index, _, hcallee⟩ := hnames.callee
  obtain ⟨howner, hname, hdescriptor⟩ := hshort.texts.of_namesMethod hcallee
  exact ⟨hnames.callerType ▸ hshort.name, hnames.callerMethod ▸ hshort.methods _ hmethod,
    howner, hname, hdescriptor⟩

/-- The calls of a class that was parsed are short. -/
theorem isShort_of_mem_calls {filter : TypeFilter} {edges : List CallEdge} {edge : CallEdge}
    (hparsed : parse content = .ok decoded) (hcalls : decoded.calls filter = .ok edges)
    (hedge : edge ∈ edges) : edge.IsShort := by
  obtain ⟨_, hread, _⟩ := parse_eq_ok_iff.mp hparsed
  obtain ⟨named, hnamed, hkept⟩ := exists_calls_of_parse hparsed filter
  rw [hcalls] at hkept
  cases hkept
  obtain ⟨site, hsite, hnames⟩ := Outcome.exists_of_mem_right hnamed (List.mem_of_mem_filter hedge)
  exact hnames.isShort (isShort_of_run hread) (mem_invocations.mp hsite).1

end ClassFile

end JvmCalls

import JvmCalls.Proofs.ClassFile.Described
import JvmCalls.Proofs.ClassFile.Parsed

/-!
# Reading back classes

The class that a well-formed layout describes is read back from the stored form
of the layout.  Each part of a class is read back from its own bytes, wherever
they stand, and the parts are put together in the order in which the layout
stores them.
-/

namespace JvmCalls

open Decoder

variable {pool : ConstantPool}

/-! ## Tables -/

section Tables

variable {Item Value Result : Type} {items : List Item} {values : List Value}
variable {encode : Item → Bytes} {decoder : Decoder Value}

/-- A table is read back by reading its count and as many items. -/
theorem accepts_table {next : UInt16 → List Value → Decoder Result} {rest : Bytes}
    {result : Result} (hfits : items.length < 0x10000)
    (hitems : List.Forall₂ (fun item value => Accepts decoder (encode item) value) items values)
    (hnext : ∀ count : UInt16, count.toNat = items.length →
      Accepts (next count values) rest result) :
    Accepts (uint16 >>= fun count => replicate count.toNat decoder >>= next count)
      (encodeTable encode items ++ rest) result := by
  obtain ⟨count, hcount, hread⟩ := exists_accepts_uint16 hfits
  rw [encodeTable, List.append_assoc]
  apply accepts_bind hread
  rw [hcount]
  exact accepts_bind (accepts_replicate hitems) (hnext count hcount)

/-- A table that is skipped needs its count and no values. -/
theorem exists_accepts_skipped {item : Decoder Unit} (hfits : items.length < 0x10000)
    (hitems : ∀ layout ∈ items, Accepts item (encode layout) ()) :
    ∃ count : UInt16, count.toNat = items.length ∧
      Accepts uint16 (BigEndian.digits 2 items.length) count ∧
      Accepts (discard (replicate count.toNat item)) (items.flatMap encode) () := by
  obtain ⟨count, hcount, hread⟩ := exists_accepts_uint16 hfits
  have hvalues : List.Forall₂ (fun layout done => Accepts item (encode layout) done) items
      (items.map (fun _ => ())) := by
    rw [List.forall₂_map_right_iff, List.forall₂_same]
    exact hitems
  refine ⟨count, hcount, hread, ?_⟩
  rw [hcount]
  exact accepts_map _ (accepts_replicate hvalues)

end Tables

/-! ## Attributes -/

theorem accepts_skipAttribute {attr : AttributeLayout}
    (hfits : attr.content.length < 0x100000000) :
    Accepts skipAttribute attr.encode () := by
  obtain ⟨length, hlength, hread⟩ := exists_accepts_uint32 hfits
  rw [AttributeLayout.encode, List.append_assoc]
  apply accepts_bind (accepts_skip (BigEndian.length_digits 2 attr.name.toNat))
  exact accepts_bind hread (accepts_skip hlength.symm)

theorem accepts_skipAttributes {attributes : List AttributeLayout}
    (hfits : AttributesFit attributes) :
    Accepts skipAttributes (encodeTable AttributeLayout.encode attributes) () := by
  obtain ⟨count, _, hread, hskipped⟩ := exists_accepts_skipped hfits.1
    (fun attr hattr => accepts_skipAttribute (hfits.2 attr hattr))
  exact accepts_bind hread hskipped

theorem accepts_skipField {field : MemberLayout} (hfits : AttributesFit field.attributes) :
    Accepts ClassFile.skipField field.encode () := by
  have hhead : (encodeIndices [field.access, field.name, field.descriptor]).length = 6 := by
    simp [encodeIndices, Constant.encodeIndex]
  exact accepts_bind (accepts_skip hhead) (accepts_skipAttributes hfits)

/-! ## Bodies -/

theorem accepts_optionalClassName {index : UInt16} {name : Option String}
    (hname : pool.NamesOptionalClass index name) :
    Accepts (ofExcept (pool.optionalClassName index)) [] name :=
  accepts_ofExcept (ConstantPool.optionalClassName_eq_ok_iff.mpr hname)

theorem HandlerLayout.Describes.accepts {layout : HandlerLayout} {handler : Handler}
    (hhandler : layout.Describes pool handler) :
    Accepts (Handler.decode pool) layout.encode handler := by
  obtain ⟨start, finish, target, catchType⟩ := handler
  obtain ⟨rfl, rfl, rfl, hcatchType⟩ := hhandler
  simp only [HandlerLayout.encode, encodeIndices, List.flatMap_cons, List.flatMap_nil]
  apply accepts_bind (accepts_uint16 layout.start)
  apply accepts_bind (accepts_uint16 layout.finish)
  apply accepts_bind (accepts_uint16 layout.target)
  apply accepts_bind (accepts_uint16 layout.catchType)
  exact accepts_return _ (accepts_optionalClassName hcatchType)

/-- A body is read back as the one its layout describes. -/
theorem BodyLayout.Describes.accepts {body : BodyLayout} {code : Code}
    (hcode : body.Describes pool code) (hbody : body.WellFormed pool) :
    Accepts (Code.decode pool) body.encode code := by
  obtain ⟨maxStack, maxLocals, length, instructions, handlers⟩ := code
  obtain ⟨rfl, rfl, rfl, hinstructions, hhandlers⟩ := hcode
  have hpositive : 0 < body.code.length := List.length_pos_iff.mpr hbody.code_ne_nil
  have hbound := hbody.code_fits
  have hlimit : Code.maxLength = 65535 := rfl
  have hallowed : ¬ (decide (body.code.length = 0) ||
      decide (Code.maxLength < body.code.length)) = true := by
    rw [Bool.or_eq_true, decide_eq_true_eq, decide_eq_true_eq]
    omega
  have hdisassembled : Accepts (Code.instructionsOf body.code) [] instructions := by
    simp only [Code.instructionsOf, hinstructions]
    exact accepts_pure instructions
  obtain ⟨length, hlength, hread⟩ :=
    exists_accepts_uint32 (show body.code.length < 0x100000000 by omega)
  simp only [BodyLayout.encode, encodeIndices, List.flatMap_cons, List.flatMap_nil,
    List.append_nil, List.append_assoc]
  apply accepts_bind (accepts_uint16 body.maxStack)
  apply accepts_bind (accepts_uint16 body.maxLocals)
  apply accepts_bind hread
  simp only [hlength, if_neg hallowed]
  apply accepts_bind (accepts_bytes rfl)
  apply accepts_then hdisassembled
  apply accepts_table hbody.handlers_fit (hhandlers.imp (fun _ _ hhandler => hhandler.accepts))
  intro handlerCount _
  exact accepts_return (fun _ => _) (accepts_skipAttributes hbody.attributes_fit)

/-! ## Methods -/

namespace Method

variable {attr : AttributeLayout} {method : Method} {name : String}

/-- The name and the content of an attribute are read back, whatever is done
with them. -/
theorem accepts_decodeAttribute {result : Method}
    (hname : pool.Holds attr.name (.utf8 name)) (hfits : attr.content.length < 0x100000000)
    (hresult : Accepts (if name = codeAttribute then
        match method.code with
        | some _ => malformed (.repeatedCode method.owner method.name method.descriptor)
        | none => do
            return { method with code := some (← within attr.content (Code.decode pool)) }
      else pure method) [] result) :
    Accepts (decodeAttribute pool method) attr.encode result := by
  obtain ⟨length, hlength, hread⟩ := exists_accepts_uint32 hfits
  rw [AttributeLayout.encode, List.append_assoc]
  apply accepts_bind (accepts_uint16 attr.name)
  apply accepts_then (accepts_ofExcept (ConstantPool.text_eq_ok_iff.mpr hname))
  apply accepts_bind hread
  exact accepts_last (accepts_bytes hlength.symm) hresult

/-- An attribute that is no body is passed over. -/
theorem accepts_decodeAttribute_of_not_isBody
    (hname : pool.Holds attr.name (.utf8 name)) (hfits : attr.content.length < 0x100000000)
    (hother : ¬ attr.IsBody pool) : Accepts (decodeAttribute pool method) attr.encode method := by
  apply accepts_decodeAttribute hname hfits
  have hname' : name ≠ codeAttribute := by
    rintro rfl
    exact hother hname
  rw [if_neg hname']
  exact accepts_pure method

/-- The body of a method is read back from its attribute, if it is the first. -/
theorem accepts_decodeAttribute_of_isBody {body : BodyLayout} {code : Code}
    (hnamed : attr.IsBody pool) (hfits : attr.content.length < 0x100000000)
    (hfirst : method.code = none) (hbody : body.WellFormed pool)
    (hcontent : attr.content = body.encode) (hcode : body.Describes pool code) :
    Accepts (decodeAttribute pool method) attr.encode { method with code := some code } := by
  apply accepts_decodeAttribute hnamed hfits
  rw [if_pos rfl, hfirst, hcontent]
  exact accepts_return (fun code => { method with code := some code })
    (accepts_within (hcode.accepts hbody))

/-- Attributes that are no bodies are passed over, one after another. -/
theorem accepts_decodeAttributes_of_not_isBody {attributes : List AttributeLayout}
    (hnames : ∀ attr ∈ attributes, ∃ text, pool.Holds attr.name (.utf8 text))
    (hfits : ∀ attr ∈ attributes, attr.content.length < 0x100000000)
    (hothers : ∀ attr ∈ attributes, ¬ attr.IsBody pool) :
    Accepts (decodeAttributes pool attributes.length method)
      (attributes.flatMap AttributeLayout.encode) method := by
  induction attributes with
  | nil => exact accepts_pure method
  | cons attr attributes ih =>
      rw [List.forall_mem_cons] at hnames hfits hothers
      obtain ⟨name, hname⟩ := hnames.1
      apply accepts_bind (accepts_decodeAttribute_of_not_isBody hname hfits.1 hothers.1)
      exact ih hnames.2 hfits.2 hothers.2

/-- The attributes of a method give it the body that they describe.  By
induction on the attributes: a body is the last of them that changes the
method, because there is only one. -/
theorem accepts_decodeAttributes {attributes : List AttributeLayout} {code : Option Code}
    (hnames : ∀ attr ∈ attributes, ∃ text, pool.Holds attr.name (.utf8 text))
    (hfits : ∀ attr ∈ attributes, attr.content.length < 0x100000000)
    (hsingle : attributes.Pairwise (fun left right => left.IsBody pool → ¬ right.IsBody pool))
    (hfirst : method.code = none) (hcode : DescribesBody pool attributes code) :
    Accepts (decodeAttributes pool attributes.length method)
      (attributes.flatMap AttributeLayout.encode) { method with code } := by
  cases code with
  | none =>
      have hsame : { method with code := none } = method := by rw [← hfirst]
      rw [hsame]
      exact accepts_decodeAttributes_of_not_isBody hnames hfits hcode
  | some code =>
      induction attributes with
      | nil =>
          obtain ⟨attr, hmem, _⟩ := hcode
          cases hmem
      | cons attr attributes ih =>
          obtain ⟨found, hmem, hnamed, body, hbody, hcontent, hdescribes⟩ := hcode
          rw [List.forall_mem_cons] at hnames hfits
          rw [List.pairwise_cons] at hsingle
          rcases List.mem_cons.mp hmem with rfl | hrest
          · apply accepts_bind (accepts_decodeAttribute_of_isBody hnamed hfits.1 hfirst hbody
              hcontent hdescribes)
            exact accepts_decodeAttributes_of_not_isBody hnames.2 hfits.2
              (fun attr hattr => hsingle.1 attr hattr hnamed)
          · have hother : ¬ attr.IsBody pool := fun hattr => hsingle.1 found hrest hattr hnamed
            obtain ⟨name, hname⟩ := hnames.1
            apply accepts_bind (accepts_decodeAttribute_of_not_isBody hname hfits.1 hother)
            exact ih hnames.2 hfits.2 hsingle.2
              ⟨found, hrest, hnamed, body, hbody, hcontent, hdescribes⟩

end Method

/-- A method is read back as the one its layout describes. -/
theorem MemberLayout.Describes.accepts {member : MemberLayout} {owner : String} {method : Method}
    (hmethod : member.Describes pool owner method) (hmember : member.WellFormed pool) :
    Accepts (Method.decode pool owner) member.encode method := by
  obtain ⟨_, name, descriptor, ⟨access⟩, code⟩ := method
  obtain ⟨rfl, rfl, hname, hdescriptor, hcode⟩ := hmethod
  obtain ⟨count, hcount, hread⟩ := exists_accepts_uint16 hmember.attributes_fit.1
  simp only [MemberLayout.encode, encodeIndices, encodeTable, List.flatMap_cons, List.flatMap_nil,
    List.append_nil, List.append_assoc]
  apply accepts_bind (accepts_uint16 member.access)
  apply accepts_bind (accepts_uint16 member.name)
  apply accepts_then (accepts_ofExcept (ConstantPool.text_eq_ok_iff.mpr hname))
  apply accepts_bind (accepts_uint16 member.descriptor)
  apply accepts_then (accepts_ofExcept (ConstantPool.text_eq_ok_iff.mpr hdescriptor))
  apply accepts_bind hread
  rw [hcount]
  exact Method.accepts_decodeAttributes hmember.attributeNames hmember.attributes_fit.2
    hmember.single_body rfl hcode

/-! ## Classes -/

namespace ClassFile

theorem accepts_decodeClassName {index : UInt16} {stored : String}
    (hstored : pool.NamesClass index stored) :
    Accepts (decodeClassName pool) (Constant.encodeIndex index) (binaryName stored) := by
  apply accepts_last (accepts_uint16 index)
  exact accepts_return binaryName (accepts_ofExcept (ConstantPool.className_eq_ok_iff.mpr hstored))

theorem accepts_decodeSuperName {index : UInt16} {stored : Option String}
    (hstored : pool.NamesOptionalClass index stored) :
    Accepts (decodeSuperName pool) (Constant.encodeIndex index) (stored.map binaryName) := by
  apply accepts_last (accepts_uint16 index)
  exact accepts_return (Option.map binaryName) (accepts_optionalClassName hstored)

end ClassFile

/-- A class is read back as the one its layout describes. -/
theorem ClassLayout.Describes.accepts {layout : ClassLayout} {decoded : ClassFile}
    (hdecoded : layout.Describes decoded) (hlayout : layout.WellFormed) :
    Accepts ClassFile.decodeContent layout.encode decoded := by
  obtain ⟨_, _, _, ⟨_⟩, _, _, interfaces, _, methods⟩ := decoded
  obtain ⟨rfl, rfl, rfl, rfl, ⟨stored, hself, rfl⟩, ⟨parent, hparent, rfl⟩, hinterfaces, rfl,
    hmethods⟩ := hdecoded
  have hmagic : Accepts (ClassFile.checkMagic classMagic) [] () := accepts_pure ()
  have hinterfaces : List.Forall₂ (fun index name =>
      Accepts (ClassFile.decodeClassName layout.pool) (Constant.encodeIndex index) name)
      layout.interfaces interfaces := by
    apply hinterfaces.imp
    rintro index _ ⟨name, hname, rfl⟩
    exact ClassFile.accepts_decodeClassName hname
  have hmethods : List.Forall₂ (fun member method =>
      Accepts (Method.decode layout.pool (binaryName stored)) (MemberLayout.encode member) method)
      layout.methods methods := by
    apply ((List.forall₂_and_left _ _).mpr ⟨hlayout.methods, hmethods⟩).imp
    rintro member method ⟨hmember, hmethod⟩
    exact hmethod.accepts hmember
  obtain ⟨fieldCount, hfieldCount, hfields, hskipped⟩ := exists_accepts_skipped hlayout.fields_fit
    (fun field hfield => accepts_skipField (hlayout.fields field hfield))
  simp only [ClassLayout.encode, encodeIndices, List.flatMap_cons, List.flatMap_nil,
    List.append_nil, List.append_assoc]
  apply accepts_bind (accepts_uint32 classMagic)
  apply accepts_then hmagic
  apply accepts_bind (accepts_uint16 layout.minorVersion)
  apply accepts_bind (accepts_uint16 layout.majorVersion)
  apply accepts_bind (ConstantPool.accepts_decode hlayout.constants_fit hlayout.pool_fits)
  apply accepts_bind (accepts_uint16 layout.access)
  apply accepts_bind (ClassFile.accepts_decodeClassName hself)
  apply accepts_bind (ClassFile.accepts_decodeSuperName hparent)
  apply accepts_table hlayout.interfaces_fit hinterfaces
  intro _ _
  rw [encodeTable, List.append_assoc]
  apply accepts_bind hfields
  apply accepts_bind hskipped
  apply accepts_table hlayout.methods_fit hmethods
  intro _ _
  rw [hfieldCount]
  exact accepts_return (fun _ => _) (accepts_skipAttributes hlayout.attributes_fit)

/-! ## Invocations -/

/-- The check of a class passes exactly the invocations that can be followed. -/
theorem ClassFile.checkInvocation_eq_ok_iff {instruction : Instruction} :
    checkInvocation pool instruction = .ok () ↔ instruction.Resolves pool := by
  constructor
  · intro hcheck
    constructor
    · intro index hindex hcall
      obtain ⟨kind, hkind⟩ := Instruction.isMethodCall_iff.mp hcall
      obtain ⟨target, type, htarget, htype⟩ :=
        exists_target_of_checkInvocation hcheck hkind hindex
      exact ⟨target.owner, target.name, target.descriptor, type,
        ConstantPool.namesMethod_iff.mpr ⟨target.isInterface, htarget⟩, htype⟩
    · intro index hindex hdynamic
      have hkind : InvokeKind.ofByte? instruction.opcode.byte = none := by
        rw [hdynamic]
        decide
      simp only [checkInvocation, hindex, hkind, Option.isSome_none, Bool.false_eq_true, if_false,
        if_pos hdynamic] at hcheck
      obtain ⟨site, hsite, _⟩ := Outcome.map_eq_ok_iff.mp hcheck
      exact ⟨site.name, site.descriptor, ConstantPool.invokeDynamic_eq_ok_iff.mp hsite⟩
  · intro hresolves
    rw [checkInvocation]
    split
    · rfl
    · next index hindex =>
        split
        · next hkind =>
            obtain ⟨kind, hkind⟩ := Option.isSome_iff_exists.mp hkind
            obtain ⟨owner, name, descriptor, type, hnames, htype⟩ :=
              hresolves.method index hindex (Instruction.isMethodCall_iff.mpr ⟨kind, hkind⟩)
            obtain ⟨isInterface, htarget⟩ := ConstantPool.namesMethod_iff.mp hnames
            apply Outcome.bind_eq_ok_iff.mpr
            exact ⟨_, htarget, Outcome.map_eq_ok_iff.mpr ⟨type, htype, rfl⟩⟩
        · split
          · next hdynamic =>
              obtain ⟨name, descriptor, hnames⟩ := hresolves.dynamic index hindex hdynamic
              have hsite : pool.invokeDynamic index = .ok { name, descriptor } :=
                ConstantPool.invokeDynamic_eq_ok_iff.mpr hnames
              exact Outcome.map_eq_ok_iff.mpr ⟨_, hsite, rfl⟩
          · rfl

instance (instruction : Instruction) : Decidable (instruction.Resolves pool) :=
  decidable_of_iff _ ClassFile.checkInvocation_eq_ok_iff

theorem MemberLayout.Describes.resolves {member : MemberLayout} {owner : String}
    {method : Method} (hmethod : member.Describes pool owner method) :
    ∀ instruction ∈ method.instructions, instruction.Resolves pool := by
  have hcode := hmethod.body
  rw [Method.instructions]
  split
  · next code hsome =>
      rw [hsome] at hcode
      obtain ⟨_, _, _, body, hbody, _, hdescribes⟩ := hcode
      obtain ⟨instructions, hdecoded, hresolves⟩ := hbody.instructions
      have hsame := hdecoded.symm.trans hdescribes.instructions
      cases hsame
      exact hresolves
  · intro _ hmem
    cases hmem

theorem ClassLayout.Describes.checkInvocations {layout : ClassLayout} {decoded : ClassFile}
    (hdecoded : layout.Describes decoded) : decoded.checkInvocations = .ok () := by
  rw [ClassFile.checkInvocations_eq_ok_iff, hdecoded.pool]
  intro method hmethod instruction hinstruction
  obtain ⟨member, _, hdescribes⟩ := Outcome.exists_of_mem_right hdecoded.methods hmethod
  exact ClassFile.checkInvocation_eq_ok_iff.mpr (hdescribes.resolves instruction hinstruction)

/-! ## Parsing -/

/-- The class that a well-formed layout describes is what its stored form is
parsed as. -/
theorem ClassLayout.Describes.parsed {layout : ClassLayout} {decoded : ClassFile}
    (hdecoded : layout.Describes decoded) (hlayout : layout.WellFormed) :
    ClassFile.parse layout.encode = .ok decoded := by
  have hdata : (Cursor.start layout.encode).rest = layout.encode ++ [] :=
    (List.append_nil layout.encode).symm
  obtain ⟨stop, hspans, hend⟩ := Cursor.exists_spans _ hdata
  have hread := hdecoded.accepts hlayout hspans
  apply ClassFile.parse_eq_ok_iff.mpr
  refine ⟨?_, ClassFile.run_eq_ok_iff_content.mpr ⟨stop, hread, hend⟩, hdecoded.checkInvocations⟩
  intro hempty
  have hmagic : BigEndian.digits 4 classMagic.toNat <+: layout.encode := by
    simp [ClassLayout.encode, List.append_assoc]
  rw [hempty] at hmagic
  exact absurd hmagic (by decide)

/-- Every well-formed layout is parsed from its stored form, as the one class it
describes. -/
theorem ClassLayout.parse_encode {layout : ClassLayout} (hlayout : layout.WellFormed) :
    ∃ decoded, ClassFile.parse layout.encode = .ok decoded ∧
      ∀ described, layout.Describes described ↔ described = decoded := by
  obtain ⟨decoded, hdecoded⟩ := hlayout.exists_described
  have hparsed := hdecoded.parsed hlayout
  refine ⟨decoded, hparsed, fun described => ⟨?_, ?_⟩⟩
  · intro hdescribed
    have hsame := (hdescribed.parsed hlayout).symm.trans hparsed
    exact Except.ok.inj hsame
  · rintro rfl
    exact hdecoded

namespace ClassLayout

/-- A body with two calls and two handlers, and with a table of attributes. -/
def callingBody : BodyLayout where
  maxStack := 1
  maxLocals := 0
  code := [0xB8, 0, 9, 0xBA, 0, 13, 0, 0, 0xB1]
  handlers := [⟨0, 3, 8, 4⟩, ⟨0, 8, 8, 0⟩]
  attributes := [⟨12, [0, 1]⟩]

/-- A class that uses all of its tables.  One of its constants takes two slots,
and the attribute that holds the body stands between two others. -/
def everyTable : ClassLayout where
  minorVersion := 3
  majorVersion := 52
  constants := [
    .utf8 "A", .classRef 1, .utf8 "java/lang/Object", .classRef 3, .utf8 "Code", .utf8 "m",
    .utf8 "()V", .nameAndType 6 7, .methodRef 2 8, .long (-1), .utf8 "Note",
    .invokeDynamic 0 8]
  access := 0x21
  self := 2
  parent := 4
  interfaces := [4, 2]
  fields := [⟨0x0002, 6, 7, [⟨12, [1, 2, 3]⟩]⟩]
  methods := [⟨0x0401, 6, 7, []⟩, ⟨0x0001, 6, 7, [⟨12, [9]⟩, ⟨5, callingBody.encode⟩, ⟨12, []⟩]⟩]
  attributes := [⟨12, [7]⟩]

theorem callingBody_wellFormed : callingBody.WellFormed everyTable.pool where
  code_ne_nil := by decide
  code_fits := by decide
  instructions :=
    ⟨[⟨0, 3, ⟨0xB8, by decide⟩, false, .constant 9⟩, ⟨3, 5, ⟨0xBA, by decide⟩, false, .constant 13⟩,
      ⟨8, 1, ⟨0xB1, by decide⟩, false, .empty⟩], by decide +kernel, by decide +kernel⟩
  handlers_fit := by decide
  catchTypes := by
    intro handler hhandler hnonzero
    simp only [callingBody, List.mem_cons, List.not_mem_nil, or_false] at hhandler
    rcases hhandler with rfl | rfl
    · exact ⟨"java/lang/Object", by decide +kernel⟩
    · exact absurd rfl hnonzero
  attributes_fit := by decide

theorem everyTable_methods_wellFormed :
    ∀ method ∈ everyTable.methods, method.WellFormed everyTable.pool := by
  intro method hmethod
  simp only [everyTable, List.mem_cons, List.not_mem_nil, or_false] at hmethod
  rcases hmethod with rfl | rfl
  · exact {
      name := ⟨"m", by decide +kernel⟩
      descriptor := ⟨"()V", by decide +kernel⟩
      attributes_fit := by decide
      attributeNames := by simp
      single_body := by simp
      bodies := by simp }
  · exact {
      name := ⟨"m", by decide +kernel⟩
      descriptor := ⟨"()V", by decide +kernel⟩
      attributes_fit := by decide
      attributeNames := by
        intro attr hattr
        simp only [List.mem_cons, List.not_mem_nil, or_false] at hattr
        rcases hattr with rfl | rfl | rfl
        · exact ⟨"Note", by decide +kernel⟩
        · exact ⟨"Code", by decide +kernel⟩
        · exact ⟨"Note", by decide +kernel⟩
      single_body := by decide +kernel
      bodies := by
        intro attr hattr hnamed
        simp only [List.mem_cons, List.not_mem_nil, or_false] at hattr
        rcases hattr with rfl | rfl | rfl
        · exact absurd hnamed (by decide +kernel)
        · exact ⟨callingBody, callingBody_wellFormed, rfl⟩
        · exact absurd hnamed (by decide +kernel) }

theorem everyTable_wellFormed : everyTable.WellFormed where
  constants_fit := by decide +kernel
  pool_fits := by decide
  self := ⟨"A", by decide +kernel⟩
  parent := fun _ => ⟨"java/lang/Object", by decide +kernel⟩
  interfaces_fit := by decide
  interfaces := by
    intro index hindex
    simp only [everyTable, List.mem_cons, List.not_mem_nil, or_false] at hindex
    rcases hindex with rfl | rfl
    · exact ⟨"java/lang/Object", by decide +kernel⟩
    · exact ⟨"A", by decide +kernel⟩
  fields_fit := by decide
  fields := by decide
  methods_fit := by decide
  methods := everyTable_methods_wellFormed
  attributes_fit := by decide

theorem parse_everyTable :
    ∃ decoded, ClassFile.parse everyTable.encode = .ok decoded ∧ everyTable.Describes decoded ∧
      decoded.fieldCount = 1 ∧ decoded.methods.length = 2 := by
  obtain ⟨decoded, hparsed, hdescribed⟩ := parse_encode everyTable_wellFormed
  have hdecoded := (hdescribed decoded).mpr rfl
  exact ⟨decoded, hparsed, hdecoded, hdecoded.fieldCount, hdecoded.methods.length_eq.symm⟩

end ClassLayout

end JvmCalls

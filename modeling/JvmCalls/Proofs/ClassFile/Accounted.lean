import JvmCalls.Proofs.ClassFile.Parts
import JvmCalls.Proofs.ClassFile.RoundTrip

/-!
# Accounted bytes

Every byte of a class that is parsed stands in one of its parts.  The one
exception are bytes inside the attribute of a body.  A body is read by a cursor
of its own, and where that cursor stops is not looked at, so that an attribute
may be longer than the body in it.
-/

namespace JvmCalls

open BigEndian Decoder Outcome

namespace Decoder

variable {Item Value : Type}

/-- Every value that the decoder returns is described by an item, and it was
read from exactly the bytes of the item. -/
def Accounts (decoder : Decoder Value) (encode : Item → Bytes)
    (describes : Item → Value → Prop) : Prop :=
  ∀ ⦃cursor value next⦄, decoder cursor = .ok value next →
    ∃ item, cursor.Spans (encode item) next ∧ describes item value

variable {decoder : Decoder Value} {encode : Item → Bytes} {describes : Item → Value → Prop}

theorem accounts_replicate (hitem : Accounts decoder encode describes) (count : Nat) :
    Accounts (replicate count decoder) (fun items => items.flatMap encode)
      (fun items values => items.length = count ∧ List.Forall₂ describes items values) := by
  induction count with
  | zero =>
      intro cursor values next hread
      rw [replicate_zero] at hread
      cases hread
      exact ⟨[], Cursor.spans_nil_iff.mpr rfl, rfl, List.Forall₂.nil⟩
  | succ count ih =>
      intro cursor values next hread
      rw [replicate_succ] at hread
      obtain ⟨value, middle, hvalue, hrest⟩ := run_bind_eq_ok_iff.mp hread
      obtain ⟨others, hothers, rfl⟩ := run_return_eq_ok_iff.mp hrest
      obtain ⟨item, hspans, hdescribes⟩ := hitem hvalue
      obtain ⟨items, hmore, hlength, hall⟩ := ih hothers
      exact ⟨item :: items, hspans.append hmore, congrArg (· + 1) hlength, hall.cons hdescribes⟩

/-- The count and the items of a table are its bytes. -/
theorem Accounts.table (hitem : Accounts decoder encode describes) {cursor middle next : Cursor}
    {count : UInt16} {values : List Value} (hcount : uint16 cursor = .ok count middle)
    (hvalues : replicate count.toNat decoder middle = .ok values next) :
    ∃ items, cursor.Spans (encodeTable encode items) next ∧ items.length = count.toNat ∧
      List.Forall₂ describes items values := by
  obtain ⟨items, hspans, hlength, hall⟩ := accounts_replicate hitem count.toNat hvalues
  have hfront := uint16_eq_ok_iff.mp hcount
  rw [← hlength] at hfront
  exact ⟨items, hfront.append hspans, hlength, hall⟩

/-- The same for a table of which only the bytes count. -/
theorem Accounts.skippedTable {item : Decoder Unit} {fits : Item → Prop}
    (hitem : Accounts item encode (fun layout _ => fits layout)) {cursor middle next : Cursor}
    {count : UInt16} {done : Unit} (hcount : uint16 cursor = .ok count middle)
    (hskipped : discard (replicate count.toNat item) middle = .ok done next) :
    ∃ items, cursor.Spans (encodeTable encode items) next ∧ items.length = count.toNat ∧
      ∀ layout ∈ items, fits layout := by
  change ((fun _ => ()) <$> replicate count.toNat item) middle = .ok done next at hskipped
  rw [map_eq_pure_bind] at hskipped
  obtain ⟨values, hvalues, _⟩ := run_return_eq_ok_iff.mp hskipped
  obtain ⟨items, hspans, hlength, hall⟩ := hitem.table hcount hvalues
  refine ⟨items, hspans, hlength, fun layout hlayout => ?_⟩
  obtain ⟨_, _, hfits⟩ := exists_of_mem_right hall.flip hlayout
  exact hfits

end Decoder

/-! ## Skipped parts -/

theorem exists_index_of_length {content : Bytes} (hlength : content.length = 2) :
    ∃ index, content = Constant.encodeIndex index := by
  have hfits := value_lt content
  rw [hlength] at hfits
  refine ⟨UInt16.ofNat (value content), ?_⟩
  rw [Constant.encodeIndex, UInt16.toNat_ofNat_of_lt' hfits, value_digits_value 2 content hlength]

theorem exists_indices_of_length {count : Nat} {content : Bytes}
    (hlength : content.length = 2 * count) :
    ∃ numbers : List UInt16, numbers.length = count ∧ content = encodeIndices numbers :=
  exists_items_of_length (fun _ => exists_index_of_length) hlength

theorem accounts_skipAttribute :
    Accounts skipAttribute AttributeLayout.encode
      (fun attr _ => attr.content.length < 0x100000000) := by
  intro cursor done next hread
  obtain ⟨_, middle, hname, hrest⟩ := run_bind_eq_ok_iff.mp hread
  obtain ⟨length, behind, hlength, hcontent⟩ := run_bind_eq_ok_iff.mp hrest
  obtain ⟨name, htwo, hfront⟩ := skip_eq_ok_iff.mp hname
  obtain ⟨index, rfl⟩ := exists_index_of_length htwo
  obtain ⟨content, hcount, hspans⟩ := skip_eq_ok_iff.mp hcontent
  have hmiddle := uint32_eq_ok_iff.mp hlength
  have hfits := length.toNat_lt
  rw [← hcount] at hmiddle hfits
  exact ⟨⟨index, content⟩, (hfront.append hmiddle).append hspans, hfits⟩

theorem accounts_skipAttributes :
    Accounts skipAttributes (encodeTable AttributeLayout.encode)
      (fun attributes _ => AttributesFit attributes) := by
  intro cursor done next hread
  obtain ⟨count, middle, hcount, hrest⟩ := run_bind_eq_ok_iff.mp hread
  obtain ⟨attributes, hspans, hlength, hfits⟩ := accounts_skipAttribute.skippedTable hcount hrest
  exact ⟨attributes, hspans, hlength ▸ count.toNat_lt, hfits⟩

theorem accounts_skipField :
    Accounts ClassFile.skipField MemberLayout.encode
      (fun field _ => AttributesFit field.attributes) := by
  intro cursor done next hread
  obtain ⟨_, middle, hhead, hrest⟩ := run_bind_eq_ok_iff.mp hread
  obtain ⟨head, hsix, hfront⟩ := skip_eq_ok_iff.mp hhead
  have hthree : head.length = 2 * 3 := hsix
  obtain ⟨numbers, hcount, rfl⟩ := exists_indices_of_length hthree
  obtain ⟨access, name, descriptor, rfl⟩ := List.length_eq_three.mp hcount
  obtain ⟨attributes, hspans, hfits⟩ := accounts_skipAttributes hrest
  exact ⟨⟨access, name, descriptor, attributes⟩, hfront.append hspans, hfits⟩

/-! ## Bodies -/

variable {pool : ConstantPool}

theorem accounts_decodeHandler :
    Accounts (Handler.decode pool) HandlerLayout.encode (HandlerLayout.Describes pool) := by
  intro cursor handler next hread
  obtain ⟨start, afterStart, hstart, hread⟩ := run_bind_eq_ok_iff.mp hread
  obtain ⟨finish, afterFinish, hfinish, hread⟩ := run_bind_eq_ok_iff.mp hread
  obtain ⟨target, afterTarget, htarget, hread⟩ := run_bind_eq_ok_iff.mp hread
  obtain ⟨index, afterIndex, hindex, hread⟩ := run_bind_eq_ok_iff.mp hread
  obtain ⟨catchType, hcatchType, rfl⟩ := run_return_eq_ok_iff.mp hread
  obtain ⟨hname, rfl⟩ := ofExcept_eq_ok_iff.mp hcatchType
  refine ⟨⟨start, finish, target, index⟩, ?_, rfl, rfl, rfl,
    ConstantPool.optionalClassName_eq_ok_iff.mp hname⟩
  have hfront := (uint16_eq_ok_iff.mp hstart).append (uint16_eq_ok_iff.mp hfinish)
  have hback := (uint16_eq_ok_iff.mp htarget).append (uint16_eq_ok_iff.mp hindex)
  simpa [HandlerLayout.encode, encodeIndices, Constant.encodeIndex] using hfront.append hback

theorem instructionsOf_eq_ok_iff {content : Bytes} {instructions : List Instruction}
    {cursor next : Cursor} :
    Code.instructionsOf content cursor = .ok instructions next ↔
      Instruction.decodeAll content = .ok instructions ∧ next = cursor := by
  rw [Code.instructionsOf]
  cases hdecoded : Instruction.decodeAll content with
  | ok found =>
      constructor
      · intro hread
        cases hread
        exact ⟨rfl, rfl⟩
      · rintro ⟨hfound, rfl⟩
        cases hfound
        rfl
  | error fault =>
      constructor
      · intro hread
        cases hread
      · rintro ⟨hfound, _⟩
        cases hfound

/-- A body is read from the bytes of its layout.  They may be followed by
others. -/
theorem accounts_decodeCode :
    Accounts (Code.decode pool) BodyLayout.encode
      (fun body code => body.Fits ∧ body.Describes pool code) := by
  intro cursor code next hread
  obtain ⟨maxStack, afterStack, hstack, hread⟩ := run_bind_eq_ok_iff.mp hread
  obtain ⟨maxLocals, afterLocals, hlocals, hread⟩ := run_bind_eq_ok_iff.mp hread
  obtain ⟨length, afterLength, hlength, hread⟩ := run_bind_eq_ok_iff.mp hread
  split at hread
  · cases hread
  · next hallowed =>
      obtain ⟨content, afterCode, hcontent, hread⟩ := run_bind_eq_ok_iff.mp hread
      obtain ⟨instructions, behind, hinstructions, htables⟩ := run_bind_eq_ok_iff.mp hread
      obtain ⟨hdecoded, rfl⟩ := instructionsOf_eq_ok_iff.mp hinstructions
      obtain ⟨count, afterCount, hcount, hread⟩ := run_bind_eq_ok_iff.mp htables
      obtain ⟨handlers, afterHandlers, hhandlers, hread⟩ := run_bind_eq_ok_iff.mp hread
      obtain ⟨done, hattributes, rfl⟩ := run_return_eq_ok_iff.mp hread
      obtain ⟨hlong, hcode⟩ := bytes_eq_ok_iff.mp hcontent
      obtain ⟨handlerLayouts, htable, hmany, hdescribes⟩ :=
        accounts_decodeHandler.table hcount hhandlers
      obtain ⟨attributes, hnested, hfits⟩ := accounts_skipAttributes hattributes
      have hlimits := (uint16_eq_ok_iff.mp hstack).append (uint16_eq_ok_iff.mp hlocals)
      have hmiddle := uint32_eq_ok_iff.mp hlength
      rw [← hlong] at hmiddle hallowed
      rw [Bool.or_eq_true, decide_eq_true_eq, decide_eq_true_eq, not_or, Nat.not_lt] at hallowed
      refine ⟨⟨maxStack, maxLocals, content, handlerLayouts, attributes⟩, ?_,
        ⟨?_, hallowed.2, hmany ▸ count.toNat_lt, hfits⟩,
        rfl, rfl, hlong.symm, hdecoded, hdescribes⟩
      · have hall := (((hlimits.append hmiddle).append hcode).append htable).append hnested
        simpa [BodyLayout.encode, encodeIndices, Constant.encodeIndex] using hall
      · exact fun hnil => hallowed.1 (List.length_eq_zero_iff.mpr hnil)

/-- A body is read from the front of its attribute, whatever stands behind it
there. -/
theorem BodyLayout.WellFormed.isBodyOf {name : UInt16} {body : BodyLayout} {code : Code}
    (hbody : body.WellFormed pool) (hname : pool.Holds name (.utf8 Method.codeAttribute))
    (hcode : body.Describes pool code) (unread : Bytes) :
    AttributeParts.IsBodyOf pool ⟨name, .body body unread⟩ code := by
  refine ⟨hname, body, unread, rfl, ?_, hcode, ?_⟩
  · exact ⟨hbody.code_ne_nil, hbody.code_fits, hbody.handlers_fit, hbody.attributes_fit⟩
  · have hcontent : (Cursor.start (body.encode ++ unread)).rest = body.encode ++ unread := rfl
    obtain ⟨stop, hspans, hrest⟩ := Cursor.exists_spans _ hcontent
    exact ⟨stop, hcode.accepts hbody hspans, hrest⟩

/-! ## Methods -/

namespace Method

variable {cursor next : Cursor} {method result : Method}

/-- An attribute is passed over, or it is a body and the method has no other. -/
theorem exists_attribute_of_decode
    (hread : decodeAttribute pool method cursor = .ok result next) :
    ∃ attr : AttributeParts, cursor.Spans attr.layout.encode next ∧
      attr.layout.content.length < 0x100000000 ∧
      (attr.IsSkipped pool ∧ result = method ∨
        method.code = none ∧
          ∃ code, attr.IsBodyOf pool code ∧ result = { method with code := some code }) := by
  obtain ⟨index, afterIndex, hindex, hread⟩ := run_bind_eq_ok_iff.mp hread
  obtain ⟨name, hname, hread⟩ := ofExcept_bind_eq_ok_iff.mp hread
  obtain ⟨length, afterLength, hlength, hread⟩ := run_bind_eq_ok_iff.mp hread
  obtain ⟨content, afterContent, hcontent, hresult⟩ := run_bind_eq_ok_iff.mp hread
  obtain ⟨hcount, hbytes⟩ := bytes_eq_ok_iff.mp hcontent
  have hholds := ConstantPool.text_eq_ok_iff.mp hname
  have hmiddle := uint32_eq_ok_iff.mp hlength
  have hfits := length.toNat_lt
  rw [← hcount] at hmiddle hfits
  have hspans := ((uint16_eq_ok_iff.mp hindex).append hmiddle).append hbytes
  split at hresult
  · next hcode =>
      rw [hcode] at hholds
      cases hbody : method.code with
      | some code =>
          rw [hbody] at hresult
          cases hresult
      | none =>
          rw [hbody] at hresult
          obtain ⟨code, hinner, rfl⟩ := run_return_eq_ok_iff.mp hresult
          obtain ⟨rfl, stop, hstop⟩ := within_eq_ok_iff.mp hinner
          obtain ⟨body, hinside, hbodyFits, hdescribes⟩ := accounts_decodeCode hstop
          have hwhole : content = body.encode ++ stop.rest := hinside.2
          subst hwhole
          exact ⟨⟨index, .body body stop.rest⟩, hspans, hfits, Or.inr ⟨rfl, code,
            ⟨hholds, body, stop.rest, rfl, hbodyFits, hdescribes, stop, hstop, rfl⟩, rfl⟩⟩
  · next hother =>
      cases hresult
      have hname' : ¬ pool.Holds index (.utf8 codeAttribute) := by
        intro hcode
        have hsame := (ConstantPool.text_eq_ok_iff.mpr hcode).symm.trans hname
        exact hother (Except.ok.inj hsame).symm
      exact ⟨⟨index, .skipped content⟩, hspans, hfits, Or.inl ⟨⟨hname', content, rfl⟩, rfl⟩⟩

/-- A method that has its body passes over all further attributes. -/
theorem exists_skipped_of_decode {count : Nat} {code : Code} (hcode : method.code = some code)
    (hread : decodeAttributes pool count method cursor = .ok result next) :
    ∃ attributes : List AttributeParts, attributes.length = count ∧
      cursor.Spans ((attributes.map AttributeParts.layout).flatMap AttributeLayout.encode) next ∧
      (∀ attr ∈ attributes.map AttributeParts.layout, attr.content.length < 0x100000000) ∧
      (∀ attr ∈ attributes, attr.IsSkipped pool) ∧ result = method := by
  induction count generalizing cursor with
  | zero =>
      cases hread
      exact ⟨[], rfl, Cursor.spans_nil_iff.mpr rfl, by simp, by simp, rfl⟩
  | succ count ih =>
      obtain ⟨changed, middle, hfirst, hrest⟩ := run_bind_eq_ok_iff.mp hread
      obtain ⟨attr, hspans, hfits, hcase⟩ := exists_attribute_of_decode hfirst
      rcases hcase with ⟨hskipped, rfl⟩ | ⟨hnone, _⟩
      · obtain ⟨attributes, hlength, hmore, hothersFit, hothers, hsame⟩ := ih hrest
        exact ⟨attr :: attributes, congrArg (· + 1) hlength, hspans.append hmore,
          List.forall_mem_cons.mpr ⟨hfits, hothersFit⟩,
          List.forall_mem_cons.mpr ⟨hskipped, hothers⟩, hsame⟩
      · rw [hcode] at hnone
        cases hnone

/-- The attributes of a method are parts of it.  By induction on their count:
they are passed over until the body is found, and behind it again. -/
theorem exists_attributes_of_decode {count : Nat} (hcode : method.code = none)
    (hread : decodeAttributes pool count method cursor = .ok result next) :
    ∃ (attributes : List AttributeParts) (code : Option Code), attributes.length = count ∧
      cursor.Spans ((attributes.map AttributeParts.layout).flatMap AttributeLayout.encode) next ∧
      (∀ attr ∈ attributes.map AttributeParts.layout, attr.content.length < 0x100000000) ∧
      DescribesParts pool attributes code ∧ result = { method with code } := by
  induction count generalizing cursor with
  | zero =>
      cases hread
      refine ⟨[], none, rfl, Cursor.spans_nil_iff.mpr rfl, by simp, ?_, by rw [← hcode]⟩
      intro attr hattr
      cases hattr
  | succ count ih =>
      obtain ⟨changed, middle, hfirst, hrest⟩ := run_bind_eq_ok_iff.mp hread
      obtain ⟨attr, hspans, hfits, hcase⟩ := exists_attribute_of_decode hfirst
      rcases hcase with ⟨hskipped, rfl⟩ | ⟨_, code, hbody, rfl⟩
      · obtain ⟨attributes, code, hlength, hmore, hothersFit, hothers, hresult⟩ := ih hrest
        refine ⟨attr :: attributes, code, congrArg (· + 1) hlength, hspans.append hmore,
          List.forall_mem_cons.mpr ⟨hfits, hothersFit⟩, ?_, hresult⟩
        cases code with
        | none => exact List.forall_mem_cons.mpr ⟨hskipped, hothers⟩
        | some code =>
            obtain ⟨before, found, after, rfl, hfound, hsplit⟩ := hothers
            exact ⟨attr :: before, found, after, rfl, hfound,
              List.forall_mem_cons.mpr ⟨hskipped, hsplit⟩⟩
      · obtain ⟨attributes, hlength, hmore, hothersFit, hothers, hresult⟩ :=
          exists_skipped_of_decode rfl hrest
        exact ⟨attr :: attributes, some code, congrArg (· + 1) hlength, hspans.append hmore,
          List.forall_mem_cons.mpr ⟨hfits, hothersFit⟩, ⟨[], attr, attributes, rfl, hbody, hothers⟩,
          hresult⟩

theorem accounts_decode (owner : String) :
    Accounts (Method.decode pool owner) (fun parts : MethodParts => parts.layout.encode)
      (fun parts method => AttributesFit parts.layout.attributes ∧
        parts.Describes pool owner method) := by
  intro cursor method next hread
  obtain ⟨access, afterAccess, haccess, hread⟩ := run_bind_eq_ok_iff.mp hread
  obtain ⟨nameIndex, afterIndex, hnameIndex, hread⟩ := run_bind_eq_ok_iff.mp hread
  obtain ⟨name, hname, hread⟩ := ofExcept_bind_eq_ok_iff.mp hread
  obtain ⟨descriptorIndex, afterIndex, hdescriptorIndex, hread⟩ := run_bind_eq_ok_iff.mp hread
  obtain ⟨descriptor, hdescriptor, hread⟩ := ofExcept_bind_eq_ok_iff.mp hread
  obtain ⟨count, afterCount, hcount, hattributes⟩ := run_bind_eq_ok_iff.mp hread
  obtain ⟨attributes, code, hlength, hspans, hfits, hdescribes, rfl⟩ :=
    exists_attributes_of_decode rfl hattributes
  have hmany : (attributes.map AttributeParts.layout).length = count.toNat := by
    rw [List.length_map, hlength]
  have hnames := ((uint16_eq_ok_iff.mp haccess).append (uint16_eq_ok_iff.mp hnameIndex)).append
    (uint16_eq_ok_iff.mp hdescriptorIndex)
  have hmiddle := uint16_eq_ok_iff.mp hcount
  rw [← hmany] at hmiddle
  refine ⟨⟨access, nameIndex, descriptorIndex, attributes⟩, ?_, ⟨hmany ▸ count.toNat_lt, hfits⟩,
    rfl, rfl, ConstantPool.text_eq_ok_iff.mp hname, ConstantPool.text_eq_ok_iff.mp hdescriptor,
    hdescribes⟩
  have hall := hnames.append (hmiddle.append hspans)
  simpa [MethodParts.layout, MemberLayout.encode, encodeTable, encodeIndices,
    Constant.encodeIndex] using hall

end Method

/-! ## Classes -/

namespace ClassFile

variable {cursor next : Cursor} {data : Bytes} {decoded : ClassFile}

theorem accounts_decodeClassName :
    Accounts (decodeClassName pool) Constant.encodeIndex
      (fun index name => ∃ stored, pool.NamesClass index stored ∧ name = binaryName stored) := by
  intro cursor name next hread
  obtain ⟨index, middle, hindex, hread⟩ := run_bind_eq_ok_iff.mp hread
  obtain ⟨stored, hstored, hname⟩ := ofExcept_bind_eq_ok_iff.mp hread
  cases hname
  exact ⟨index, uint16_eq_ok_iff.mp hindex, stored,
    ConstantPool.className_eq_ok_iff.mp hstored, rfl⟩

theorem accounts_decodeSuperName :
    Accounts (decodeSuperName pool) Constant.encodeIndex
      (fun index name => ∃ stored, pool.NamesOptionalClass index stored ∧
        name = stored.map binaryName) := by
  intro cursor name next hread
  obtain ⟨index, middle, hindex, hread⟩ := run_bind_eq_ok_iff.mp hread
  obtain ⟨stored, hstored, hname⟩ := ofExcept_bind_eq_ok_iff.mp hread
  cases hname
  exact ⟨index, uint16_eq_ok_iff.mp hindex, stored,
    ConstantPool.optionalClassName_eq_ok_iff.mp hstored, rfl⟩

theorem checkMagic_eq_ok_iff {number : UInt32} {done : Unit} :
    checkMagic number cursor = .ok done next ↔ number = classMagic ∧ next = cursor := by
  rw [checkMagic]
  by_cases hnumber : number = classMagic
  · rw [if_pos hnumber]
    constructor
    · intro hread
      cases hread
      exact ⟨hnumber, rfl⟩
    · rintro ⟨_, rfl⟩
      rfl
  · rw [if_neg hnumber]
    constructor
    · intro hread
      cases hread
    · rintro ⟨hmagic, _⟩
      exact absurd hmagic hnumber

/-- What is read of a class are its parts. -/
theorem accounts_decodeContent :
    Accounts decodeContent ClassParts.encode
      (fun parts decoded => parts.Fits ∧ parts.Describes decoded) := by
  intro cursor decoded next hread
  obtain ⟨magic, afterMagic, hmagic, hread⟩ := run_bind_eq_ok_iff.mp hread
  obtain ⟨_, behindMagic, hcheck, hclass⟩ := run_bind_eq_ok_iff.mp hread
  obtain ⟨rfl, rfl⟩ := checkMagic_eq_ok_iff.mp hcheck
  obtain ⟨minorVersion, afterMinor, hminor, hread⟩ := run_bind_eq_ok_iff.mp hclass
  obtain ⟨majorVersion, afterMajor, hmajor, hread⟩ := run_bind_eq_ok_iff.mp hread
  obtain ⟨pool, afterPool, hpool, hread⟩ := run_bind_eq_ok_iff.mp hread
  obtain ⟨access, afterAccess, haccess, hread⟩ := run_bind_eq_ok_iff.mp hread
  obtain ⟨name, afterName, hname, hread⟩ := run_bind_eq_ok_iff.mp hread
  obtain ⟨superName, afterSuper, hsuper, hread⟩ := run_bind_eq_ok_iff.mp hread
  obtain ⟨interfaceCount, afterCount, hinterfaceCount, hread⟩ := run_bind_eq_ok_iff.mp hread
  obtain ⟨interfaces, afterInterfaces, hinterfaces, hread⟩ := run_bind_eq_ok_iff.mp hread
  obtain ⟨fieldCount, afterCount, hfieldCount, hread⟩ := run_bind_eq_ok_iff.mp hread
  obtain ⟨_, afterFields, hfields, hread⟩ := run_bind_eq_ok_iff.mp hread
  obtain ⟨methodCount, afterCount, hmethodCount, hread⟩ := run_bind_eq_ok_iff.mp hread
  obtain ⟨methods, afterMethods, hmethods, hread⟩ := run_bind_eq_ok_iff.mp hread
  obtain ⟨_, hattributes, rfl⟩ := run_return_eq_ok_iff.mp hread
  obtain ⟨constants, rfl, hsize, hconstants⟩ := ConstantPool.exists_stored_of_decode hpool
  obtain ⟨self, hself, hnames⟩ := accounts_decodeClassName hname
  obtain ⟨parent, hparent, hsuperNames⟩ := accounts_decodeSuperName hsuper
  obtain ⟨interfaceIndices, hindices, hindexCount, hinterfaceNames⟩ :=
    accounts_decodeClassName.table hinterfaceCount hinterfaces
  obtain ⟨fields, hfieldBytes, hfieldTotal, hfieldsFit⟩ :=
    accounts_skipField.skippedTable hfieldCount hfields
  obtain ⟨methodParts, hmethodBytes, hmethodTotal, hparts⟩ :=
    (Method.accounts_decode name).table hmethodCount hmethods
  obtain ⟨attributes, hattributeBytes, hattributesFit⟩ := accounts_skipAttributes hattributes
  have hmethodsFit : ∀ method ∈ methodParts, AttributesFit method.layout.attributes := by
    intro method hmethod
    obtain ⟨_, _, hfits, _⟩ := exists_of_mem_right hparts.flip hmethod
    exact hfits
  refine ⟨⟨minorVersion, majorVersion, constants, access, self, parent, interfaceIndices, fields,
    methodParts, attributes⟩, ?_,
    ⟨hsize, hindexCount ▸ interfaceCount.toNat_lt,
      ⟨hfieldTotal ▸ fieldCount.toNat_lt, hfieldsFit⟩,
      ⟨hmethodTotal ▸ methodCount.toNat_lt, hmethodsFit⟩, hattributesFit⟩,
    rfl, rfl, rfl, rfl, hnames, hsuperNames, hinterfaceNames, hfieldTotal.symm,
    hparts.imp (fun _ _ hmethod => hmethod.2)⟩
  have hversions := ((uint32_eq_ok_iff.mp hmagic).append (uint16_eq_ok_iff.mp hminor)).append
    (uint16_eq_ok_iff.mp hmajor)
  have hlinks := ((uint16_eq_ok_iff.mp haccess).append hself).append hparent
  have htables := ((hindices.append hfieldBytes).append hmethodBytes).append hattributeBytes
  have hall := ((hversions.append hconstants).append hlinks).append htables
  simpa [ClassParts.encode, encodeIndices, Constant.encodeIndex] using hall

/-- Every byte of a class that is parsed is a byte of one of its parts, except
for bytes behind a body in the attribute of the body.  There are none exactly
if the attribute of every body is as long as the body. -/
theorem exists_parts_of_parse (hparsed : parse data = .ok decoded) :
    ∃ parts : ClassParts, data = parts.encode ∧ parts.Fits ∧ parts.Describes decoded ∧
      (parts.unread = [] ↔ parts.Exact) := by
  obtain ⟨_, hrun, _⟩ := parse_eq_ok_iff.mp hparsed
  obtain ⟨stop, hcontent, hend⟩ := run_eq_ok_iff_content.mp hrun
  obtain ⟨parts, hspans, hfits, hdescribes⟩ := accounts_decodeContent hcontent
  have hdata : data = parts.encode ++ stop.rest := hspans.2
  rw [hend, List.append_nil] at hdata
  exact ⟨parts, hdata, hfits, hdescribes, parts.unread_eq_nil_iff⟩

def looseBody : BodyLayout := ⟨1, 1, [0xB1], [], []⟩

/-- The parts of a class `A` with a method `m` that returns at once.  Behind its
body the attribute holds one more byte. -/
def looseParts : ClassParts where
  minorVersion := 0
  majorVersion := 52
  constants := [
    ⟨.utf8 "A", [1, 0, 1, 65], [65], by decide, by decide +kernel, rfl⟩,
    ⟨.classRef 1, [7, 0, 1], rfl⟩,
    ⟨.utf8 "m", [1, 0, 1, 109], [109], by decide, by decide +kernel, rfl⟩,
    ⟨.utf8 "()V", [1, 0, 3, 40, 41, 86], [40, 41, 86], by decide, by decide +kernel, rfl⟩,
    ⟨.utf8 "Code", [1, 0, 4, 67, 111, 100, 101], [67, 111, 100, 101], by decide,
      by decide +kernel, rfl⟩]
  access := 0x21
  self := 2
  parent := 0
  interfaces := []
  fields := []
  methods := [⟨1, 3, 4, [⟨5, .body looseBody [0xB1]⟩]⟩]
  attributes := []

def looseClass : ClassFile where
  minorVersion := 0
  majorVersion := 52
  pool := looseParts.pool
  access := ⟨0x21⟩
  name := "A"
  superName := none
  interfaces := []
  fieldCount := 0
  methods := [⟨"A", "m", "()V", ⟨1⟩,
    some ⟨1, 1, 1, [⟨0, 1, ⟨0xB1, by decide⟩, false, .empty⟩], []⟩⟩]

theorem looseParts_fits : looseParts.Fits where
  pool := by decide
  interfaces := by decide
  fields := by decide
  methods := by decide
  attributes := by decide

theorem looseBody_wellFormed : looseBody.WellFormed looseParts.pool where
  code_ne_nil := by decide
  code_fits := by decide
  instructions :=
    ⟨[⟨0, 1, ⟨0xB1, by decide⟩, false, .empty⟩], by decide +kernel, by decide +kernel⟩
  handlers_fit := by decide
  catchTypes := by
    intro handler hhandler
    cases hhandler
  attributes_fit := by decide

theorem looseParts_describes : looseParts.Describes looseClass where
  minorVersion := rfl
  majorVersion := rfl
  pool := rfl
  access := rfl
  name := ⟨"A", by decide +kernel, by decide +kernel⟩
  superName := ⟨none, rfl, rfl⟩
  interfaces := List.Forall₂.nil
  fieldCount := rfl
  methods := by
    refine List.Forall₂.cons ⟨rfl, rfl, by decide +kernel, by decide +kernel, ?_⟩ List.Forall₂.nil
    refine ⟨[], _, [], rfl, ?_, by simp⟩
    exact looseBody_wellFormed.isBodyOf (by decide +kernel)
      ⟨rfl, rfl, rfl, by decide +kernel, List.Forall₂.nil⟩ [0xB1]

theorem parse_looseParts : parse looseParts.encode = .ok looseClass := by
  decide +kernel

/-- A class with an unread byte is parsed like any other. -/
theorem parse_looseParts_unread :
    looseParts.Fits ∧ looseParts.Describes looseClass ∧ looseParts.unread = [0xB1] ∧
      ¬ looseParts.Exact ∧ parse looseParts.encode = .ok looseClass := by
  have hunread : looseParts.unread ≠ [] := by decide
  exact ⟨looseParts_fits, looseParts_describes, by decide,
    fun hexact => hunread (looseParts.unread_eq_nil_iff.mpr hexact), parse_looseParts⟩

theorem exists_parts_of_looseParts :
    ∃ parts : ClassParts, looseParts.encode = parts.encode ∧ parts.Fits ∧
      parts.Describes looseClass ∧ (parts.unread = [] ↔ parts.Exact) :=
  exists_parts_of_parse parse_looseParts

end ClassFile

end JvmCalls

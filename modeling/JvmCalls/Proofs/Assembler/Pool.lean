import JvmCalls.Assembler.Pool
import JvmCalls.Proofs.Constant.Resolution
import JvmCalls.Proofs.Constant.RoundTrip

/-!
# Indices of interned constants

An index that was answered for a constant leads to it in every pool that the
present one grows into, because constants are added at the end and keep their
places.  `Pool.Secures` says this of any request, and it is closed under
sequencing, so that a link is secured by securing the constants it leads to.
-/

namespace JvmCalls.Assembler

namespace Pool

def slots (pool : Pool) : ConstantPool := .ofList pool.entries.toList

/-- Every constant can be stored and takes one slot. -/
def Sound (pool : Pool) : Prop :=
  ∀ constant ∈ pool.entries.toList, constant.Fits ∧ constant.isWide = false

/-- The later pool has the constants of the earlier one at their places, and
perhaps others behind them. -/
def Extends (earlier later : Pool) : Prop :=
  earlier.entries.toList <+: later.entries.toList

/-- The pool ends up as `final`, whose indices fit two bytes. -/
structure GrowsInto (pool final : Pool) : Prop where
  kept : pool.Extends final
  sound : final.Sound
  small : final.entries.size < 0xFFFF

theorem Extends.refl (pool : Pool) : pool.Extends pool :=
  List.prefix_rfl

theorem Extends.trans {first second third : Pool} (hfirst : first.Extends second)
    (hsecond : second.Extends third) : first.Extends third :=
  List.IsPrefix.trans hfirst hsecond

theorem Extends.growsInto {earlier later final : Pool} (hkept : earlier.Extends later)
    (hfinal : later.GrowsInto final) : earlier.GrowsInto final :=
  ⟨hkept.trans hfinal.kept, hfinal.sound, hfinal.small⟩

theorem sound_empty : empty.Sound := by
  intro constant hconstant
  cases hconstant

/-- Constants of one slot each stand in the slots of their numbers. -/
theorem toList_slots_of_narrow {constants : List Constant}
    (hnarrow : ∀ constant ∈ constants, constant.isWide = false) :
    (ConstantPool.ofList constants).slots.toList = none :: constants.map some := by
  rw [ConstantPool.ofList, List.toList_toArray]
  congr 1
  induction constants with
  | nil => rfl
  | cons constant constants ih =>
      rw [List.forall_mem_cons] at hnarrow
      rw [List.flatMap_cons, ConstantPool.slotsOf, hnarrow.1, ih hnarrow.2]
      rfl

theorem Sound.holds {pool : Pool} (hpool : pool.Sound) {constant : Constant} {position : Nat}
    (hposition : pool.entries.toList[position]? = some constant)
    (hsmall : position + 1 < 0x10000) :
    pool.slots.Holds (UInt16.ofNat (position + 1)) constant := by
  have hindex : (UInt16.ofNat (position + 1)).toNat = position + 1 :=
    UInt16.toNat_ofNat_of_lt' hsmall
  rw [ConstantPool.Holds, ConstantPool.slot?, hindex, slots, ← Array.getElem?_toList,
    toList_slots_of_narrow (fun entry hentry => (hpool entry hentry).2), List.getElem?_cons_succ,
    List.getElem?_map, hposition]
  rfl

theorem Sound.size_slots {pool : Pool} (hpool : pool.Sound) :
    pool.slots.size = pool.entries.size + 1 := by
  have hslots := congrArg List.length
    (toList_slots_of_narrow (fun entry hentry => (hpool entry hentry).2))
  simpa [ConstantPool.size, slots] using hslots

/-- The slot with index zero holds nothing. -/
theorem index_ne_zero {pool : Pool} {index : UInt16} {constant : Constant}
    (hholds : pool.slots.Holds index constant) : index ≠ 0 := by
  rintro rfl
  cases hholds

/-- Whatever the request adds can be stored, and in every pool that the result
grows into the answer means what it should. -/
def Secures {Value : Type} (request : StateM Pool Value)
    (means : ConstantPool → Value → Prop) : Prop :=
  ∀ ⦃pool value later⦄, pool.Sound → request.run pool = (value, later) →
    later.Sound ∧ pool.Extends later ∧ ∀ final, later.GrowsInto final → means final.slots value

section Closure

variable {Value Result Item : Type} {means : ConstantPool → Value → Prop}

theorem secures_pure {value : Value} (hvalue : ∀ slots, means slots value) :
    Secures (pure value) means := by
  intro pool found later hpool hrun
  cases hrun
  exact ⟨hpool, Extends.refl pool, fun final _ => hvalue final.slots⟩

/-- The second request may count on what the answer to the first one means. -/
theorem secures_bind {first : StateM Pool Value} {next : Value → StateM Pool Result}
    {after : ConstantPool → Result → Prop} (hfirst : Secures first means)
    (hnext : ∀ value,
      Secures (next value) (fun slots result => means slots value → after slots result)) :
    Secures (first >>= next) after := by
  intro pool result later hpool hrun
  rcases hmiddle : first.run pool with ⟨value, middle⟩
  rw [StateT.run_bind, hmiddle] at hrun
  obtain ⟨hsound, hkept, hmeans⟩ := hfirst hpool hmiddle
  obtain ⟨hsound', hkept', hafter⟩ := hnext value hsound hrun
  refine ⟨hsound', hkept.trans hkept', fun final hfinal => hafter final hfinal ?_⟩
  exact hmeans final (hkept'.growsInto hfinal)

theorem Secures.imp {request : StateM Pool Value} {weaker : ConstantPool → Value → Prop}
    (hrequest : Secures request means)
    (himp : ∀ (final : Pool) value, means final.slots value → weaker final.slots value) :
    Secures request weaker := by
  intro pool value later hpool hrun
  obtain ⟨hsound, hkept, hmeans⟩ := hrequest hpool hrun
  exact ⟨hsound, hkept, fun final hfinal => himp _ _ (hmeans final hfinal)⟩

theorem secures_mapM {request : Item → StateM Pool Value}
    {means : Item → ConstantPool → Value → Prop} {items : List Item}
    (hitems : ∀ item ∈ items, Secures (request item) (means item)) :
    Secures (items.mapM request)
      (fun slots values =>
        List.Forall₂ (fun item value => means item slots value) items values) := by
  induction items with
  | nil => exact secures_pure (fun _ => List.Forall₂.nil)
  | cons item items ih =>
      rw [List.forall_mem_cons] at hitems
      rw [List.mapM_cons]
      exact secures_bind hitems.1 (fun value => secures_bind (ih hitems.2) (fun values =>
        secures_pure (fun _ hvalues hvalue => hvalues.cons hvalue)))

end Closure

/-! ## Requests -/

/-- A constant is found in the slot of its place, in all pools that are kept. -/
theorem GrowsInto.holds {pool final : Pool} (hfinal : pool.GrowsInto final) {position : Nat}
    {constant : Constant} (hposition : pool.entries.toList[position]? = some constant) :
    final.slots.Holds (UInt16.ofNat (position + 1)) constant := by
  obtain ⟨more, hmore⟩ := hfinal.kept
  obtain ⟨hinside, _⟩ := List.getElem?_eq_some_iff.mp hposition
  have hlength := congrArg List.length hmore
  have hsmall := hfinal.small
  rw [List.length_append] at hlength
  rw [← Array.length_toList] at hsmall
  refine hfinal.sound.holds ?_ (by omega)
  rw [← hmore, List.getElem?_append_left hinside]
  exact hposition

/-- A constant is found at the index that is answered for it, whether it was
there before or is new. -/
theorem secures_intern (constant : Constant) (hfits : constant.Fits)
    (hnarrow : constant.isWide = false) :
    Secures (intern constant) (fun slots index => slots.Holds index constant) := by
  intro pool index later hpool hrun
  change intern constant pool = (index, later) at hrun
  unfold intern at hrun
  split at hrun
  · next position hposition =>
      cases hrun
      refine ⟨hpool, Extends.refl pool, fun final hfinal => hfinal.holds ?_⟩
      have hlisted : pool.entries.toList.idxOf? constant = some position := by
        rw [← List.idxOf?_toArray, Array.toArray_toList]
        exact hposition
      obtain ⟨hinside, hfound, _⟩ := List.idxOf?_eq_some_iff.mp hlisted
      exact List.getElem?_eq_some_iff.mpr ⟨hinside, hfound⟩
  · cases hrun
    have hentries : (pool.entries.push constant).toList = pool.entries.toList ++ [constant] :=
      Array.toList_push
    refine ⟨?_, ⟨[constant], hentries.symm⟩, fun final hfinal => hfinal.holds ?_⟩
    · rw [Sound, hentries, List.forall_mem_append, List.forall_mem_singleton]
      exact ⟨hpool, hfits, hnarrow⟩
    · rw [hentries, ← Array.length_toList, List.getElem?_concat_length]

variable {owner name descriptor value : String}

theorem secures_text (hvalue : (Constant.utf8 value).Fits) :
    Secures (text value) (fun slots index => slots.Holds index (.utf8 value)) :=
  secures_intern (.utf8 value) hvalue rfl

theorem secures_className (hname : (Constant.utf8 name).Fits) :
    Secures (className name) (fun slots index => slots.NamesClass index name) :=
  secures_bind (secures_text hname) (fun text =>
    (secures_intern (.classRef text) trivial rfl).imp
      (fun _ _ hindex htext => ⟨text, hindex, htext⟩))

theorem secures_nameAndType (hname : (Constant.utf8 name).Fits)
    (hdescriptor : (Constant.utf8 descriptor).Fits) :
    Secures (nameAndType name descriptor)
      (fun slots index => slots.NamesMember index name descriptor) :=
  secures_bind (secures_text hname) (fun nameText =>
    secures_bind (secures_text hdescriptor) (fun descriptorText =>
      (secures_intern (.nameAndType nameText descriptorText) trivial rfl).imp
        (fun _ _ hindex hdescriptor hname =>
          ⟨nameText, descriptorText, hindex, hname, hdescriptor⟩)))

/-- The index of a method leads to its owner, its name and its descriptor, as a
method of a class or of an interface. -/
theorem secures_methodRef (howner : (Constant.utf8 owner).Fits)
    (hname : (Constant.utf8 name).Fits) (hdescriptor : (Constant.utf8 descriptor).Fits)
    (isInterface : Bool) :
    Secures (methodRef owner name descriptor isInterface)
      (fun slots index =>
        slots.methodRef index = .ok { owner, name, descriptor, isInterface }) := by
  refine secures_bind (secures_className howner) (fun ownerIndex =>
    secures_bind (secures_nameAndType hname hdescriptor) (fun member => ?_))
  cases isInterface with
  | true =>
      refine (secures_intern (.interfaceMethodRef ownerIndex member) trivial rfl).imp
        (fun slots index hindex hmember howner => ?_)
      exact Outcome.bind_eq_ok_iff.mpr ⟨_, ConstantPool.constant_eq_ok_iff.mpr hindex,
        ConstantPool.linkedMethod_eq_ok_iff.mpr ⟨howner, hmember, rfl⟩⟩
  | false =>
      refine (secures_intern (.methodRef ownerIndex member) trivial rfl).imp
        (fun slots index hindex hmember howner => ?_)
      exact Outcome.bind_eq_ok_iff.mpr ⟨_, ConstantPool.constant_eq_ok_iff.mpr hindex,
        ConstantPool.linkedMethod_eq_ok_iff.mpr ⟨howner, hmember, rfl⟩⟩

theorem secures_invokeDynamic (hname : (Constant.utf8 name).Fits)
    (hdescriptor : (Constant.utf8 descriptor).Fits) :
    Secures (invokeDynamic name descriptor)
      (fun slots index => slots.NamesDynamic index name descriptor) :=
  secures_bind (secures_nameAndType hname hdescriptor) (fun member =>
    (secures_intern (.invokeDynamic 0 member) trivial rfl).imp
      (fun _ _ hindex hmember => ⟨0, member, hindex, hmember⟩))

end Pool

end JvmCalls.Assembler

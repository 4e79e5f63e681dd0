import JvmCalls.Constant.Pool
import JvmCalls.Proofs.Outcome

/-!
# Resolution of constants

What an index of the pool stands for is said here by the slots it leads to,
one link after another.  Each resolution function succeeds exactly on the
indices that lead to slots of the right kinds, whatever else the pool holds,
and returns the texts at the ends of the links unchanged.
-/

namespace JvmCalls.ConstantPool

/-- Slot `index` exists and holds the constant. -/
def Holds (pool : ConstantPool) (index : UInt16) (constant : Constant) : Prop :=
  pool.slot? index = some (some constant)

def NamesClass (pool : ConstantPool) (index : UInt16) (name : String) : Prop :=
  ∃ text, pool.Holds index (.classRef text) ∧ pool.Holds text (.utf8 name)

def NamesMember (pool : ConstantPool) (index : UInt16) (name descriptor : String) : Prop :=
  ∃ nameText descriptorText, pool.Holds index (.nameAndType nameText descriptorText) ∧
    pool.Holds nameText (.utf8 name) ∧ pool.Holds descriptorText (.utf8 descriptor)

/-- The index leads to a method reference, of a class or an interface, and from
there to the owner, the name and the descriptor of the method. -/
def NamesMethod (pool : ConstantPool) (index : UInt16) (owner name descriptor : String) :
    Prop :=
  ∃ ownerIndex member,
    (pool.Holds index (.methodRef ownerIndex member) ∨
      pool.Holds index (.interfaceMethodRef ownerIndex member)) ∧
    pool.NamesClass ownerIndex owner ∧ pool.NamesMember member name descriptor

def NamesDynamic (pool : ConstantPool) (index : UInt16) (name descriptor : String) : Prop :=
  ∃ bootstrap member, pool.Holds index (.invokeDynamic bootstrap member) ∧
    pool.NamesMember member name descriptor

instance (pool : ConstantPool) (index : UInt16) (constant : Constant) :
    Decidable (pool.Holds index constant) :=
  inferInstanceAs (Decidable (_ = _))

variable {pool : ConstantPool} {index : UInt16}

theorem constant_eq_ok_iff {found : Constant} :
    pool.constant index = .ok found ↔ pool.Holds index found := by
  rw [constant, Holds]
  split
  · next held heq => simp [heq]
  · next hnone =>
      simp only [reduceCtorEq, false_iff]
      exact hnone found

theorem text_eq_ok_iff {text : String} :
    pool.text index = .ok text ↔ pool.Holds index (.utf8 text) := by
  rw [ConstantPool.text, Outcome.bind_eq_ok_iff]
  constructor
  · rintro ⟨held, hheld, htext⟩
    rw [constant_eq_ok_iff] at hheld
    split at htext
    · cases htext
      exact hheld
    · cases htext
  · intro hholds
    exact ⟨_, constant_eq_ok_iff.mpr hholds, rfl⟩

theorem className_eq_ok_iff {name : String} :
    pool.className index = .ok name ↔ pool.NamesClass index name := by
  rw [className, Outcome.bind_eq_ok_iff]
  constructor
  · rintro ⟨held, hheld, hname⟩
    rw [constant_eq_ok_iff] at hheld
    split at hname
    · next text => exact ⟨text, hheld, text_eq_ok_iff.mp hname⟩
    · cases hname
  · rintro ⟨text, hholds, htext⟩
    exact ⟨_, constant_eq_ok_iff.mpr hholds, text_eq_ok_iff.mpr htext⟩

instance (name : String) : Decidable (pool.NamesClass index name) :=
  decidable_of_iff _ className_eq_ok_iff

theorem nameAndType_eq_ok_iff {member : NameAndType} :
    pool.nameAndType index = .ok member ↔
      pool.NamesMember index member.name member.descriptor := by
  rw [nameAndType, Outcome.bind_eq_ok_iff]
  constructor
  · rintro ⟨held, hheld, htexts⟩
    rw [constant_eq_ok_iff] at hheld
    split at htexts
    · next nameText descriptorText =>
        obtain ⟨name, hname, hrest⟩ := Outcome.bind_eq_ok_iff.mp htexts
        obtain ⟨descriptor, hdescriptor, hmember⟩ := Outcome.bind_eq_ok_iff.mp hrest
        cases hmember
        exact ⟨nameText, descriptorText, hheld, text_eq_ok_iff.mp hname,
          text_eq_ok_iff.mp hdescriptor⟩
    · cases htexts
  · rintro ⟨nameText, descriptorText, hholds, hname, hdescriptor⟩
    refine ⟨_, constant_eq_ok_iff.mpr hholds, ?_⟩
    simp only [text_eq_ok_iff.mpr hname, text_eq_ok_iff.mpr hdescriptor]
    rfl

theorem linkedMethod_eq_ok_iff {ownerIndex memberIndex : UInt16} {isInterface : Bool}
    {target : MethodRef} :
    pool.linkedMethod ownerIndex memberIndex isInterface = .ok target ↔
      pool.NamesClass ownerIndex target.owner ∧
        pool.NamesMember memberIndex target.name target.descriptor ∧
        target.isInterface = isInterface := by
  rw [linkedMethod, Outcome.bind_eq_ok_iff]
  constructor
  · rintro ⟨owner, howner, hlinked⟩
    obtain ⟨member, hmember, htarget⟩ := Outcome.bind_eq_ok_iff.mp hlinked
    cases htarget
    exact ⟨className_eq_ok_iff.mp howner, nameAndType_eq_ok_iff.mp hmember, rfl⟩
  · rintro ⟨howner, hmember, rfl⟩
    refine ⟨_, className_eq_ok_iff.mpr howner, ?_⟩
    have hfound : pool.nameAndType memberIndex =
        .ok { name := target.name, descriptor := target.descriptor } :=
      nameAndType_eq_ok_iff.mpr hmember
    rw [hfound]
    rfl

theorem invokeDynamic_eq_ok_iff {member : NameAndType} :
    pool.invokeDynamic index = .ok member ↔
      pool.NamesDynamic index member.name member.descriptor := by
  rw [invokeDynamic, Outcome.bind_eq_ok_iff]
  constructor
  · rintro ⟨held, hheld, hmember⟩
    rw [constant_eq_ok_iff] at hheld
    split at hmember
    · next bootstrap memberIndex =>
        exact ⟨bootstrap, memberIndex, hheld, nameAndType_eq_ok_iff.mp hmember⟩
    · cases hmember
  · rintro ⟨bootstrap, memberIndex, hholds, hmember⟩
    exact ⟨_, constant_eq_ok_iff.mpr hholds, nameAndType_eq_ok_iff.mpr hmember⟩

/-- A method reference is resolved exactly if all links from it lead to slots of the
right kinds; its own kind tells the methods of interfaces from those of classes. -/
theorem methodRef_eq_ok_iff {target : MethodRef} :
    pool.methodRef index = .ok target ↔
      ∃ ownerIndex member,
        pool.Holds index (if target.isInterface then .interfaceMethodRef ownerIndex member
          else .methodRef ownerIndex member) ∧
        pool.NamesClass ownerIndex target.owner ∧
        pool.NamesMember member target.name target.descriptor := by
  rw [methodRef, Outcome.bind_eq_ok_iff]
  constructor
  · rintro ⟨held, hheld, hlinked⟩
    rw [constant_eq_ok_iff] at hheld
    split at hlinked
    · next ownerIndex member =>
        obtain ⟨howner, hmember, hclass⟩ := linkedMethod_eq_ok_iff.mp hlinked
        refine ⟨ownerIndex, member, ?_, howner, hmember⟩
        simp only [hclass, Bool.false_eq_true, if_false]
        exact hheld
    · next ownerIndex member =>
        obtain ⟨howner, hmember, hinterface⟩ := linkedMethod_eq_ok_iff.mp hlinked
        refine ⟨ownerIndex, member, ?_, howner, hmember⟩
        simp only [hinterface, if_true]
        exact hheld
    · cases hlinked
  · rintro ⟨ownerIndex, member, hholds, howner, hmember⟩
    refine ⟨_, constant_eq_ok_iff.mpr hholds, ?_⟩
    cases hkind : target.isInterface with
    | true => exact linkedMethod_eq_ok_iff.mpr ⟨howner, hmember, hkind⟩
    | false => exact linkedMethod_eq_ok_iff.mpr ⟨howner, hmember, hkind⟩

theorem namesMethod_iff {owner name descriptor : String} :
    pool.NamesMethod index owner name descriptor ↔
      ∃ isInterface, pool.methodRef index = .ok { owner, name, descriptor, isInterface } := by
  simp only [methodRef_eq_ok_iff]
  constructor
  · rintro ⟨ownerIndex, member, hholds | hholds, howner, hmember⟩
    · exact ⟨false, ownerIndex, member, hholds, howner, hmember⟩
    · exact ⟨true, ownerIndex, member, hholds, howner, hmember⟩
  · rintro ⟨isInterface, ownerIndex, member, hholds, howner, hmember⟩
    cases isInterface with
    | false => exact ⟨ownerIndex, member, Or.inl hholds, howner, hmember⟩
    | true => exact ⟨ownerIndex, member, Or.inr hholds, howner, hmember⟩

/-- An index names at most one method. -/
theorem NamesMethod.unique {owner name descriptor : String} {owner' name' descriptor' : String}
    (hfirst : pool.NamesMethod index owner name descriptor)
    (hsecond : pool.NamesMethod index owner' name' descriptor') :
    owner = owner' ∧ name = name' ∧ descriptor = descriptor' := by
  obtain ⟨isInterface, hresolved⟩ := namesMethod_iff.mp hfirst
  obtain ⟨isInterface', hresolved'⟩ := namesMethod_iff.mp hsecond
  rw [hresolved] at hresolved'
  cases hresolved'
  exact ⟨rfl, rfl, rfl⟩

end JvmCalls.ConstantPool

import JvmCalls.Proofs.Constant.Slots
import JvmCalls.Proofs.Constant.Stored
import Mathlib.Algebra.Group.Int.Defs
import Mathlib.Algebra.GroupWithZero.Nat

/-!
# The shape of pools

A pool that was read has as many slots as its count says, and its unusable slots are
the reserved one and those behind the eight-byte constants.  The constants that it
lists are the ones that its indices lead to, for every way of following an index.
Counts that leave no room for what is read are refused.
-/

namespace JvmCalls

open BigEndian Decoder

namespace Constant

/-- A constant is read from any of its stored forms. -/
theorem IsStoredAs.accepts {constant : Constant} {bytes : Bytes}
    (hstored : constant.IsStoredAs bytes) (index : Nat) :
    Accepts (decode index) bytes constant := by
  cases constant with
  | utf8 text =>
      obtain ⟨content, hlength, hdecoded, rfl⟩ := hstored
      obtain ⟨length, hcount, hread⟩ := exists_accepts_uint16 hlength
      apply accepts_bind (accepts_uint8 Tag.utf8.code)
      rw [Tag.ofCode?_code]
      have hcontent : Accepts (ModifiedUtf8.text length.toNat) content text :=
        accepts_last (accepts_bytes hcount.symm) (accepts_ofExcept hdecoded)
      exact accepts_bind hread (accepts_return utf8 hcontent)
  | _ =>
      cases hstored
      exact accepts_decode index trivial

end Constant

namespace ConstantPool

/-! ## Slots -/

/-- Behind a slot that holds no eight-byte constant, the unusable slots are those
behind eight-byte constants.  Behind the second slot of such a constant the pool goes on
as behind the reserved one. -/
theorem slotsOf_unusable_iff {before : Option Constant} {constants : List Constant}
    (hbefore : ∀ constant, before = some constant → constant.isWide = false) (index : Nat) :
    (before :: constants.flatMap slotsOf)[index + 1]? = some none ↔
      ∃ constant, (before :: constants.flatMap slotsOf)[index]? = some (some constant) ∧
        constant.isWide = true := by
  induction constants generalizing before index with
  | nil =>
      cases index with
      | zero => simp_all
      | succ index => simp
  | cons constant constants ih =>
      have hfirst : ¬ ∃ constant, some before = some (some constant) ∧ constant.isWide = true := by
        rintro ⟨held, hheld, hwide⟩
        rw [hbefore held (Option.some.inj hheld)] at hwide
        cases hwide
      cases hwide : constant.isWide with
      | true =>
          have hslots : slotsOf constant = [some constant, none] := by simp [slotsOf, hwide]
          rw [List.flatMap_cons, hslots]
          cases index with
          | zero => simpa using hfirst
          | succ index =>
              cases index with
              | zero => simp [hwide]
              | succ index =>
                  exact @ih none (by simp) index
      | false =>
          have hslots : slotsOf constant = [some constant] := by simp [slotsOf, hwide]
          rw [List.flatMap_cons, hslots]
          cases index with
          | zero => simpa using hfirst
          | succ index =>
              refine @ih (some constant) ?_ index
              intro held hheld
              cases hheld
              exact hwide

/-! ## Indices -/

/-- What follows an index from constants of some kinds on refuses the index if no
constant is listed with it, or one of another kind. -/
structure Refuses {Value : Type} (pool : ConstantPool) (index : UInt16) (expected : Constant.Tag)
    (kinds : List Constant.Tag) (resolved : Except Defect Value) : Prop where
  unlisted : (∀ constant, (index.toNat, constant) ∉ pool.entries) →
    resolved = .error (.unusableConstant index)
  unexpected : ∀ constant, (index.toNat, constant) ∈ pool.entries → constant.tag ∉ kinds →
    resolved = .error (.unexpectedConstant index constant.tag expected)

/-- Every way of following the index agrees with the constants that are listed. -/
structure AgreesAt (pool : ConstantPool) (index : UInt16) : Prop where
  outside_iff : pool.slot? index = none ↔ pool.size ≤ index.toNat
  holds_iff : ∀ constant, pool.Holds index constant ↔ (index.toNat, constant) ∈ pool.entries
  constant_iff : ∀ constant, pool.constant index = .ok constant ↔
    (index.toNat, constant) ∈ pool.entries
  text_iff : ∀ text, pool.text index = .ok text ↔ (index.toNat, .utf8 text) ∈ pool.entries
  className_iff : ∀ name, pool.className index = .ok name ↔ pool.NamesClass index name
  nameAndType_iff : ∀ member, pool.nameAndType index = .ok member ↔
    pool.NamesMember index member.name member.descriptor
  methodRef_iff : ∀ target, pool.methodRef index = .ok target ↔
    ∃ ownerIndex member,
      (index.toNat, if target.isInterface then .interfaceMethodRef ownerIndex member
        else .methodRef ownerIndex member) ∈ pool.entries ∧
      pool.NamesClass ownerIndex target.owner ∧
      pool.NamesMember member target.name target.descriptor
  invokeDynamic_iff : ∀ member, pool.invokeDynamic index = .ok member ↔
    pool.NamesDynamic index member.name member.descriptor
  text_refuses : pool.Refuses index .utf8 [.utf8] (pool.text index)
  className_refuses : pool.Refuses index .classRef [.classRef] (pool.className index)
  nameAndType_refuses : pool.Refuses index .nameAndType [.nameAndType] (pool.nameAndType index)
  methodRef_refuses :
    pool.Refuses index .methodRef [.methodRef, .interfaceMethodRef] (pool.methodRef index)
  invokeDynamic_refuses :
    pool.Refuses index .invokeDynamic [.invokeDynamic] (pool.invokeDynamic index)

section Indices

variable {pool : ConstantPool} {index : UInt16}

theorem constant_eq_ok_of_mem_entries {constant : Constant}
    (hlisted : (index.toNat, constant) ∈ pool.entries) : pool.constant index = .ok constant :=
  constant_eq_ok_iff.mpr (holds_iff_mem_entries.mpr hlisted)

theorem constant_eq_error (hunlisted : ∀ constant, (index.toNat, constant) ∉ pool.entries) :
    pool.constant index = .error (.unusableConstant index) := by
  rw [ConstantPool.constant]
  split
  · next held hslot => exact absurd (holds_iff_mem_entries.mp hslot) (hunlisted held)
  · rfl

/-- What looks at the constant of an index first refuses the index if it has no use for
constants of other kinds. -/
theorem refuses_bind {Value : Type} {expected : Constant.Tag} {kinds : List Constant.Tag}
    {follow : Constant → Except Defect Value}
    (hfollow : ∀ constant, constant.tag ∉ kinds →
      follow constant = .error (.unexpectedConstant index constant.tag expected)) :
    pool.Refuses index expected kinds (pool.constant index >>= follow) where
  unlisted hunlisted := by
    rw [constant_eq_error hunlisted]
    rfl
  unexpected constant hlisted hkind := by
    rw [constant_eq_ok_of_mem_entries hlisted]
    exact hfollow constant hkind

theorem refuses_text (pool : ConstantPool) (index : UInt16) :
    pool.Refuses index .utf8 [.utf8] (pool.text index) := by
  refine refuses_bind (fun constant hkind => ?_)
  cases constant with
  | utf8 text => exact absurd List.mem_cons_self hkind
  | _ => rfl

theorem refuses_className (pool : ConstantPool) (index : UInt16) :
    pool.Refuses index .classRef [.classRef] (pool.className index) := by
  refine refuses_bind (fun constant hkind => ?_)
  cases constant with
  | classRef name => exact absurd List.mem_cons_self hkind
  | _ => rfl

theorem refuses_nameAndType (pool : ConstantPool) (index : UInt16) :
    pool.Refuses index .nameAndType [.nameAndType] (pool.nameAndType index) := by
  refine refuses_bind (fun constant hkind => ?_)
  cases constant with
  | nameAndType name descriptor => exact absurd List.mem_cons_self hkind
  | _ => rfl

theorem refuses_methodRef (pool : ConstantPool) (index : UInt16) :
    pool.Refuses index .methodRef [.methodRef, .interfaceMethodRef] (pool.methodRef index) := by
  refine refuses_bind (fun constant hkind => ?_)
  cases constant with
  | methodRef owner member => exact absurd List.mem_cons_self hkind
  | interfaceMethodRef owner member =>
      exact absurd (List.mem_cons_of_mem _ List.mem_cons_self) hkind
  | _ => rfl

theorem refuses_invokeDynamic (pool : ConstantPool) (index : UInt16) :
    pool.Refuses index .invokeDynamic [.invokeDynamic] (pool.invokeDynamic index) := by
  refine refuses_bind (fun constant hkind => ?_)
  cases constant with
  | invokeDynamic bootstrap member => exact absurd List.mem_cons_self hkind
  | _ => rfl

theorem agreesAt (pool : ConstantPool) (index : UInt16) : pool.AgreesAt index where
  outside_iff := Array.getElem?_eq_none_iff
  holds_iff _ := holds_iff_mem_entries
  constant_iff _ := constant_eq_ok_iff.trans holds_iff_mem_entries
  text_iff _ := text_eq_ok_iff.trans holds_iff_mem_entries
  className_iff _ := className_eq_ok_iff
  nameAndType_iff _ := nameAndType_eq_ok_iff
  methodRef_iff _ := by simp only [methodRef_eq_ok_iff, holds_iff_mem_entries]
  invokeDynamic_iff _ := invokeDynamic_eq_ok_iff
  text_refuses := refuses_text pool index
  className_refuses := refuses_className pool index
  nameAndType_refuses := refuses_nameAndType pool index
  methodRef_refuses := refuses_methodRef pool index
  invokeDynamic_refuses := refuses_invokeDynamic pool index

end Indices

/-! ## Pools that were read -/

/-- The slots, the listed constants and the indices of a pool fit together. -/
structure IsWellShaped (pool : ConstantPool) : Prop where
  pos : 1 ≤ pool.size
  size_le : pool.size ≤ 65535
  reserved : pool.slots[0]? = some none
  unusable_iff : ∀ index, pool.slots[index + 1]? = some none ↔
    ∃ constant, pool.slots[index]? = some (some constant) ∧ constant.isWide = true
  wide_inside : ∀ index constant, pool.slots[index]? = some (some constant) →
    constant.isWide = true → index + 1 < pool.size
  mem_entries_iff : ∀ index constant,
    (index, constant) ∈ pool.entries ↔ pool.slots[index]? = some (some constant)
  ascending : pool.entries.Pairwise (fun left right => left.1 < right.1)
  index_exact : ∀ entry ∈ pool.entries, (UInt16.ofNat entry.1).toNat = entry.1
  agrees : ∀ index, pool.AgreesAt index

theorem isWellShaped_ofList {constants : List Constant}
    (hsize : (ofList constants).size < 0x10000) : (ofList constants).IsWellShaped := by
  have hunusable : ∀ index, (ofList constants).slots[index + 1]? = some none ↔
      ∃ constant, (ofList constants).slots[index]? = some (some constant) ∧
        constant.isWide = true := by
    intro index
    simp only [ofList, List.getElem?_toArray]
    exact slotsOf_unusable_iff (by simp) index
  constructor
  case pos =>
    rw [size_ofList]
    omega
  case size_le => omega
  case reserved => rfl
  case unusable_iff => exact hunusable
  case wide_inside =>
    intro index constant hslot hwide
    exact (Array.getElem?_eq_some_iff.mp ((hunusable index).mpr ⟨constant, hslot, hwide⟩)).1
  case mem_entries_iff => exact fun _ _ => mem_entries_iff
  case ascending => exact pairwise_entries _
  case index_exact => exact fun _ hentry => toNat_of_mem_entries hsize hentry
  case agrees => exact agreesAt _

variable {cursor : Cursor}

theorem decode_of_zero {tail : Bytes} (hrest : cursor.rest = digits 2 0 ++ tail) :
    ∃ next, decode cursor = .error (.malformed .emptyPool) next := by
  obtain ⟨next, hspans, _⟩ := cursor.exists_spans hrest
  refine ⟨next, ?_⟩
  rw [decode, Outcome.run_bind_of_ok (accepts_uint16 0 hspans)]
  rfl

/-- An eight-byte constant is refused where the constants before it leave only one slot. -/
theorem decode_of_overrun {count : UInt16} {constants : List Constant.Stored}
    {last : Constant.Stored} {tail : Bytes} (hwide : last.constant.isWide = true)
    (hcount : count.toNat = (ofStored constants).size + 1)
    (hrest : cursor.rest = digits 2 count.toNat ++
      (constants.flatMap Constant.Stored.bytes ++ (last.bytes ++ tail))) :
    ∃ next, decode cursor =
      .error (.malformed (.overrunningConstant (ofStored constants).size)) next := by
  obtain ⟨front, hfront, hbehind⟩ := cursor.exists_spans hrest
  obtain ⟨middle, hconstants, hlast⟩ := front.exists_spans hbehind
  obtain ⟨next, hspans, _⟩ := middle.exists_spans hlast
  have hitems : ∀ item ∈ constants, ∀ index,
      Accepts (Constant.decode index) item.bytes item.constant :=
    fun item _ index => item.isStored.accepts index
  have hsize : 1 + ((constants.map Constant.Stored.constant).flatMap slotsOf).length =
      (ofStored constants).size := by
    simp [size, ofStored, ofList, Nat.add_comm]
  have hoverrun : decodeSlots 1 (ofStored constants).size #[none] front =
      .error (.malformed (.overrunningConstant (ofStored constants).size)) next := by
    have hslots := decodeSlots_append hitems hconstants 1 1 #[none]
    rw [Nat.add_comm _ 1, hsize] at hslots
    rw [hslots, decodeSlots, Outcome.run_bind_of_ok (last.isStored.accepts _ hspans), if_pos hwide]
    rfl
  refine ⟨next, ?_⟩
  rw [decode, Outcome.run_bind_of_ok (accepts_uint16 count hfront), hcount]
  exact Outcome.run_bind_of_error hoverrun

/-- Every pool that is read is well shaped, has as many slots as its count says, and is
read from the count and the stored constants alone, whose lengths add up to what is
passed.  A count of zero is refused, and so is an eight-byte constant in the last slot. -/
theorem decode_well_shaped (cursor : Cursor) :
    (∀ pool next, decode cursor = .ok pool next →
      pool.IsWellShaped ∧
      ∃ (count : UInt16) (constants : List Constant.Stored),
        pool.size = count.toNat ∧
        pool.entries = numbered 1 (constants.map Constant.Stored.constant) ∧
        cursor.Spans (digits 2 count.toNat ++ constants.flatMap Constant.Stored.bytes) next ∧
        next.position = cursor.position +
          (2 + (constants.map (fun stored => stored.bytes.length)).sum)) ∧
    (∀ tail, cursor.rest = digits 2 0 ++ tail →
      ∃ next, decode cursor = .error (.malformed .emptyPool) next) ∧
    (∀ (count : UInt16) (constants : List Constant.Stored) (last : Constant.Stored) tail,
      last.constant.isWide = true → count.toNat = (ofStored constants).size + 1 →
      cursor.rest = digits 2 count.toNat ++
        (constants.flatMap Constant.Stored.bytes ++ (last.bytes ++ tail)) →
      ∃ next, decode cursor =
        .error (.malformed (.overrunningConstant (ofStored constants).size)) next) := by
  refine ⟨fun pool next hread => ?_, fun tail => decode_of_zero,
    fun count constants last tail => decode_of_overrun⟩
  obtain ⟨constants, rfl, hsize, hspans⟩ := exists_stored_of_decode hread
  obtain ⟨count, hcount, _⟩ := exists_accepts_uint16 hsize
  refine ⟨isWellShaped_ofList hsize, count, constants, hcount.symm, entries_ofList _, ?_, ?_⟩
  · rw [hcount]
    exact hspans
  · rw [hspans.position, encodeStored, List.length_append, length_digits, List.length_flatMap]

/-- A text and a number that is not a number, as they are stored. -/
def textStored : Constant.Stored where
  constant := .utf8 "a"
  bytes := (Constant.utf8 "a").encode
  isStored := ⟨[97], by decide, by decide, rfl⟩

def doubleStored : Constant.Stored where
  constant := .double 0x7FF8000000000001
  bytes := (Constant.double 0x7FF8000000000001).encode
  isStored := rfl

def countedStored (count : Nat) : Cursor :=
  .start (digits 2 count ++ (textStored.bytes ++ doubleStored.bytes))

/-- The text and the number fill four slots; in three the number overruns the last. -/
theorem decode_of_counts :
    (∃ pool next, decode (countedStored 4) = .ok pool next ∧ pool.IsWellShaped ∧
      pool.size = 4 ∧ pool.slots[3]? = some none) ∧
    (∃ next, decode (countedStored 3) = .error (.malformed (.overrunningConstant 2)) next) ∧
    ∃ next, decode (countedStored 0) = .error (.malformed .emptyPool) next := by
  obtain ⟨_, _, hoverrun⟩ := decode_well_shaped (countedStored 3)
  obtain ⟨_, hempty, _⟩ := decode_well_shaped (countedStored 0)
  obtain ⟨hshaped, _, _⟩ := decode_well_shaped (countedStored 4)
  refine ⟨?_, hoverrun 3 [textStored] doubleStored [] rfl rfl rfl, hempty _ rfl⟩
  obtain ⟨next, hspans⟩ :=
    Cursor.exists_spans_start (digits 2 4 ++ (textStored.bytes ++ doubleStored.bytes))
  have hread : decode (countedStored 4) = .ok (ofStored [textStored, doubleStored]) next :=
    accepts_decode (by decide) (by decide) hspans
  exact ⟨_, next, hread, (hshaped _ _ hread).1, rfl, rfl⟩

end ConstantPool

end JvmCalls

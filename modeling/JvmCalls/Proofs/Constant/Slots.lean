import JvmCalls.Proofs.Constant.Resolution
import JvmCalls.Proofs.Constant.RoundTrip

/-!
# Numbers of slots

Constants take the slots from the first one behind the reserved slot on, one after
another, and an eight-byte constant advances the number of the next slot by two.
A pool that is written like this is read back with every constant at its number,
and what is listed of a pool is what stands in its slots.
-/

namespace JvmCalls.ConstantPool

open BigEndian

/-- The constants with the numbers of their slots, counted from `index` on. -/
def numbered : (index : Nat) → List Constant → List (Nat × Constant)
  | _, [] => []
  | index, constant :: constants =>
      (index, constant) :: numbered (if constant.isWide then index + 2 else index + 1) constants

variable {pool : ConstantPool} {constants : List Constant}

/-! ## Listed constants -/

/-- A constant is listed with a number exactly if it stands in the slot of this
number. -/
theorem mem_entries_iff {index : Nat} {constant : Constant} :
    (index, constant) ∈ pool.entries ↔ pool.slots[index]? = some (some constant) := by
  rw [entries, List.mem_filterMap]
  constructor
  · rintro ⟨⟨slot, number⟩, hslot, hentry⟩
    rw [List.mem_zipIdx_iff_getElem?, Array.getElem?_toList] at hslot
    obtain ⟨held, rfl, hsame⟩ := Option.map_eq_some_iff.mp hentry
    cases hsame
    exact hslot
  · intro hslot
    refine ⟨(some constant, index), ?_, rfl⟩
    rw [List.mem_zipIdx_iff_getElem?, Array.getElem?_toList]
    exact hslot

theorem holds_iff_mem_entries {index : UInt16} {constant : Constant} :
    pool.Holds index constant ↔ (index.toNat, constant) ∈ pool.entries :=
  mem_entries_iff.symm

/-- Constants are listed by ascending numbers, each number once. -/
theorem pairwise_entries (pool : ConstantPool) :
    pool.entries.Pairwise (fun left right => left.1 < right.1) := by
  have hnumbers : pool.slots.toList.zipIdx.Pairwise (fun left right => left.2 < right.2) := by
    rw [← List.pairwise_map (f := Prod.snd) (R := (· < ·)), List.zipIdx_map_snd]
    exact List.pairwise_lt_range'
  apply hnumbers.filterMap
  intro left right hless leftEntry hleft rightEntry hright
  obtain ⟨_, _, rfl⟩ := Option.map_eq_some_iff.mp hleft
  obtain ⟨_, _, rfl⟩ := Option.map_eq_some_iff.mp hright
  exact hless

theorem lt_size_of_mem_entries {entry : Nat × Constant} (hentry : entry ∈ pool.entries) :
    entry.1 < pool.size :=
  (Array.getElem?_eq_some_iff.mp (mem_entries_iff.mp hentry)).1

/-- A number that is listed is an index of two bytes, unless the pool is too large. -/
theorem toNat_of_mem_entries (hsize : pool.size < 0x10000) {entry : Nat × Constant}
    (hentry : entry ∈ pool.entries) : (UInt16.ofNat entry.1).toNat = entry.1 :=
  UInt16.toNat_ofNat_of_lt' (Nat.lt_trans (lt_size_of_mem_entries hentry) hsize)

/-! ## Pools of constants -/

theorem length_slotsOf (constant : Constant) :
    (slotsOf constant).length = if constant.isWide then 2 else 1 := by
  rw [slotsOf]
  split <;> rfl

theorem size_ofList (constants : List Constant) :
    (ofList constants).size = 1 + constants.length + constants.countP Constant.isWide := by
  rw [size, ofList, List.size_toArray, List.length_cons]
  induction constants with
  | nil => rfl
  | cons constant constants ih =>
      rw [List.flatMap_cons, List.length_append, List.length_cons, List.countP_cons, length_slotsOf]
      split <;> omega

/-- A pool lists its constants with the numbers of their slots. -/
theorem entries_ofList (constants : List Constant) :
    (ofList constants).entries = numbered 1 constants := by
  suffices hslots : ∀ index, ((constants.flatMap slotsOf).zipIdx index).filterMap
      (fun entry => entry.1.map (fun constant => (entry.2, constant))) =
        numbered index constants from hslots 1
  induction constants with
  | nil => exact fun _ => rfl
  | cons constant constants ih =>
      intro index
      rw [List.flatMap_cons, numbered, ← ih]
      cases hwide : constant.isWide with
      | true => simp [slotsOf, hwide]
      | false => simp [slotsOf, hwide]

/-- A pool of constants of any kinds is read back from its count, its constants and
whatever stands behind them.  Every constant stands in the slot of its number, no
other slot holds one, and the cursor is left in front of the rest. -/
theorem decode_of_constants {constants : List Constant}
    (hfits : ∀ constant ∈ constants, constant.Fits)
    (hsize : 1 + constants.length + constants.countP Constant.isWide ≤ 65535)
    {cursor : Cursor} {rest : Bytes}
    (hrest : cursor.rest =
      digits 2 (1 + constants.length + constants.countP Constant.isWide) ++
        constants.flatMap Constant.encode ++ rest) :
    ∃ pool next, decode cursor = .ok pool next ∧
      next.data = cursor.data ∧ next.rest = rest ∧
      pool.size = 1 + constants.length + constants.countP Constant.isWide ∧
      pool.entries = numbered 1 constants ∧
      ∀ entry ∈ numbered 1 constants,
        pool.slot? (UInt16.ofNat entry.1) = some (some entry.2) := by
  have hcount := size_ofList constants
  obtain ⟨next, hspans, hnext⟩ := cursor.exists_spans hrest
  rw [← hcount] at hspans
  refine ⟨ofList constants, next, accepts_decode hfits (by omega) hspans, hspans.1, hnext, hcount,
    entries_ofList constants, fun entry hentry => ?_⟩
  rw [← entries_ofList] at hentry
  rw [slot?, toNat_of_mem_entries (by omega) hentry, mem_entries_iff.mp hentry]

/-- Constants of all kinds, among them a text with a zero and a pair of surrogates,
numbers that are not numbers, and indices that lead nowhere. -/
def everyKind : List Constant :=
  [.utf8 "a\x00é😀", .long (-1), .integer (-2147483648), .float 0x7FA00001,
    .double 0xFFF0000000000001, .classRef 0, .string 65535, .fieldRef 1 2, .methodRef 9 4,
    .interfaceMethodRef 7 7, .nameAndType 3 1, .methodHandle 255 8, .methodType 40,
    .dynamic 0 0, .invokeDynamic 500 12, .moduleRef 2, .packageRef 65535, .long 42]

theorem decode_of_everyKind :
    (∀ constant ∈ everyKind, constant.Fits) ∧
    1 + everyKind.length + everyKind.countP Constant.isWide ≤ 65535 ∧
    ∃ pool next, decode (.start (encode everyKind ++ [0xCA, 0xFE])) = .ok pool next ∧
      next.rest = [0xCA, 0xFE] ∧
      pool.size = 22 ∧
      pool.entries = numbered 1 everyKind ∧
      pool.slot? 4 = some (some (.integer (-2147483648))) ∧
      pool.slot? 20 = some (some (.long 42)) := by
  have hfits : ∀ constant ∈ everyKind, constant.Fits := by decide
  have hsize : 1 + everyKind.length + everyKind.countP Constant.isWide ≤ 65535 := by decide
  have hrest : (Cursor.start (encode everyKind ++ [0xCA, 0xFE])).rest =
      digits 2 (1 + everyKind.length + everyKind.countP Constant.isWide) ++
        everyKind.flatMap Constant.encode ++ [0xCA, 0xFE] := rfl
  obtain ⟨pool, next, hread, _, hnext, hcount, hentries, hslots⟩ :=
    decode_of_constants hfits hsize hrest
  exact ⟨hfits, hsize, pool, next, hread, hnext, hcount, hentries,
    hslots (4, .integer (-2147483648)) (by decide), hslots (20, .long 42) (by decide)⟩

end JvmCalls.ConstantPool

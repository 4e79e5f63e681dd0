import JvmCalls.Proofs.Trapping.Instruction

/-!
# Reserved vectors

The header of a jump table says how many items a vector is asked to hold for it.  In
code, a table that is refused or cut short is refused before there is a vector, and a
table that is read has asked for one that holds its items and no others.
-/

namespace JvmCalls.JumpTable

open BigEndian Trapping

variable {Item : Type}

def Ending.sizes : Ending Item → List Nat
  | .refused | .short => []
  | .read items _ => [items.length]

/-- The header of the table decides how reading it ends.  In code, whose length is a
number of four bytes, this is how reading the instruction ends, and a machine whose
operations may trap ends likewise and reserves the items that are read and no others. -/
structure IsExact (table : JumpTable Item) : Prop where
  operand : ∀ {offset front header}, table.HeaderSpans front header →
    ∃ ending, table.Ends header ending ∧
      Operand.decode offset false table.opcode front =
        table.result offset header (fun operand _ => operand) ending
  instruction : ∀ {cursor header}, cursor.data.length < capacity 4 →
    table.StandsAt cursor header →
    ∃ ending, table.Ends header ending ∧
      Instruction.decode cursor =
        table.result cursor.position header (table.instruction cursor) ending ∧
      ∀ before, Booking.decode { reader := .ofCursor cursor, reserved := before } =
        Booking.booked (fun _ => ending.sizes) before
          (table.result cursor.position header (table.instruction cursor) ending)

theorem Regular.isExact {table : JumpTable Item} (hregular : table.Regular) : table.IsExact where
  operand := hregular.exists_ending
  instruction := by
    intro cursor header hcode hstands
    obtain ⟨ending, hends, hread⟩ := hregular.exists_ending_of_standsAt hstands hcode
    refine ⟨ending, hends, hread, fun before => ?_⟩
    rw [Booking.decode_eq_booked hcode before, hread]
    cases ending with
    | refused => rfl
    | short => rfl
    | read items next =>
        simp only [result, Booking.booked, Ending.sizes, instruction, hregular.tableSizes_build]

/-- Jump tables of both kinds are read exactly as their headers say, for all numbers in
them.  Wherever the header of such an instruction is present, it is one of these. -/
theorem tables_end_as_headers_say :
    (∀ default low high, (ofRange default low high).IsExact) ∧
    (∀ default count, (ofPairs default count).IsExact) ∧
    (∀ cursor, HasHeader cursor 0xAA 3 →
      ∃ default low high header, (ofRange default low high).StandsAt cursor header) ∧
    ∀ cursor, HasHeader cursor 0xAB 2 →
      ∃ default count header, (ofPairs default count).StandsAt cursor header :=
  ⟨fun default low high => (regular_ofRange default low high).isExact,
    fun default count => (regular_ofPairs default count).isExact,
    fun _ => exists_ofRange_standsAt, fun _ => exists_ofPairs_standsAt⟩

/-- The table with the most items that a header can tell, and no bytes behind it. -/
def largestRange : Bytes :=
  [0xAA, 0x00, 0x00, 0x00, 0x00, 0x00, 0x00, 0x00, 0x80, 0x00, 0x00, 0x00, 0x7F, 0xFF, 0xFF, 0xFF]

/-- A table of one pair that ends with the code. -/
def onePair : Bytes :=
  [0xAB, 0x00, 0x00, 0x00, 0x00, 0x00, 0x00, 0x14, 0x00, 0x00, 0x00, 0x01,
    0x00, 0x00, 0x00, 0x2A, 0x00, 0x00, 0x00, 0x18]

theorem tables_end_at_largestRange_and_onePair :
    (∃ header, header.rest = [] ∧
      Instruction.decode (.start largestRange) = .error .outOfBounds header ∧
      Booking.decode { reader := .ofCursor (.start largestRange), reserved := [] } =
        .error (.flaw .outOfBounds) { reader := .ofCursor header, reserved := [] }) ∧
    ∃ pairs next, pairs.length = 1 ∧
      Booking.decode { reader := .ofCursor (.start onePair), reserved := [] } =
        .ok ((ofPairs 20 1).instruction (.start onePair) (.lookupSwitch 20 pairs) next)
          { reader := .ofCursor next, reserved := [1] } := by
  constructor
  · have hpadding : ([0, 0, 0] : Bytes).length =
        Cursor.padding 4 ((Cursor.start largestRange).position + 1) := rfl
    have hrest : (Cursor.start largestRange).rest =
        [0xAA] ++ ([0, 0, 0] ++ [0, -2147483648, 2147483647].flatMap (Operand.encodeSigned 4) ++
          []) := rfl
    obtain ⟨header, hstands, hbehind⟩ :=
      (exists_standsAt hpadding hrest :
        ∃ header, (ofRange 0 (-2147483648) 2147483647).StandsAt _ header ∧ header.rest = [])
    obtain ⟨ending, hends, hread, hbooks⟩ :=
      (tables_end_as_headers_say.1 0 (-2147483648) 2147483647).instruction (by decide) hstands
    refine ⟨header, hbehind, ?_⟩
    cases hends with
    | refused hrefused => exact absurd hrefused (by simp only [ofRange]; decide)
    | short _ _ => exact ⟨hread, hbooks []⟩
    | read _ hroom _ =>
        rw [hbehind] at hroom
        exact absurd hroom (by decide)
  · have hpadding : ([0, 0, 0] : Bytes).length =
        Cursor.padding 4 ((Cursor.start onePair).position + 1) := rfl
    have hrest : (Cursor.start onePair).rest =
        [0xAB] ++ ([0, 0, 0] ++ [20, 1].flatMap (Operand.encodeSigned 4) ++
          [0x00, 0x00, 0x00, 0x2A, 0x00, 0x00, 0x00, 0x18]) := rfl
    obtain ⟨header, hstands, hbehind⟩ :=
      (exists_standsAt hpadding hrest :
        ∃ header, (ofPairs 20 1).StandsAt _ header ∧ header.rest = _)
    obtain ⟨ending, hends, _, hbooks⟩ :=
      (tables_end_as_headers_say.2.1 20 1).instruction (by decide) hstands
    cases hends with
    | refused hrefused => exact absurd hrefused (by simp only [ofPairs]; decide)
    | short _ hshort =>
        rw [hbehind] at hshort
        exact absurd hshort (by decide)
    | @read _ _ pairs next hreads =>
        have hcount : pairs.length = 1 := by
          have hlength := hreads.length_eq
          change (pairs.length : Int) = 1 at hlength
          omega
        refine ⟨pairs, next, hcount, ?_⟩
        rw [hbooks []]
        simp only [result, Booking.booked, Ending.sizes, hcount, List.append_nil]
        rfl

end JvmCalls.JumpTable

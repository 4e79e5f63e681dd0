import JvmCalls.Proofs.Instruction.RoundTrip

/-!
# Jump tables

A jump table says in its header how many items it has, by the two ends of a range of
keys or by a count.  The header alone decides how reading the table ends: it is
refused, or the bytes behind the header are too few, or all of its items are read.
The count is one of unbounded numbers here, and both kinds of tables are one kind of
table with parameters.
-/

namespace JvmCalls

open BigEndian Decoder Outcome

namespace Operand

def tableSizes : Operand → List Nat
  | tableSwitch _ _ _ distances => [distances.length]
  | lookupSwitch _ pairs => [pairs.length]
  | _ => []

end Operand

/-- A jump table up to its items, and how an item of it is written. -/
structure JumpTable (Item : Type) where
  opcode : Opcode
  fields : List Int32
  count : Int
  refused : Prop
  defect : (offset : Nat) → Defect
  width : Nat
  item : Decoder Item
  encode : Item → Bytes
  build : List Item → Operand

namespace JumpTable

theorem assigned_tableSwitch : (0xAA : UInt8).toNat < 0xCA := by decide

theorem assigned_lookupSwitch : (0xAB : UInt8).toNat < 0xCA := by decide

def ofRange (default low high : Int32) : JumpTable Int32 where
  opcode := { byte := 0xAA, assigned := assigned_tableSwitch }
  fields := [default, low, high]
  count := high.toInt - low.toInt + 1
  refused := high.toInt < low.toInt
  defect offset := .reversedBounds offset low high
  width := 4
  item := int32
  encode := Operand.encodeSigned 4
  build := .tableSwitch default low high

def ofPairs (default count : Int32) : JumpTable (Int32 × Int32) where
  opcode := { byte := 0xAB, assigned := assigned_lookupSwitch }
  fields := [default, count]
  count := count.toInt
  refused := count.toInt < 0
  defect offset := .negativePairCount offset count
  width := 8
  item := Operand.decodePair
  encode pair := Operand.encodeSigned 4 pair.1 ++ Operand.encodeSigned 4 pair.2
  build := .lookupSwitch default

variable {Item : Type}

/-- The header of the table, with the bytes up to a multiple of four in front, stands
between the cursors. -/
def HeaderSpans (table : JumpTable Item) (front header : Cursor) : Prop :=
  ∃ ignored : Bytes, ignored.length = Cursor.padding 4 front.position ∧
    front.Spans (ignored ++ table.fields.flatMap (Operand.encodeSigned 4)) header

/-- The items stand behind the header, as many as it tells, and every round of the
loop that reads them succeeds. -/
structure Reads (table : JumpTable Item) (header : Cursor) (items : List Item) (next : Cursor) :
    Prop where
  length_eq : (items.length : Int) = table.count
  length_le : items.length ≤ header.rest.length / table.width
  spans : header.Spans (items.flatMap table.encode) next
  position_eq : (next.position : Int) = header.position + table.width * table.count
  rounds : ∀ round ≤ items.length, ∃ middle,
    replicate round table.item header = .ok (items.take round) middle ∧
      middle.position = header.position + table.width * round

inductive Ending (Item : Type)
  | refused
  | short
  | read (items : List Item) (next : Cursor)

/-- Which ending a table has whose header ends at the cursor. -/
inductive Ends (table : JumpTable Item) (header : Cursor) : Ending Item → Prop
  | refused (hrefused : table.refused) : Ends table header .refused
  | short (hcount : ¬ table.refused)
      (hshort : (header.rest.length : Int) < table.width * table.count) :
      Ends table header .short
  | read (hcount : ¬ table.refused)
      (hroom : table.width * table.count ≤ (header.rest.length : Int)) {items : List Item}
      {next : Cursor} (hreads : table.Reads header items next) :
      Ends table header (.read items next)

/-- The result of reading the table of the instruction at `offset`, which stays behind
the header if it fails. -/
def result {Value : Type} (table : JumpTable Item) (offset : Nat) (header : Cursor)
    (finish : Operand → Cursor → Value) : Ending Item → EStateM.Result Fault Cursor Value
  | .refused => .error (.malformed (table.defect offset)) header
  | .short => .error .outOfBounds header
  | .read items next => .ok (finish (table.build items) next) next

/-- What is asked of a kind of tables: items are written as any bytes of their width,
a count is no less than zero, and the operand is read as a header and as many items as
it tells. -/
structure Regular (table : JumpTable Item) : Prop where
  kind_ne : table.opcode.info.operand ≠ .wide
  tableSizes_build : ∀ items, (table.build items).tableSizes = [items.length]
  width_pos : 0 < table.width
  item_iff : ∀ {cursor next : Cursor} {value : Item},
    table.item cursor = .ok value next ↔ cursor.Spans (table.encode value) next
  length_encode : ∀ value, (table.encode value).length = table.width
  exists_encode : ∀ bytes : Bytes, bytes.length = table.width → ∃ value, bytes = table.encode value
  count_nonneg : ¬ table.refused → 0 ≤ table.count
  decode_refused : ∀ {offset front header}, table.HeaderSpans front header → table.refused →
    Operand.decode offset false table.opcode front =
      .error (.malformed (table.defect offset)) header
  decode_counted : ∀ {offset front header}, table.HeaderSpans front header → ¬ table.refused →
    Operand.decode offset false table.opcode front =
      (Operand.require (table.width * table.count.toNat) >>= fun _ =>
        replicate table.count.toNat table.item >>= fun items => pure (table.build items)) header

variable {table : JumpTable Item} {header : Cursor}

/-! ## Items -/

namespace Regular

/-- Bytes with room for a number of items stand for as many items. -/
theorem exists_spans (hregular : table.Regular) {count : Nat}
    (hroom : table.width * count ≤ header.rest.length) :
    ∃ (items : List Item) (next : Cursor), items.length = count ∧
      header.Spans (items.flatMap table.encode) next := by
  obtain ⟨items, hitems, hbytes⟩ :=
    exists_items_of_length hregular.exists_encode (List.length_take_of_le hroom)
  obtain ⟨next, hspans, _⟩ :=
    header.exists_spans (List.take_append_drop (table.width * count) _).symm
  rw [hbytes] at hspans
  exact ⟨items, next, hitems, hspans⟩

/-- Items that stand behind the header are read in every round of the loop. -/
theorem rounds_of_spans (hregular : table.Regular) {items : List Item} {next : Cursor}
    (hspans : header.Spans (items.flatMap table.encode) next) (round : Nat)
    (hround : round ≤ items.length) :
    ∃ middle, replicate round table.item header = .ok (items.take round) middle ∧
      middle.position = header.position + table.width * round := by
  have hsplit : items.flatMap table.encode =
      (items.take round).flatMap table.encode ++ (items.drop round).flatMap table.encode := by
    rw [← List.flatMap_append, List.take_append_drop]
  rw [hsplit, Cursor.spans_append_iff] at hspans
  obtain ⟨middle, hfront, _⟩ := hspans
  have htaken : (items.take round).length = round := List.length_take_of_le hround
  refine ⟨middle, (replicate_eq_ok_iff hregular.item_iff).mpr ⟨htaken, hfront⟩, ?_⟩
  rw [hfront.position, length_flatMap_of_width hregular.length_encode, htaken]

/-- As many items as the header tells are read if the bytes have room for them. -/
theorem exists_reads (hregular : table.Regular) (hcount : 0 ≤ table.count)
    (hroom : table.width * table.count ≤ (header.rest.length : Int)) :
    ∃ items next, table.Reads header items next := by
  have hfits : table.width * table.count.toNat ≤ header.rest.length := by
    rw [← Int.toNat_of_nonneg hcount] at hroom
    exact_mod_cast hroom
  obtain ⟨items, next, hitems, hspans⟩ := hregular.exists_spans hfits
  refine ⟨items, next, ?_⟩
  constructor
  case length_eq => rw [hitems, Int.toNat_of_nonneg hcount]
  case length_le =>
    rw [hitems, Nat.le_div_iff_mul_le hregular.width_pos, Nat.mul_comm]
    exact hfits
  case spans => exact hspans
  case position_eq =>
    rw [hspans.position, length_flatMap_of_width hregular.length_encode, hitems,
      ← Int.toNat_of_nonneg hcount]
    push_cast
    rfl
  case rounds => exact hregular.rounds_of_spans hspans

/-! ## Endings -/

/-- Every table has an ending, and reading its operand behind the header gives the
result of the ending. -/
theorem exists_ending (hregular : table.Regular) {offset : Nat} {front : Cursor}
    (hheader : table.HeaderSpans front header) :
    ∃ ending, table.Ends header ending ∧
      Operand.decode offset false table.opcode front =
        table.result offset header (fun operand _ => operand) ending := by
  by_cases hrefused : table.refused
  · exact ⟨.refused, .refused hrefused, hregular.decode_refused hheader hrefused⟩
  have hcount := hregular.count_nonneg hrefused
  rw [hregular.decode_counted hheader hrefused]
  have hcast : ((table.width * table.count.toNat : Nat) : Int) = table.width * table.count := by
    rw [Int.natCast_mul, Int.toNat_of_nonneg hcount]
  by_cases hroom : table.width * table.count ≤ (header.rest.length : Int)
  · obtain ⟨items, next, hreads⟩ := hregular.exists_reads hcount hroom
    have hlength : items.length = table.count.toNat := by
      have := hreads.length_eq
      omega
    refine ⟨.read items next, .read hrefused hroom hreads, ?_⟩
    exact (Operand.decodeTable_eq_ok_iff hregular.item_iff hregular.length_encode).mpr
      ⟨items, rfl, hlength, hreads.spans⟩
  · refine ⟨.short, .short hrefused (by omega), ?_⟩
    exact run_bind_of_error (Operand.require_of_lt (by omega))

end Regular

/-! ## The two kinds -/

theorem exists_encodeSigned {bytes : Bytes} (hlength : bytes.length = 4) :
    ∃ value, bytes = Operand.encodeSigned 4 value := by
  have hbound := value_lt bytes
  rw [hlength] at hbound
  refine ⟨(UInt32.ofNat (value bytes)).toInt32, ?_⟩
  change bytes = digits 4 (UInt32.ofNat (value bytes)).toNat
  rw [UInt32.toNat_ofNat_of_lt' hbound, value_digits_value 4 bytes hlength]

/-- The numbers of a header are read one after another behind the padding. -/
theorem HeaderSpans.exists_fields {front : Cursor} (hheader : table.HeaderSpans front header) :
    ∃ start, align 4 front = .ok () start ∧
      start.Spans (table.fields.flatMap (Operand.encodeSigned 4)) header := by
  obtain ⟨ignored, hlength, hspans⟩ := hheader
  obtain ⟨start, hpadding, hfields⟩ := Cursor.spans_append_iff.mp hspans
  exact ⟨start, align_eq_ok_iff.mpr ⟨ignored, hlength, hpadding⟩, hfields⟩

theorem exists_int32_of_spans {value : Int32} {fields : List Int32} {start : Cursor}
    (hfields : start.Spans ((value :: fields).flatMap (Operand.encodeSigned 4)) header) :
    ∃ middle, int32 start = .ok value middle ∧
      middle.Spans (fields.flatMap (Operand.encodeSigned 4)) header := by
  rw [List.flatMap_cons, Cursor.spans_append_iff] at hfields
  obtain ⟨middle, hvalue, hothers⟩ := hfields
  exact ⟨middle, int32_eq_ok_iff.mpr hvalue, hothers⟩

/-- Behind the header of a range stands what its ends decide. -/
theorem decode_ofRange {default low high : Int32} {offset : Nat} {front : Cursor}
    (hheader : (ofRange default low high).HeaderSpans front header) :
    Operand.decode offset false (ofRange default low high).opcode front =
      (if high < low then malformed (.reversedBounds offset low high)
      else do
        Operand.require (4 * (high.toInt - low.toInt + 1).toNat)
        return .tableSwitch default low high
          (← replicate (high.toInt - low.toInt + 1).toNat int32)) header := by
  have hkind : (ofRange default low high).opcode.info.operand = .tableSwitch := rfl
  obtain ⟨start, halign, hfields⟩ := hheader.exists_fields
  obtain ⟨first, hdefault, hfields⟩ := exists_int32_of_spans hfields
  obtain ⟨second, hlow, hfields⟩ := exists_int32_of_spans hfields
  obtain ⟨third, hhigh, hfields⟩ := exists_int32_of_spans hfields
  rw [Cursor.spans_nil_iff.mp hfields, Operand.decode, hkind]
  simp only
  rw [Operand.decodeTableSwitch, run_bind_of_ok halign, run_bind_of_ok hdefault,
    run_bind_of_ok hlow, run_bind_of_ok hhigh]

theorem decode_ofPairs {default count : Int32} {offset : Nat} {front : Cursor}
    (hheader : (ofPairs default count).HeaderSpans front header) :
    Operand.decode offset false (ofPairs default count).opcode front =
      (if count < 0 then malformed (.negativePairCount offset count)
      else do
        Operand.require (8 * count.toInt.toNat)
        return .lookupSwitch default
          (← replicate count.toInt.toNat Operand.decodePair)) header := by
  have hkind : (ofPairs default count).opcode.info.operand = .lookupSwitch := rfl
  obtain ⟨start, halign, hfields⟩ := hheader.exists_fields
  obtain ⟨first, hdefault, hfields⟩ := exists_int32_of_spans hfields
  obtain ⟨second, hcount, hfields⟩ := exists_int32_of_spans hfields
  rw [Cursor.spans_nil_iff.mp hfields, Operand.decode, hkind]
  simp only
  rw [Operand.decodeLookupSwitch, run_bind_of_ok halign, run_bind_of_ok hdefault,
    run_bind_of_ok hcount]

theorem regular_ofRange (default low high : Int32) : (ofRange default low high).Regular := by
  constructor
  case kind_ne => exact nofun
  case tableSizes_build => exact fun _ => rfl
  case width_pos => exact Nat.zero_lt_succ _
  case item_iff => exact int32_eq_ok_iff
  case length_encode => exact Operand.length_encodeSigned 4
  case exists_encode => exact fun _ => exists_encodeSigned
  case count_nonneg =>
    simp only [ofRange]
    omega
  case decode_refused =>
    intro offset front header hheader hrefused
    rw [decode_ofRange hheader, if_pos (Int32.lt_iff_toInt_lt.mpr hrefused)]
    rfl
  case decode_counted =>
    intro offset front header hheader hcount
    rw [decode_ofRange hheader, if_neg (fun hless => hcount (Int32.lt_iff_toInt_lt.mp hless))]
    rfl

theorem regular_ofPairs (default count : Int32) : (ofPairs default count).Regular := by
  have hsign : count < 0 ↔ count.toInt < 0 := by rw [Int32.lt_iff_toInt_lt, Int32.toInt_zero]
  constructor
  case kind_ne => exact nofun
  case tableSizes_build => exact fun _ => rfl
  case width_pos => exact Nat.zero_lt_succ _
  case item_iff => exact Operand.decodePair_eq_ok_iff
  case length_encode =>
    intro pair
    simp only [ofPairs, List.length_append, Operand.length_encodeSigned]
  case exists_encode =>
    intro bytes hlength
    change bytes.length = 8 at hlength
    have hfront : (bytes.take 4).length = 4 := List.length_take_of_le (by omega)
    have hbehind : (bytes.drop 4).length = 4 := by
      rw [List.length_drop]
      omega
    obtain ⟨key, hkey⟩ := exists_encodeSigned hfront
    obtain ⟨distance, hdistance⟩ := exists_encodeSigned hbehind
    refine ⟨(key, distance), ?_⟩
    simp only [ofPairs, ← hkey, ← hdistance, List.take_append_drop]
  case count_nonneg =>
    simp only [ofPairs]
    omega
  case decode_refused =>
    intro offset front header hheader hrefused
    rw [decode_ofPairs hheader, if_pos (hsign.mpr hrefused)]
    rfl
  case decode_counted =>
    intro offset front header hheader hcount
    rw [decode_ofPairs hheader, if_neg (fun hless => hcount (hsign.mp hless))]
    rfl

/-! ## Instructions -/

/-- The instruction starts at the cursor and the header of its table ends at `header`. -/
def StandsAt (table : JumpTable Item) (cursor header : Cursor) : Prop :=
  ∃ front, cursor.Spans [table.opcode.byte] front ∧ table.HeaderSpans front header

def instruction (table : JumpTable Item) (cursor : Cursor) (operand : Operand) (next : Cursor) :
    Instruction where
  offset := cursor.position
  size := next.position - cursor.position
  opcode := table.opcode
  wide := false
  operand := operand

theorem exists_standsAt {cursor : Cursor} {ignored rest : Bytes}
    (hlength : ignored.length = Cursor.padding 4 (cursor.position + 1))
    (hrest : cursor.rest = [table.opcode.byte] ++
      (ignored ++ table.fields.flatMap (Operand.encodeSigned 4) ++ rest)) :
    ∃ header, table.StandsAt cursor header ∧ header.rest = rest := by
  obtain ⟨front, hbyte, hfront⟩ := cursor.exists_spans hrest
  obtain ⟨header, hheader, hbehind⟩ := front.exists_spans hfront
  refine ⟨header, ⟨front, hbyte, ignored, ?_, hheader⟩, hbehind⟩
  rw [hbyte.position]
  exact hlength

/-- The byte stands at the cursor, and `count` numbers of four bytes behind the next
multiple of four. -/
def HasHeader (cursor : Cursor) (byte : UInt8) (count : Nat) : Prop :=
  ∃ ignored numbers rest : Bytes, ignored.length = Cursor.padding 4 (cursor.position + 1) ∧
    numbers.length = 4 * count ∧ cursor.rest = [byte] ++ (ignored ++ numbers ++ rest)

theorem HasHeader.exists_fields {cursor : Cursor} {byte : UInt8} {count : Nat}
    (hheader : HasHeader cursor byte count) :
    ∃ (fields : List Int32) (ignored rest : Bytes), fields.length = count ∧
      ignored.length = Cursor.padding 4 (cursor.position + 1) ∧
      cursor.rest = [byte] ++ (ignored ++ fields.flatMap (Operand.encodeSigned 4) ++ rest) := by
  obtain ⟨ignored, numbers, rest, hpadding, hlength, hrest⟩ := hheader
  obtain ⟨fields, hcount, rfl⟩ := exists_items_of_length (fun _ => exists_encodeSigned) hlength
  exact ⟨fields, ignored, rest, hcount, hpadding, hrest⟩

/-- Every header of three numbers is one of a range. -/
theorem exists_ofRange_standsAt {cursor : Cursor} (hheader : HasHeader cursor 0xAA 3) :
    ∃ default low high header, (ofRange default low high).StandsAt cursor header := by
  obtain ⟨fields, ignored, rest, hcount, hpadding, hrest⟩ := hheader.exists_fields
  obtain ⟨default, low, high, rfl⟩ := List.length_eq_three.mp hcount
  have hrange : cursor.rest = [(ofRange default low high).opcode.byte] ++
      (ignored ++ (ofRange default low high).fields.flatMap (Operand.encodeSigned 4) ++ rest) :=
    hrest
  obtain ⟨header, hstands, _⟩ := exists_standsAt hpadding hrange
  exact ⟨default, low, high, header, hstands⟩

/-- Every header of two numbers is one of pairs. -/
theorem exists_ofPairs_standsAt {cursor : Cursor} (hheader : HasHeader cursor 0xAB 2) :
    ∃ default count header, (ofPairs default count).StandsAt cursor header := by
  obtain ⟨fields, ignored, rest, hcount, hpadding, hrest⟩ := hheader.exists_fields
  obtain ⟨default, count, rfl⟩ := List.length_eq_two.mp hcount
  have hpairs : cursor.rest = [(ofPairs default count).opcode.byte] ++
      (ignored ++ (ofPairs default count).fields.flatMap (Operand.encodeSigned 4) ++ rest) :=
    hrest
  obtain ⟨header, hstands, _⟩ := exists_standsAt hpadding hpairs
  exact ⟨default, count, header, hstands⟩

/-- Reading the instruction gives the result of the ending of its table. -/
theorem Regular.exists_ending_of_standsAt (hregular : table.Regular) {cursor : Cursor}
    (hstands : table.StandsAt cursor header) (hcode : cursor.data.length < capacity 4) :
    ∃ ending, table.Ends header ending ∧
      Instruction.decode cursor =
        table.result cursor.position header (table.instruction cursor) ending := by
  obtain ⟨front, hbyte, hheader⟩ := hstands
  obtain ⟨ending, hends, hoperand⟩ := hregular.exists_ending hheader
  let layout : InstructionLayout :=
    { opcode := table.opcode, wide := false, operand := .empty, ignored := [] }
  have hhead : cursor.Spans layout.head front := hbyte
  have hnarrow : layout.wide = true → layout.opcode.isWidenable = true :=
    fun hwide => absurd hwide Bool.false_ne_true
  have hposition := cursor.position_le
  change cursor.data.length < 0x100000000 at hcode
  refine ⟨ending, hends, ?_⟩
  rw [Instruction.decode_of_head hregular.kind_ne hnarrow hhead (by omega)]
  cases hends with
  | refused _ => exact run_bind_of_error hoperand
  | short _ _ => exact run_bind_of_error hoperand
  | @read _ _ items next hreads =>
      obtain ⟨ignored, _, hspans⟩ := hheader
      have hnext := next.position_le
      rw [hreads.spans.1, hspans.1, hbyte.1] at hnext
      have hsize : next.position - cursor.position < 0x100000000 := by omega
      rw [run_bind_of_ok hoperand]
      change (Instruction.checkOffset (next.position - cursor.position) >>= _) next = _
      rw [Instruction.checkOffset_of_lt hsize]
      rfl

end JumpTable

end JvmCalls

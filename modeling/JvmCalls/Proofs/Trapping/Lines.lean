import JvmCalls.Proofs.Output.Line
import JvmCalls.Proofs.Trapping.ClassFile
import Mathlib.Algebra.Order.BigOperators.Group.List
import Mathlib.Algebra.Order.Group.Nat

/-!
# Lines

The lines of a class are made of fields that are short, so that there is room
for each of them and for the line.  With the reads of a class this makes the
whole way from bytes to lines free of traps.
-/

namespace JvmCalls.Trapping

open Checked
open JvmCalls (CallEdge CallSite Instruction Method SignatureStyle TypeFilter)

/-! ## Lines by partial operations -/

/-- A field, for which room is made if it has characters to be escaped. -/
def escape (field : String) : Checked Defect String :=
  if field.toList.any (fun character => (Field.letterOf? character).isSome) then do
    Word.reserve (← Word.add (Utf8.encode field).length 8) 1
    return Field.escape field
  else
    return field

/-- The texts with a space between them.  Room is made for all texts and the
spaces at once. -/
def joined (texts : List String) : Checked Defect String := do
  let sizes := texts.map (fun text => (Utf8.encode text).length)
  Word.reserve (← sizes.foldlM Word.add (texts.length - 1)) 1
  return String.intercalate Line.separator.toString texts

def fields (edge : CallEdge) : SignatureStyle → Checked Defect (List String)
  | .readable => do
      let type ← readableName edge.calleeOwner
      let signature ← readableSignature edge.calleeDescriptor
      return [edge.callerType, edge.callerMethod, type, edge.calleeMethod, signature]
  | .descriptor => return edge.fields .descriptor

def line (style : SignatureStyle) (edge : CallEdge) : Checked Defect String := do
  joined (← (← fields edge style).mapM escape)

def callAt (decoded : JvmCalls.ClassFile) (filter : TypeFilter) (method : Method)
    (instruction : Instruction) : Checked Defect (Option CallEdge) := do
  match ← total (CallSite.resolve decoded.pool instruction) with
  | none => return none
  | some site =>
      if filter.excludes (← readableName site.owner) then
        return none
      else
        return some (CallEdge.ofSite decoded.name method.name site)

def callsOf (decoded : JvmCalls.ClassFile) (filter : TypeFilter) (method : Method) :
    Checked Defect (List CallEdge) := do
  return (← method.instructions.mapM (callAt decoded filter method)).filterMap id

def calls (decoded : JvmCalls.ClassFile) (filter : TypeFilter) :
    Checked Defect (List CallEdge) := do
  return (← decoded.methods.mapM (callsOf decoded filter)).flatten

/-- The lines of the calls of the class of a whole byte string. -/
def linesOf (filter : TypeFilter) (style : SignatureStyle) (content : Bytes) :
    Checked Fault (List String) := do
  let decoded ← ClassFile.parse content
  let edges ← (calls decoded filter).mapFlaw .malformed
  (edges.mapM (line style)).mapFlaw .malformed

/-! ## Room for lines -/

theorem length_escape_le (field : String) : (Field.escape field).length ≤ 2 * field.length := by
  rw [Field.escape, String.length_ofList, ← String.length_toList]
  induction field.toList with
  | nil => exact Nat.le_refl _
  | cons character characters ih =>
      have hcharacter : (Field.escapeChar character).length ≤ 2 := by
        rw [Field.escapeChar]
        split
        · exact Nat.le_refl _
        · exact Nat.le_succ _
      rw [List.flatMap_cons, List.length_append, List.length_cons]
      omega

theorem escape_eq {field : String} (hshort : field.length ≤ 0x80000) :
    escape field = .ok (Field.escape field) := by
  have hsize := length_encode_le field
  rw [escape]
  by_cases hescaped : field.toList.any (fun character => (Field.letterOf? character).isSome) = true
  · rw [if_pos hescaped, Word.add_eq (by omega), ok_bind, Word.reserve_eq (by omega)]
    rfl
  · rw [if_neg hescaped, Field.escape_eq_self]
    · rfl
    · intro character hmem
      rw [← Option.not_isSome_iff_eq_none]
      exact fun hsome => hescaped (List.any_eq_true.mpr ⟨character, hmem, hsome⟩)

theorem joined_eq {texts : List String} (hcount : texts.length ≤ 5)
    (hshort : ∀ text ∈ texts, text.length ≤ 0x100000) :
    joined texts = .ok (String.intercalate Line.separator.toString texts) := by
  have hsizes : (texts.map (fun text => (Utf8.encode text).length)).sum ≤ 5 * 0x400000 :=
    calc (texts.map (fun text => (Utf8.encode text).length)).sum
        ≤ (texts.map (fun text => (Utf8.encode text).length)).length * 0x400000 := by
          apply List.sum_le_card_nsmul
          intro size hsize
          obtain ⟨text, htext, rfl⟩ := List.mem_map.mp hsize
          have hlength := length_encode_le text
          have hbound := hshort text htext
          omega
      _ ≤ 5 * 0x400000 := by
          rw [List.length_map]
          exact Nat.mul_le_mul_right _ hcount
  rw [joined, Word.foldlM_add (by omega), ok_bind, Word.reserve_eq (by omega)]
  rfl

variable {edge : CallEdge} {decoded : JvmCalls.ClassFile}

theorem fields_eq (hshort : edge.IsShort) (style : SignatureStyle) :
    fields edge style = .ok (edge.fields style) := by
  have howner := ClassFile.length_encode_lt hshort.calleeOwner
  have hdescriptor := ClassFile.length_encode_lt hshort.calleeDescriptor
  cases style with
  | readable =>
      rw [fields, readableName_eq howner, ok_bind, readableSignature_eq hdescriptor]
      rfl
  | descriptor => rfl

/-- There is room for the line of a short call. -/
theorem line_eq (hshort : edge.IsShort) (style : SignatureStyle) :
    line style edge = .ok (edge.line style) := by
  have hfields := hshort.length_field_le style
  have hescaped : (edge.fields style).mapM escape =
      .ok ((edge.fields style).map Field.escape) :=
    Outcome.mapM_eq_ok_map (fun field hfield => escape_eq (hfields field hfield))
  have hjoined : joined ((edge.fields style).map Field.escape) = .ok (edge.line style) := by
    apply joined_eq
    · rw [List.length_map]
      exact Nat.le_refl 5
    · intro text htext
      obtain ⟨field, hfield, rfl⟩ := List.mem_map.mp htext
      have hlength := length_escape_le field
      have hbound := hfields field hfield
      omega
  rw [line, fields_eq hshort, ok_bind, hescaped, ok_bind, hjoined]

/-! ## Extraction -/

theorem callAt_eq (hpool : decoded.pool.HasShortTexts) (filter : TypeFilter) (method : Method)
    (instruction : Instruction) :
    callAt decoded filter method instruction =
      total (decoded.callAt filter method instruction) := by
  rw [callAt, JvmCalls.ClassFile.callAt, total_bind]
  cases hsite : CallSite.resolve decoded.pool instruction with
  | error defect => rfl
  | ok found =>
      cases found with
      | none => rfl
      | some site =>
          have howner := CallSite.isShort_owner_of_resolve hpool hsite
          simp only [total_ok, ok_bind]
          rw [readableName_eq (ClassFile.length_encode_lt howner), ok_bind]
          cases filter.excludes (JvmCalls.readableName site.owner) with
          | true => rfl
          | false => rfl

theorem callsOf_eq (hpool : decoded.pool.HasShortTexts) (filter : TypeFilter) (method : Method) :
    callsOf decoded filter method = total (decoded.callsOf filter method) := by
  rw [callsOf, JvmCalls.ClassFile.callsOf,
    mapM_eq_total (fun instruction _ => callAt_eq hpool filter method instruction), total_bind]
  rfl

theorem calls_eq (hpool : decoded.pool.HasShortTexts) (filter : TypeFilter) :
    calls decoded filter = total (decoded.calls filter) := by
  rw [calls, JvmCalls.ClassFile.calls,
    mapM_eq_total (fun method _ => callsOf_eq hpool filter method), total_bind]
  rfl

theorem linesOf_eq {content : Bytes} (hsmall : content.length < 2 ^ 63) (filter : TypeFilter)
    (style : SignatureStyle) :
    linesOf filter style content = total (do
      let decoded ← JvmCalls.ClassFile.parse content
      (decoded.lines filter style).mapError .malformed) := by
  rw [linesOf, ClassFile.parse_eq hsmall, total_bind]
  cases hparsed : JvmCalls.ClassFile.parse content with
  | error fault => rfl
  | ok decoded =>
      obtain ⟨_, hread, _⟩ := JvmCalls.ClassFile.parse_eq_ok_iff.mp hparsed
      have hshort := JvmCalls.ClassFile.isShort_of_run hread
      rw [total_ok, ok_bind, ok_bind, calls_eq hshort.texts, JvmCalls.ClassFile.lines]
      cases hcalls : decoded.calls filter with
      | error defect => rfl
      | ok edges =>
          have hlines : edges.mapM (line style) = .ok (edges.map (fun edge => edge.line style)) :=
            Outcome.mapM_eq_ok_map (fun edge hedge =>
              line_eq (JvmCalls.ClassFile.isShort_of_mem_calls hparsed hcalls hedge) style)
          simp only [total_ok, mapFlaw, ok_bind, hlines]
          rfl

/-! ## No traps -/

/-- A byte string in memory, where nothing has 2^63 bytes. -/
structure Slice where
  bytes : Bytes
  length_lt : bytes.length < 2 ^ 63

/-- The number of every slot of a class that was parsed is cast without loss. -/
theorem exists_entries_of_parse {content : Bytes} {decoded : JvmCalls.ClassFile}
    (hsmall : content.length < 2 ^ 63) (hparsed : ClassFile.parse content = .ok decoded) :
    ∃ listed, ConstantPool.entries decoded.pool = .ok listed ∧
      listed.map (fun entry => (entry.1.toNat, entry.2)) = decoded.pool.entries := by
  rw [ClassFile.parse_eq hsmall, total_eq_ok_iff] at hparsed
  obtain ⟨_, hread, _⟩ := JvmCalls.ClassFile.parse_eq_ok_iff.mp hparsed
  have hsize := Nat.le_of_lt (JvmCalls.ClassFile.isShort_of_run hread).pool_size
  refine ⟨_, ConstantPool.entries_eq hsize, ?_⟩
  rw [List.map_map]
  calc decoded.pool.entries.map _
      = decoded.pool.entries.map id := by
        apply List.map_congr_left
        intro entry hmem
        have hindex := ConstantPool.lt_size_of_mem_entries hmem
        exact Prod.ext (UInt16.toNat_ofNat_of_lt' (Nat.lt_of_lt_of_le hindex hsize)) rfl
    _ = decoded.pool.entries := List.map_id _

/-- A class is read and its lines are extracted without a trap, whatever the
bytes, the filter and the style are: every index, slice, cut, sum, difference,
cast and shift stays in its domain.  What comes out are the lines, or one of
four faults.  The slots of the pool can be listed without a trap as well. -/
theorem linesOf_never_traps (input : Slice) (filter : TypeFilter) (style : SignatureStyle) :
    (∀ cause, linesOf filter style input.bytes ≠ trap cause) ∧
    (linesOf filter style input.bytes = total (do
      let decoded ← JvmCalls.ClassFile.parse input.bytes
      (decoded.lines filter style).mapError .malformed)) ∧
    (∀ decoded, ClassFile.parse input.bytes = .ok decoded →
      ∃ listed, ConstantPool.entries decoded.pool = .ok listed ∧
        listed.map (fun entry => (entry.1.toNat, entry.2)) = decoded.pool.entries) ∧
    ((∃ lines, linesOf filter style input.bytes = .ok lines) ∨
      linesOf filter style input.bytes = flaw .empty ∨
      (∃ number, linesOf filter style input.bytes = flaw (.invalidMagic number)) ∨
      linesOf filter style input.bytes = flaw .outOfBounds ∨
      ∃ defect, linesOf filter style input.bytes = flaw (.malformed defect)) := by
  have hlines := linesOf_eq input.length_lt filter style
  refine ⟨fun cause => ?_, hlines, fun decoded => exists_entries_of_parse input.length_lt, ?_⟩
  · rw [hlines]
    exact total_ne_trap _ cause
  · generalize (do
      let decoded ← JvmCalls.ClassFile.parse input.bytes
      (decoded.lines filter style).mapError .malformed) = outcome at hlines
    rw [hlines]
    match outcome with
    | .ok lines => exact .inl ⟨lines, rfl⟩
    | .error .empty => exact .inr (.inl rfl)
    | .error (.invalidMagic number) => exact .inr (.inr (.inl ⟨number, rfl⟩))
    | .error .outOfBounds => exact .inr (.inr (.inr (.inl rfl)))
    | .error (.malformed defect) => exact .inr (.inr (.inr (.inr ⟨defect, rfl⟩)))

def callingSlice : Slice where
  bytes := JvmCalls.ClassFile.callingClass
  length_lt := by decide

theorem linesOf_callingSlice :
    linesOf .everything .readable callingSlice.bytes =
      .ok ["A f A f ()void", "A f A f ()void"] ∧
    ∃ decoded listed, ClassFile.parse callingSlice.bytes = .ok decoded ∧
      ConstantPool.entries decoded.pool = .ok listed ∧
      listed.map (fun entry => (entry.1.toNat, entry.2)) = decoded.pool.entries := by
  obtain ⟨_, hlines, hentries, _⟩ := linesOf_never_traps callingSlice .everything .readable
  obtain ⟨decoded, hdecoded, _⟩ := JvmCalls.ClassFile.exists_parse_callingClass
  have hparsed : ClassFile.parse callingSlice.bytes = .ok decoded := by
    rw [ClassFile.parse_eq callingSlice.length_lt]
    exact total_eq_ok_iff.mpr hdecoded
  obtain ⟨listed, hlisted, hcast⟩ := hentries decoded hparsed
  refine ⟨?_, decoded, listed, hparsed, hlisted, hcast⟩
  rw [hlines]
  decide +kernel

end JvmCalls.Trapping

import JvmCalls.Proofs.Constant.Slots
import JvmCalls.Proofs.Trapping.Reader

/-!
# Constants

The pool grows slot by slot up to its count, which is no more than a number of
two bytes; so the slots of a pool that was read have indices of two bytes, and
listing them casts no index that does not fit.
-/

namespace JvmCalls.Trapping

open Checked Reading

namespace Constant

def decodeIndices (build : UInt16 → UInt16 → JvmCalls.Constant) : Reading JvmCalls.Constant := do
  let first ← uint16
  let second ← uint16
  return build first second

def decodeFields : JvmCalls.Constant.Tag → Reading JvmCalls.Constant
  | .utf8 => do
      let length ← uint16
      return .utf8 (← text length)
  | .integer => do return .integer (← int32)
  | .float => do return .float (← uint32)
  | .long => do return .long (← int64)
  | .double => do return .double (← uint64)
  | .classRef => do return .classRef (← uint16)
  | .string => do return .string (← uint16)
  | .fieldRef => decodeIndices .fieldRef
  | .methodRef => decodeIndices .methodRef
  | .interfaceMethodRef => decodeIndices .interfaceMethodRef
  | .nameAndType => decodeIndices .nameAndType
  | .methodHandle => do
      let kind ← uint8
      return .methodHandle kind (← uint16)
  | .methodType => do return .methodType (← uint16)
  | .dynamic => decodeIndices .dynamic
  | .invokeDynamic => decodeIndices .invokeDynamic
  | .moduleRef => do return .moduleRef (← uint16)
  | .packageRef => do return .packageRef (← uint16)

def decode (index : Nat) : Reading JvmCalls.Constant := do
  let byte ← uint8
  match JvmCalls.Constant.Tag.ofCode? byte with
  | some tag => decodeFields tag
  | none => malformed (.invalidConstantTag byte index)

theorem follows_decodeIndices (build : UInt16 → UInt16 → JvmCalls.Constant) :
    Follows (decodeIndices build) (JvmCalls.Constant.decodeIndices build) :=
  follows_then follows_uint16 (fun _ => follows_then follows_uint16 (fun _ => follows_pure _))

theorem follows_decodeFields (tag : JvmCalls.Constant.Tag) :
    Follows (decodeFields tag) (JvmCalls.Constant.decodeFields tag) := by
  cases tag with
  | utf8 =>
      exact follows_then follows_uint16 (fun length =>
        follows_then (follows_text length) (fun _ => follows_pure _))
  | integer => exact follows_then follows_int32 (fun _ => follows_pure _)
  | float => exact follows_then follows_uint32 (fun _ => follows_pure _)
  | long => exact follows_then follows_int64 (fun _ => follows_pure _)
  | double => exact follows_then follows_uint64 (fun _ => follows_pure _)
  | classRef | string | methodType | moduleRef | packageRef =>
      exact follows_then follows_uint16 (fun _ => follows_pure _)
  | fieldRef | methodRef | interfaceMethodRef | nameAndType | dynamic | invokeDynamic =>
      exact follows_decodeIndices _
  | methodHandle =>
      exact follows_then follows_uint8 (fun _ =>
        follows_then follows_uint16 (fun _ => follows_pure _))

theorem follows_decode (index : Nat) :
    Follows (decode index) (JvmCalls.Constant.decode index) := by
  refine follows_then follows_uint8 (fun byte => ?_)
  cases JvmCalls.Constant.Tag.ofCode? byte with
  | some tag => exact follows_decodeFields tag
  | none => exact follows_malformed _

end Constant

namespace ConstantPool

/-- Reads constants until there are `count` slots. -/
def decodeSlots (count : Nat) (slots : Array (Option JvmCalls.Constant)) :
    Reading (Array (Option JvmCalls.Constant)) :=
  if slots.size < count then do
    let index := slots.size
    let constant ← Constant.decode index
    let filled := slots.push (some constant)
    if constant.isWide then
      if count ≤ filled.size then
        malformed (.overrunningConstant index)
      else
        decodeSlots count (filled.push none)
    else
      decodeSlots count filled
  else
    return slots
termination_by count - slots.size
decreasing_by all_goals simp only [Array.size_push]; omega

def decode : Reading JvmCalls.ConstantPool := do
  let count ← uint16
  if count = 0 then
    malformed .emptyPool
  else
    ofChecked (Word.reserve count.toNat Word.itemSize)
    return { slots := ← decodeSlots count.toNat #[none] }

/-- The constants with the numbers of their slots, in ascending order. -/
def entries (pool : JvmCalls.ConstantPool) : Checked Defect (List (UInt16 × JvmCalls.Constant)) :=
  pool.entries.mapM (fun entry => do return (← Word.toUInt16 entry.1, entry.2))

/-- A pool is filled as a decoder fills it, by induction on the count of the
slots that are left. -/
theorem follows_decodeSlots {count : Nat} (remaining : Nat)
    (slots : Array (Option JvmCalls.Constant)) (hcount : slots.size + remaining = count) :
    Follows (decodeSlots count slots)
      (JvmCalls.ConstantPool.decodeSlots slots.size remaining slots) := by
  induction remaining using Nat.strongRecOn generalizing slots with
  | _ remaining ih =>
      rw [decodeSlots]
      cases remaining with
      | zero =>
          rw [if_neg (by omega)]
          exact follows_pure _
      | succ remaining =>
          rw [if_pos (by omega), JvmCalls.ConstantPool.decodeSlots.eq_def]
          refine follows_then (Constant.follows_decode _) (fun constant => ?_)
          have hfilled : (slots.push (some constant)).size = slots.size + 1 := Array.size_push _
          by_cases hwide : constant.isWide = true
          · simp only [hwide, if_true]
            cases remaining with
            | zero =>
                rw [if_pos (by omega)]
                exact follows_malformed _
            | succ remaining =>
                have hnext : ((slots.push (some constant)).push none).size = slots.size + 2 := by
                  rw [Array.size_push, hfilled]
                have hmore := ih remaining (by omega) _ (by rw [hnext]; omega)
                rw [if_neg (by omega)]
                rw [hnext] at hmore
                exact hmore
          · have hmore := ih remaining (by omega) _ (by rw [hfilled]; omega)
            rw [if_neg hwide, if_neg hwide]
            rw [hfilled] at hmore
            exact hmore

theorem follows_decode : Follows decode JvmCalls.ConstantPool.decode := by
  refine follows_then follows_uint16 (fun count => ?_)
  have hcount := count.toNat_lt
  cases hremaining : count.toNat with
  | zero =>
      rw [if_pos (UInt16.toNat_inj.mp hremaining)]
      exact follows_malformed _
  | succ remaining =>
      have hzero : count ≠ 0 := by
        rintro rfl
        cases hremaining
      have hslots : Follows (decodeSlots (remaining + 1) #[none])
          (JvmCalls.ConstantPool.decodeSlots 1 remaining #[none]) :=
        follows_decodeSlots remaining #[none] (Nat.add_comm _ _)
      rw [if_neg hzero, Word.reserve_items (by omega), ofChecked_ok, pure_bind]
      exact follows_then hslots (fun _ => follows_pure _)

/-- The numbers of the slots of a pool that was read are cast without loss. -/
theorem entries_eq {pool : JvmCalls.ConstantPool} (hsize : pool.size ≤ 2 ^ 16) :
    entries pool = .ok (pool.entries.map (fun entry => (UInt16.ofNat entry.1, entry.2))) := by
  apply Outcome.mapM_eq_ok_map
  intro entry hmem
  have hindex := JvmCalls.ConstantPool.lt_size_of_mem_entries hmem
  rw [Word.toUInt16_eq (by omega)]
  rfl

end ConstantPool

end JvmCalls.Trapping

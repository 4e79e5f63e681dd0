import JvmCalls.Proofs.Text.ModifiedUtf8
import JvmCalls.Proofs.Trapping.Partial

/-!
# Texts

The loop that reads modified UTF-8 takes the bytes by their positions and puts
units together by shifts.  It never traps and reads what
`ModifiedUtf8.decode` does.  The bits of a unit are those of its bytes, so no
shift loses any of them.
-/

namespace JvmCalls.Trapping.ModifiedUtf8

open Checked JvmCalls.ModifiedUtf8

def unitOfTwo (first second : UInt16) : Checked Defect UInt16 := do
  let high ← shiftUp (first &&& 0x1F) 6
  return high ||| (second &&& 0x3F)

def unitOfThree (first second third : UInt16) : Checked Defect UInt16 := do
  let high ← shiftUp (first &&& 0x0F) 12
  let middle ← shiftUp (second &&& 0x3F) 6
  return high ||| middle ||| (third &&& 0x3F)

/-- The unit at a position and the position behind it. -/
def unitAt (bytes : Bytes) (position : Nat) : Checked Defect (UInt16 × Nat) := do
  let byte ← byteAt bytes position
  let first := byte.toUInt16
  if first &&& 0x80 = 0 then
    return (first, ← Word.add position 1)
  else if first &&& 0xE0 = 0xC0 then
    match bytes[← Word.add position 1]? with
    | some second =>
        return (← unitOfTwo first second.toUInt16, ← Word.add position 2)
    | none => flaw (.truncatedCharacter position)
  else if first &&& 0xF0 = 0xE0 then
    match bytes[← Word.add position 1]?, bytes[← Word.add position 2]? with
    | some second, some third =>
        return (← unitOfThree first second.toUInt16 third.toUInt16, ← Word.add position 3)
    | _, _ => flaw (.truncatedCharacter position)
  else
    flaw (.invalidLeadByte byte position)

/-- The units of the bytes, of which those before the position are given. -/
def unitsFrom (bytes : Bytes) (position : Nat) (units : List UInt16) :
    Checked Defect (List UInt16) :=
  if position < bytes.length then do
    let (unit, next) ← unitAt bytes position
    if bytes.length - next < bytes.length - position then
      unitsFrom bytes next (units ++ [unit])
    else
      trap .stall
  else
    return units
termination_by bytes.length - position

def decode (bytes : Bytes) : Checked Defect String :=
  if bytes.all isPlain then
    return String.ofList (bytes.map (fun byte => Char.ofNat byte.toNat))
  else do
    Word.reserve bytes.length 2
    return String.ofList (Utf16.characters (← unitsFrom bytes 0 []))

section Bits

variable (first second third : UInt8)

theorem and_and_eq_iff {mask kind : UInt16} :
    first.toUInt16 &&& mask = kind ↔ first.toNat &&& mask.toNat = kind.toNat := by
  rw [← UInt16.toNat_inj, UInt16.toNat_and, UInt8.toNat_toUInt16]

theorem isOne_iff : first.toUInt16 &&& 0x80 = 0 ↔ first.toNat < 0x80 := by
  have hbytes : ∀ number < 256, number &&& 0x80 = 0 ↔ number < 0x80 := by decide +kernel
  rw [and_and_eq_iff, ← hbytes first.toNat first.toNat_lt]
  rfl

theorem isTwo_iff :
    first.toUInt16 &&& 0xE0 = 0xC0 ↔ 0xC0 ≤ first.toNat ∧ first.toNat < 0xE0 := by
  have hbytes : ∀ number < 256, number &&& 0xE0 = 0xC0 ↔ 0xC0 ≤ number ∧ number < 0xE0 := by
    decide +kernel
  rw [and_and_eq_iff, ← hbytes first.toNat first.toNat_lt]
  rfl

theorem isThree_iff :
    first.toUInt16 &&& 0xF0 = 0xE0 ↔ 0xE0 ≤ first.toNat ∧ first.toNat < 0xF0 := by
  have hbytes : ∀ number < 256, number &&& 0xF0 = 0xE0 ↔ 0xE0 ≤ number ∧ number < 0xF0 := by
    decide +kernel
  rw [and_and_eq_iff, ← hbytes first.toNat first.toNat_lt]
  rfl

/-- The low bits of a byte. -/
theorem toNat_and_mask {mask : UInt16} (width : Nat) (hmask : mask.toNat = 2 ^ width - 1) :
    (first.toUInt16 &&& mask).toNat = first.toNat % 2 ^ width := by
  rw [UInt16.toNat_and, UInt8.toNat_toUInt16, hmask, Nat.and_two_pow_sub_one_eq_mod]

/-- Low bits are added to a number that has none of them. -/
theorem toNat_or_of_lt {high low : UInt16} (width : Nat) (hhigh : 2 ^ width ∣ high.toNat)
    (hlow : low.toNat < 2 ^ width) : (high ||| low).toNat = high.toNat + low.toNat := by
  obtain ⟨factor, hfactor⟩ := hhigh
  rw [UInt16.toNat_or, hfactor, ← Nat.two_pow_add_eq_or_of_lt hlow]

/-- The low bits of a byte, moved up in a unit that has room for them. -/
theorem exists_shiftUp (mask : UInt16) (width count : Nat) (hmask : mask.toNat = 2 ^ width - 1)
    (hroom : width + count ≤ 16) (hcount : count < 16) :
    ∃ high : UInt16, shiftUp (first.toUInt16 &&& mask) count = (.ok high : Checked Defect UInt16) ∧
      high.toNat = first.toNat % 2 ^ width * 2 ^ count := by
  have hlow := toNat_and_mask first width hmask
  have hfits : (first.toUInt16 &&& mask).toNat * 2 ^ count < 2 ^ 16 :=
    calc (first.toUInt16 &&& mask).toNat * 2 ^ count
        < 2 ^ width * 2 ^ count := by
          rw [hlow]
          exact Nat.mul_lt_mul_of_pos_right (Nat.mod_lt _ (Nat.two_pow_pos width))
            (Nat.two_pow_pos count)
      _ = 2 ^ (width + count) := (Nat.pow_add 2 width count).symm
      _ ≤ 2 ^ 16 := Nat.pow_le_pow_right (by decide) hroom
  refine ⟨_, shiftUp_eq hcount hfits, ?_⟩
  rw [UInt16.toNat_ofNat_of_lt' hfits, hlow]

theorem unitOfTwo_eq : unitOfTwo first.toUInt16 second.toUInt16 =
    .ok (JvmCalls.ModifiedUtf8.unitOfTwo first second) := by
  obtain ⟨high, hhigh, hvalue⟩ := exists_shiftUp first 0x1F 5 6 rfl (by decide) (by decide)
  have hlow : (second.toUInt16 &&& 0x3F).toNat = second.toNat % 2 ^ 6 := toNat_and_mask second 6 rfl
  have hsecond : second.toNat % 2 ^ 6 < 2 ^ 6 := Nat.mod_lt _ (by decide)
  have hfits : first.toNat % 32 * 64 + second.toNat % 64 < 65536 := by omega
  have hunit : (high ||| (second.toUInt16 &&& 0x3F)).toNat =
      (JvmCalls.ModifiedUtf8.unitOfTwo first second).toNat :=
    calc (high ||| (second.toUInt16 &&& 0x3F)).toNat
        = first.toNat % 2 ^ 5 * 2 ^ 6 + second.toNat % 2 ^ 6 := by
          rw [toNat_or_of_lt 6 (hvalue ▸ Nat.dvd_mul_left _ _) (hlow ▸ hsecond), hvalue, hlow]
      _ = (JvmCalls.ModifiedUtf8.unitOfTwo first second).toNat :=
          (UInt16.toNat_ofNat_of_lt' hfits).symm
  rw [unitOfTwo, hhigh]
  exact congrArg Except.ok (UInt16.toNat_inj.mp hunit)

theorem unitOfThree_eq : unitOfThree first.toUInt16 second.toUInt16 third.toUInt16 =
    .ok (JvmCalls.ModifiedUtf8.unitOfThree first second third) := by
  obtain ⟨high, hhigh, hvalue⟩ := exists_shiftUp first 0x0F 4 12 rfl (by decide) (by decide)
  obtain ⟨middle, hmiddle, hmiddleValue⟩ :=
    exists_shiftUp second 0x3F 6 6 rfl (by decide) (by decide)
  have hlow : (third.toUInt16 &&& 0x3F).toNat = third.toNat % 2 ^ 6 := toNat_and_mask third 6 rfl
  have hsecond : second.toNat % 2 ^ 6 < 2 ^ 6 := Nat.mod_lt _ (by decide)
  have hthird : third.toNat % 2 ^ 6 < 2 ^ 6 := Nat.mod_lt _ (by decide)
  have hboth : (high ||| middle).toNat = high.toNat + middle.toNat :=
    toNat_or_of_lt 12 (hvalue ▸ Nat.dvd_mul_left _ _) (by omega)
  have hfits : first.toNat % 16 * 4096 + second.toNat % 64 * 64 + third.toNat % 64 < 65536 := by
    omega
  have hunit : (high ||| middle ||| (third.toUInt16 &&& 0x3F)).toNat =
      (JvmCalls.ModifiedUtf8.unitOfThree first second third).toNat :=
    calc (high ||| middle ||| (third.toUInt16 &&& 0x3F)).toNat
        = first.toNat % 2 ^ 4 * 2 ^ 12 + second.toNat % 2 ^ 6 * 2 ^ 6 + third.toNat % 2 ^ 6 := by
          rw [toNat_or_of_lt 6 (by omega) (hlow ▸ hthird), hboth, hvalue, hmiddleValue, hlow]
      _ = (JvmCalls.ModifiedUtf8.unitOfThree first second third).toNat :=
          (UInt16.toNat_ofNat_of_lt' hfits).symm
  rw [unitOfThree, hhigh]
  simp only [ok_bind, hmiddle]
  exact congrArg Except.ok (UInt16.toNat_inj.mp hunit)

end Bits

section Loop

variable {bytes rest : Bytes} {first : UInt8} {position : Nat}

/-- What is found at a position is the next unit that is read there, or the
defect that the bytes there have. -/
inductive Finds (bytes : Bytes) (position : Nat) : Checked Defect (UInt16 × Nat) → Prop
  | unit {unit : UInt16} {next : Nat} (hnext : position < next)
      (hread : ∀ units, collectUnits position (bytes.drop position) units =
        collectUnits next (bytes.drop next) (unit :: units)) :
      Finds bytes position (.ok (unit, next))
  | flawed {defect : Defect}
      (hread : ∀ units, collectUnits position (bytes.drop position) units = .error defect) :
      Finds bytes position (flaw defect)

theorem getElem?_of_drop (hdrop : bytes.drop position = first :: rest) (count : Nat) :
    bytes[position + count]? = (first :: rest)[count]? := by
  rw [← hdrop, List.getElem?_drop]

theorem drop_of_drop (hdrop : bytes.drop position = first :: rest) (count : Nat) :
    bytes.drop (position + count) = (first :: rest).drop count := by
  rw [← hdrop, List.drop_drop]

/-- The bytes at a position are looked at one by one. -/
theorem unitAt_of_drop (hsmall : bytes.length < 2 ^ 63)
    (hdrop : bytes.drop position = first :: rest) :
    unitAt bytes position =
      if first.toNat < 0x80 then
        .ok (first.toUInt16, position + 1)
      else if 0xC0 ≤ first.toNat ∧ first.toNat < 0xE0 then
        match rest[0]? with
        | some second => .ok (JvmCalls.ModifiedUtf8.unitOfTwo first second, position + 2)
        | none => flaw (.truncatedCharacter position)
      else if 0xE0 ≤ first.toNat ∧ first.toNat < 0xF0 then
        match rest[0]?, rest[1]? with
        | some second, some third =>
            .ok (JvmCalls.ModifiedUtf8.unitOfThree first second third, position + 3)
        | _, _ => flaw (.truncatedCharacter position)
      else
        flaw (.invalidLeadByte first position) := by
  have hget := getElem?_of_drop hdrop
  have hfirst : bytes[position]? = some first := hget 0
  have hinside : position < bytes.length := (List.getElem?_eq_some_iff.mp hfirst).1
  have hadd : ∀ count ≤ 3,
      (Word.add position count : Checked Defect Nat) = .ok (position + count) :=
    fun count hcount => Word.add_eq (by omega)
  rw [unitAt, byteAt_eq hfirst]
  simp only [ok_bind, isOne_iff, isTwo_iff, isThree_iff, hadd 1 (by decide), hadd 2 (by decide),
    hadd 3 (by decide), hget, unitOfTwo_eq, unitOfThree_eq, List.getElem?_cons_succ]
  rfl

theorem finds_unitAt (hsmall : bytes.length < 2 ^ 63) (hinside : position < bytes.length) :
    Finds bytes position (unitAt bytes position) := by
  obtain ⟨first, rest, hdrop⟩ : ∃ first rest, bytes.drop position = first :: rest :=
    ⟨_, _, List.drop_eq_getElem_cons hinside⟩
  have hbehind := drop_of_drop hdrop
  rw [unitAt_of_drop hsmall hdrop]
  by_cases hone : first.toNat < 0x80
  · rw [if_pos hone]
    refine .unit (by omega) (fun units => ?_)
    rw [hdrop, collectUnits_one hone, hbehind]
    rfl
  by_cases htwo : 0xC0 ≤ first.toNat ∧ first.toNat < 0xE0
  · rw [if_neg hone, if_pos htwo]
    cases rest with
    | nil =>
        refine .flawed (fun units => ?_)
        simp [hdrop, collectUnits, hone, htwo]
    | cons second rest =>
        refine .unit (by omega) (fun units => ?_)
        rw [hdrop, collectUnits_two htwo.1 htwo.2, hbehind]
        rfl
  by_cases hthree : 0xE0 ≤ first.toNat ∧ first.toNat < 0xF0
  · rw [if_neg hone, if_neg htwo, if_pos hthree]
    cases rest with
    | nil =>
        refine .flawed (fun units => ?_)
        simp [hdrop, collectUnits, hone, htwo, hthree]
    | cons second rest =>
        cases rest with
        | nil =>
            refine .flawed (fun units => ?_)
            simp [hdrop, collectUnits, hone, htwo, hthree]
        | cons third rest =>
            refine .unit (by omega) (fun units => ?_)
            rw [hdrop, collectUnits_three hthree.1 hthree.2, hbehind]
            rfl
  · rw [if_neg hone, if_neg htwo, if_neg hthree]
    refine .flawed (fun units => ?_)
    unfold collectUnits
    simp [hdrop, hone, htwo, hthree]

/-- The loop over the positions reads the units one by one, by induction on the
count of bytes that are left. -/
theorem unitsFrom_eq (hsmall : bytes.length < 2 ^ 63) (units : List UInt16) :
    unitsFrom bytes position units =
      total ((collectUnits position (bytes.drop position) units.reverse).map List.reverse) := by
  fun_induction unitsFrom bytes position units with
  | case1 position units hinside ih =>
      have hfinds := finds_unitAt hsmall hinside
      generalize unitAt bytes position = found at hfinds ⊢
      cases hfinds with
      | @unit unit next hnext hread =>
          rw [ok_bind]
          simp only
          rw [if_pos (by omega), ih unit next (by omega), hread, List.reverse_append]
          rfl
      | flawed hread =>
          rw [hread]
          rfl
  | case2 position units hend =>
      rw [List.drop_of_length_le (by omega)]
      simp [collectUnits, Except.map, pure, Except.pure]

/-- Texts are read without traps. -/
theorem decode_eq (hsmall : bytes.length < 2 ^ 62) :
    decode bytes = total (JvmCalls.ModifiedUtf8.decode bytes) := by
  rw [decode, JvmCalls.ModifiedUtf8.decode]
  split
  · rfl
  · rw [Word.reserve_eq (by omega), ok_bind, unitsFrom_eq (by omega), List.drop_zero,
      List.reverse_nil, decodeUnits]
    cases (collectUnits 0 bytes []).map List.reverse with
    | ok units => rfl
    | error defect => rfl

/-- A machine may lack the memory for the units of a huge text, and for nothing else. -/
theorem decode_of_huge (hhuge : 2 ^ 62 ≤ bytes.length) :
    decode bytes = total (JvmCalls.ModifiedUtf8.decode bytes) ∨ decode bytes = trap .capacity := by
  rw [decode, JvmCalls.ModifiedUtf8.decode]
  split
  · exact .inl rfl
  · have hreserve : (Word.reserve bytes.length 2 : Checked Defect Unit) = trap .capacity :=
      if_neg (by omega)
    rw [hreserve]
    exact .inr rfl

end Loop

end JvmCalls.Trapping.ModifiedUtf8

import JvmCalls.Text.ModifiedUtf8

/-!
# Texts and their bytes

A text is read back from its bytes: its characters from their UTF-16 units, and
each unit from the one, two or three bytes it is written in.  So it has no more
characters than bytes.
-/

namespace JvmCalls

namespace Utf16

/-- A unit that is no surrogate is a character of its own. -/
theorem collect_of_not_surrogate {unit : UInt16}
    (hunit : unit.toNat < 0xD800 ∨ 0xDFFF < unit.toNat) (rest : List UInt16) (text : List Char) :
    collect (unit :: rest) text = collect rest (Char.ofNat unit.toNat :: text) := by
  have hhigh : isHigh unit = false := by
    simp only [isHigh, Bool.and_eq_false_iff, decide_eq_false_iff_not]
    omega
  have hlow : isLow unit = false := by
    simp only [isLow, Bool.and_eq_false_iff, decide_eq_false_iff_not]
    omega
  cases rest with
  | nil => simp [collect, hhigh, hlow]
  | cons next rest => simp [collect, hhigh, hlow]

theorem collect_of_pair {high low : UInt16} (hhigh : isHigh high = true)
    (hlow : isLow low = true) (rest : List UInt16) (text : List Char) :
    collect (high :: low :: rest) text = collect rest (pair high low :: text) := by
  simp [collect, hhigh, hlow]

theorem collect_unitsOfChar (character : Char) (rest : List UInt16) (text : List Char) :
    collect (unitsOfChar character ++ rest) text = collect rest (character :: text) := by
  have hvalid : character.toNat < 0xD800 ∨ 0xDFFF < character.toNat ∧ character.toNat < 0x110000 :=
    character.valid
  by_cases hsmall : character.toNat < 0x10000
  · have hunit : (UInt16.ofNat character.toNat).toNat = character.toNat :=
      UInt16.toNat_ofNat_of_lt' hsmall
    rw [unitsOfChar, if_pos hsmall, List.singleton_append,
      collect_of_not_surrogate (by omega), hunit, Char.ofNat_toNat]
  · have hfirst : (UInt16.ofNat (0xD800 + (character.toNat - 0x10000) / 0x400)).toNat =
        0xD800 + (character.toNat - 0x10000) / 0x400 :=
      UInt16.toNat_ofNat_of_lt' (by change _ < 65536; omega)
    have hsecond : (UInt16.ofNat (0xDC00 + (character.toNat - 0x10000) % 0x400)).toNat =
        0xDC00 + (character.toNat - 0x10000) % 0x400 :=
      UInt16.toNat_ofNat_of_lt' (by change _ < 65536; omega)
    have hhigh : isHigh (UInt16.ofNat (0xD800 + (character.toNat - 0x10000) / 0x400)) = true := by
      simp only [isHigh, hfirst, Bool.and_eq_true, decide_eq_true_eq]
      omega
    have hlow : isLow (UInt16.ofNat (0xDC00 + (character.toNat - 0x10000) % 0x400)) = true := by
      simp only [isLow, hsecond, Bool.and_eq_true, decide_eq_true_eq]
      omega
    have hnumber : 0x10000 + (0xD800 + (character.toNat - 0x10000) / 0x400 - 0xD800) * 0x400 +
        (0xDC00 + (character.toNat - 0x10000) % 0x400 - 0xDC00) = character.toNat := by
      omega
    rw [unitsOfChar, if_neg hsmall, List.cons_append, List.singleton_append,
      collect_of_pair hhigh hlow, pair, hfirst, hsecond, hnumber, Char.ofNat_toNat]

theorem collect_units (characters : List Char) (text : List Char) :
    collect (units characters) text = characters.reverse ++ text := by
  induction characters generalizing text with
  | nil => rfl
  | cons character characters ih =>
      have hsplit : units (character :: characters) = unitsOfChar character ++ units characters :=
        List.flatMap_cons
      rw [hsplit, collect_unitsOfChar, ih, List.reverse_cons, List.append_assoc]
      rfl

/-- The characters of a text are read back from its units. -/
theorem characters_units (text : List Char) : characters (units text) = text := by
  rw [characters, collect_units, List.append_nil, List.reverse_reverse]

theorem length_collect_le (units : List UInt16) (text : List Char) :
    (collect units text).length ≤ units.length + text.length := by
  fun_induction collect units text with
  | case1 text => exact Nat.le_add_left _ _
  | case2 unit text => simp [Nat.add_comm]
  | case3 unit next rest text hpair ih =>
      simp only [List.length_cons] at ih ⊢
      omega
  | case4 unit next rest text hpair hsurrogate ih =>
      simp only [List.length_cons] at ih ⊢
      omega
  | case5 unit next rest text hpair hplain ih =>
      simp only [List.length_cons] at ih ⊢
      omega

end Utf16

namespace ModifiedUtf8

section Steps

variable {first second third : UInt8}

theorem collectUnits_one (hfirst : first.toNat < 0x80) (index : Nat) (rest : Bytes)
    (units : List UInt16) :
    collectUnits index (first :: rest) units =
      collectUnits (index + 1) rest (first.toUInt16 :: units) := by
  rw [collectUnits.eq_def]
  simp only [hfirst, if_true]

theorem collectUnits_two (hlow : 0xC0 ≤ first.toNat) (hhigh : first.toNat < 0xE0) (index : Nat)
    (rest : Bytes) (units : List UInt16) :
    collectUnits index (first :: second :: rest) units =
      collectUnits (index + 2) rest (unitOfTwo first second :: units) := by
  have hone : ¬ first.toNat < 0x80 := by omega
  rw [collectUnits.eq_def]
  simp only [hone, hlow, hhigh, if_false, decide_true, Bool.and_self, if_true]

theorem collectUnits_three (hlow : 0xE0 ≤ first.toNat) (hhigh : first.toNat < 0xF0) (index : Nat)
    (rest : Bytes) (units : List UInt16) :
    collectUnits index (first :: second :: third :: rest) units =
      collectUnits (index + 3) rest (unitOfThree first second third :: units) := by
  have hone : ¬ first.toNat < 0x80 := by omega
  have htwo : ¬ first.toNat < 0xE0 := by omega
  rw [collectUnits.eq_def]
  simp only [hone, htwo, hlow, hhigh, if_false, decide_true, decide_false, Bool.and_false,
    Bool.and_self, Bool.false_eq_true, if_true]

end Steps

/-- A unit is read back from its bytes, whatever stands behind them. -/
theorem collectUnits_encodeUnit (index : Nat) (unit : UInt16) (rest : Bytes)
    (units : List UInt16) :
    collectUnits index (encodeUnit unit ++ rest) units =
      collectUnits (index + (encodeUnit unit).length) rest (unit :: units) := by
  have hunit : unit.toNat < 65536 := unit.toNat_lt
  have hbyte : ∀ number < 256, (UInt8.ofNat number).toNat = number := fun number hnumber =>
    UInt8.toNat_ofNat_of_lt' hnumber
  have hnumber : ∀ number, number = unit.toNat → UInt16.ofNat number = unit := by
    rintro number rfl
    exact UInt16.ofNat_toNat
  rw [encodeUnit]
  by_cases hone : 0 < unit.toNat ∧ unit.toNat < 0x80
  · have hfirst := hbyte unit.toNat (by omega)
    have hsame : (UInt8.ofNat unit.toNat).toUInt16 = unit := by
      apply UInt16.toNat_inj.mp
      rw [UInt8.toNat_toUInt16, hfirst]
    simp only [hone, decide_true, Bool.and_self, if_true]
    rw [List.singleton_append, collectUnits_one (by omega), hsame]
    rfl
  · have hmore : (decide (0 < unit.toNat) && decide (unit.toNat < 0x80)) = false := by
      simp only [Bool.and_eq_false_iff, decide_eq_false_iff_not]
      omega
    by_cases htwo : unit.toNat < 0x800
    · have hfirst := hbyte (0xC0 + unit.toNat / 0x40) (by omega)
      have hsecond := hbyte (0x80 + unit.toNat % 0x40) (by omega)
      have hsame : unitOfTwo (UInt8.ofNat (0xC0 + unit.toNat / 0x40))
          (UInt8.ofNat (0x80 + unit.toNat % 0x40)) = unit := by
        rw [unitOfTwo, hfirst, hsecond]
        exact hnumber _ (by omega)
      simp only [hmore, htwo, Bool.false_eq_true, if_false, if_true]
      rw [List.cons_append, List.singleton_append,
        collectUnits_two (by omega) (by omega), hsame]
      rfl
    · have hfirst := hbyte (0xE0 + unit.toNat / 0x1000) (by omega)
      have hsecond := hbyte (0x80 + unit.toNat / 0x40 % 0x40) (by omega)
      have hthird := hbyte (0x80 + unit.toNat % 0x40) (by omega)
      have hsame : unitOfThree (UInt8.ofNat (0xE0 + unit.toNat / 0x1000))
          (UInt8.ofNat (0x80 + unit.toNat / 0x40 % 0x40))
          (UInt8.ofNat (0x80 + unit.toNat % 0x40)) = unit := by
        rw [unitOfThree, hfirst, hsecond, hthird]
        exact hnumber _ (by omega)
      simp only [hmore, htwo, Bool.false_eq_true, if_false]
      rw [List.cons_append, List.cons_append, List.singleton_append,
        collectUnits_three (by omega) (by omega), hsame]
      rfl

theorem decodeUnits_encodeUnits (units : List UInt16) :
    decodeUnits (encodeUnits units) = .ok units := by
  suffices hcollect : ∀ index before, collectUnits index (encodeUnits units) before =
      .ok (units.reverse ++ before) by
    rw [decodeUnits, hcollect, List.append_nil]
    simp [Except.map]
  induction units with
  | nil => exact fun index before => rfl
  | cons unit units ih =>
      intro index before
      have hsplit : encodeUnits (unit :: units) = encodeUnit unit ++ encodeUnits units :=
        List.flatMap_cons
      rw [hsplit, collectUnits_encodeUnit, ih, List.reverse_cons, List.append_assoc]
      rfl

theorem collectUnits_of_plain {bytes : Bytes} (hplain : ∀ byte ∈ bytes, byte.toNat < 0x80)
    (index : Nat) (units : List UInt16) :
    collectUnits index bytes units = .ok ((bytes.map UInt8.toUInt16).reverse ++ units) := by
  induction bytes generalizing index units with
  | nil => rfl
  | cons byte bytes ih =>
      rw [List.forall_mem_cons] at hplain
      rw [collectUnits_one hplain.1, ih hplain.2, List.map_cons, List.reverse_cons,
        List.append_assoc]
      rfl

theorem collect_of_plain {bytes : Bytes} (hplain : ∀ byte ∈ bytes, byte.toNat < 0x80)
    (text : List Char) :
    Utf16.collect (bytes.map UInt8.toUInt16) text =
      (bytes.map (fun byte => Char.ofNat byte.toNat)).reverse ++ text := by
  induction bytes generalizing text with
  | nil => rfl
  | cons byte bytes ih =>
      rw [List.forall_mem_cons] at hplain
      have hunit : byte.toUInt16.toNat = byte.toNat := UInt8.toNat_toUInt16 byte
      rw [List.map_cons, Utf16.collect_of_not_surrogate (by omega), ih hplain.2, hunit,
        List.map_cons, List.reverse_cons, List.append_assoc]
      rfl

/-- Plain bytes are their characters also by way of units. -/
theorem decode_eq_decodeUnits (bytes : Bytes) :
    decode bytes =
      (decodeUnits bytes).map (fun units => String.ofList (Utf16.characters units)) := by
  rw [decode]
  split
  · next hall =>
      have hplain : ∀ byte ∈ bytes, byte.toNat < 0x80 := by
        intro byte hmem
        have hbyte := List.all_eq_true.mp hall byte hmem
        simp only [isPlain, Bool.and_eq_true, decide_eq_true_eq] at hbyte
        exact hbyte.2
      rw [decodeUnits, collectUnits_of_plain hplain, List.append_nil]
      simp only [Except.map, List.reverse_reverse, Utf16.characters, collect_of_plain hplain,
        List.append_nil]
  · rfl

/-- A text is read back from its bytes. -/
theorem decode_encode (text : String) : decode (encode text) = .ok text := by
  rw [decode_eq_decodeUnits, encode, decodeUnits_encodeUnits]
  simp only [Except.map, Utf16.characters_units, String.ofList_toList]

theorem length_collectUnits_le {index : Nat} {bytes : Bytes} {units found : List UInt16}
    (hread : collectUnits index bytes units = .ok found) :
    found.length ≤ bytes.length + units.length := by
  fun_induction collectUnits index bytes units with
  | case1 index units =>
      cases hread
      exact Nat.le_add_left _ _
  | case2 index units first rest hone ih =>
      have hfound := ih hread
      simp only [List.length_cons] at hfound ⊢
      omega
  | case3 index units first second rest hone htwo ih =>
      have hfound := ih hread
      simp only [List.length_cons] at hfound ⊢
      omega
  | case5 index units first second third rest hone htwo hthree ih =>
      have hfound := ih hread
      simp only [List.length_cons] at hfound ⊢
      omega
  | case4 | case6 | case7 => cases hread

/-- A text has no more characters than bytes. -/
theorem length_le_of_decode {bytes : Bytes} {text : String} (hread : decode bytes = .ok text) :
    text.length ≤ bytes.length := by
  rw [decode_eq_decodeUnits, decodeUnits] at hread
  cases hunits : collectUnits 0 bytes [] with
  | error defect => simp [hunits, Except.map] at hread
  | ok units =>
      rw [hunits] at hread
      cases hread
      calc (String.ofList (Utf16.characters units.reverse)).length
          = (Utf16.collect units.reverse []).length := by
            rw [String.length_ofList, Utf16.characters, List.length_reverse]
        _ ≤ units.length := by
            have hcharacters := Utf16.length_collect_le units.reverse []
            rwa [List.length_reverse, List.length_nil, Nat.add_zero] at hcharacters
        _ ≤ bytes.length := length_collectUnits_le hunits

end ModifiedUtf8

end JvmCalls

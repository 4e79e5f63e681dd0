import JvmCalls.Proofs.Constant.RoundTrip

/-!
# Texts of units

`Utf16.Represents` says which characters a sequence of units stands for: a high
surrogate and a low one behind it are one character, every other surrogate is
the replacement character.  Every sequence stands for exactly one text, and
that text is read from the bytes of the units, whatever stands around them.
-/

namespace JvmCalls

namespace Utf16

/-- A sequence of units stands for these characters. -/
inductive Represents : (units : List UInt16) → (text : List Char) → Prop
  | nil : Represents [] []
  | plain {unit : UInt16} {character : Char} {units : List UInt16} {text : List Char}
      (hhigh : isHigh unit = false) (hlow : isLow unit = false)
      (hcharacter : character.toNat = unit.toNat) (hrest : Represents units text) :
      Represents (unit :: units) (character :: text)
  | pair {high low : UInt16} {character : Char} {units : List UInt16} {text : List Char}
      (hhigh : isHigh high = true) (hlow : isLow low = true)
      (hcharacter : character.toNat =
        0x10000 + (high.toNat - 0xD800) * 0x400 + (low.toNat - 0xDC00))
      (hrest : Represents units text) :
      Represents (high :: low :: units) (character :: text)
  | loneHigh {unit : UInt16} {units : List UInt16} {text : List Char}
      (hhigh : isHigh unit = true) (hlone : ∀ next ∈ units.head?, isLow next = false)
      (hrest : Represents units text) :
      Represents (unit :: units) (replacement :: text)
  | loneLow {unit : UInt16} {units : List UInt16} {text : List Char}
      (hlow : isLow unit = true) (hrest : Represents units text) :
      Represents (unit :: units) (replacement :: text)

theorem isHigh_iff {unit : UInt16} :
    isHigh unit = true ↔ 0xD800 ≤ unit.toNat ∧ unit.toNat < 0xDC00 := by
  simp [isHigh]

theorem isLow_iff {unit : UInt16} :
    isLow unit = true ↔ 0xDC00 ≤ unit.toNat ∧ unit.toNat < 0xE000 := by
  simp [isLow]

theorem isLow_of_isHigh {unit : UInt16} (hhigh : isHigh unit = true) : isLow unit = false := by
  rw [isHigh_iff] at hhigh
  rw [Bool.eq_false_iff, Ne, isLow_iff]
  omega

theorem toNat_ofNat {number : Nat} (hvalid : number.isValidChar) :
    (Char.ofNat number).toNat = number := by
  rw [Char.ofNat, dif_pos hvalid]
  rfl

theorem plain_of_not_surrogate {unit : UInt16} (hhigh : isHigh unit = false)
    (hlow : isLow unit = false) : unit.toNat < 0xD800 ∨ 0xDFFF < unit.toNat := by
  rw [Bool.eq_false_iff, Ne, isHigh_iff] at hhigh
  rw [Bool.eq_false_iff, Ne, isLow_iff] at hlow
  omega

theorem exists_plain {unit : UInt16} (hhigh : isHigh unit = false) (hlow : isLow unit = false) :
    ∃ character : Char, character.toNat = unit.toNat := by
  have hunit : unit.toNat < 65536 := unit.toNat_lt
  have hplain := plain_of_not_surrogate hhigh hlow
  exact ⟨Char.ofNat unit.toNat, toNat_ofNat (by rw [Nat.isValidChar]; omega)⟩

theorem exists_pair {high low : UInt16} (hhigh : isHigh high = true) (hlow : isLow low = true) :
    ∃ character : Char, character.toNat =
      0x10000 + (high.toNat - 0xD800) * 0x400 + (low.toNat - 0xDC00) := by
  rw [isHigh_iff] at hhigh
  rw [isLow_iff] at hlow
  exact ⟨pair high low, toNat_ofNat (by rw [Nat.isValidChar]; omega)⟩

/-- A unit that is no half of a pair with the one behind it stands for a
character of its own. -/
theorem exists_represents_cons (unit : UInt16) {units : List UInt16} {text : List Char}
    (hlone : isHigh unit = true → ∀ next ∈ units.head?, isLow next = false)
    (hrest : Represents units text) :
    ∃ character, Represents (unit :: units) (character :: text) := by
  cases hhigh : isHigh unit with
  | true => exact ⟨replacement, .loneHigh hhigh (hlone hhigh) hrest⟩
  | false =>
      cases hlow : isLow unit with
      | true => exact ⟨replacement, .loneLow hlow hrest⟩
      | false =>
          obtain ⟨character, hcharacter⟩ := exists_plain hhigh hlow
          exact ⟨character, .plain hhigh hlow hcharacter hrest⟩

/-- Every sequence of units stands for a text. -/
theorem exists_represents (units : List UInt16) : ∃ text, Represents units text := by
  suffices hevery : ∀ before : List Char, ∃ text, Represents units text from hevery []
  intro before
  fun_induction collect units before with
  | case1 => exact ⟨[], .nil⟩
  | case2 unit before =>
      obtain ⟨character, hunit⟩ := exists_represents_cons unit (by simp) .nil
      exact ⟨_, hunit⟩
  | case3 high low units before hboth ih =>
      obtain ⟨text, hrest⟩ := ih
      rw [Bool.and_eq_true] at hboth
      obtain ⟨character, hcharacter⟩ := exists_pair hboth.1 hboth.2
      exact ⟨_, .pair hboth.1 hboth.2 hcharacter hrest⟩
  | case4 unit next units before hapart hsurrogate ih =>
      obtain ⟨text, hrest⟩ := ih
      obtain ⟨character, hunit⟩ := exists_represents_cons unit (by simpa using hapart) hrest
      exact ⟨_, hunit⟩
  | case5 unit next units before hapart hplain ih =>
      obtain ⟨text, hrest⟩ := ih
      obtain ⟨character, hunit⟩ := exists_represents_cons unit (by simpa using hapart) hrest
      exact ⟨_, hunit⟩

theorem collect_of_lone {unit : UInt16} {units : List UInt16}
    (hsurrogate : isHigh unit = true ∨ isLow unit = true)
    (hlone : isHigh unit = true → ∀ next ∈ units.head?, isLow next = false) (text : List Char) :
    collect (unit :: units) text = collect units (replacement :: text) := by
  have heither : (isHigh unit || isLow unit) = true := by rwa [Bool.or_eq_true]
  cases units with
  | nil => simp [collect, heither]
  | cons next units =>
      have hapart : (isHigh unit && isLow next) = false := by
        cases hhigh : isHigh unit with
        | false => rfl
        | true => simpa using hlone hhigh
      rw [collect, hapart, heither]
      rfl

theorem collect_of_represents {units : List UInt16} {text : List Char}
    (hrepresents : Represents units text) (before : List Char) :
    collect units before = text.reverse ++ before := by
  induction hrepresents generalizing before with
  | nil => rfl
  | plain hhigh hlow hcharacter _ ih =>
      rw [collect_of_not_surrogate (plain_of_not_surrogate hhigh hlow), ← hcharacter,
        Char.ofNat_toNat, ih, List.reverse_cons, List.append_assoc]
      rfl
  | pair hhigh hlow hcharacter _ ih =>
      rw [collect_of_pair hhigh hlow, pair, ← hcharacter, Char.ofNat_toNat, ih, List.reverse_cons,
        List.append_assoc]
      rfl
  | loneHigh hhigh hlone _ ih =>
      rw [collect_of_lone (.inl hhigh) (fun _ => hlone), ih, List.reverse_cons, List.append_assoc]
      rfl
  | @loneLow unit units text hlow _ ih =>
      have hlone : isHigh unit = true → ∀ next ∈ units.head?, isLow next = false := by
        intro hhigh
        rw [isLow_of_isHigh hhigh] at hlow
        cases hlow
      rw [collect_of_lone (.inr hlow) hlone, ih, List.reverse_cons, List.append_assoc]
      rfl

/-- Units stand for their characters, and for no other text. -/
theorem represents_iff {units : List UInt16} {text : List Char} :
    Represents units text ↔ text = characters units := by
  have honly : ∀ {text}, Represents units text → text = characters units := by
    intro text hrepresents
    rw [characters, collect_of_represents hrepresents, List.append_nil, List.reverse_reverse]
  constructor
  · exact honly
  · rintro rfl
    obtain ⟨text, hrepresents⟩ := exists_represents units
    rw [← honly hrepresents]
    exact hrepresents

end Utf16

namespace ModifiedUtf8

open BigEndian Decoder

theorem accepts_units (units : List UInt16) :
    Accepts (text (encodeUnits units).length) (encodeUnits units)
      (String.ofList (Utf16.characters units)) := by
  apply accepts_last (accepts_bytes rfl)
  apply accepts_ofExcept
  rw [decode_eq_decodeUnits, decodeUnits_encodeUnits]
  rfl

/-- A text is read back from its length and its bytes. -/
theorem accepts_measured {content : String} (hlength : (encode content).length < 0x10000) :
    Accepts (uint16 >>= fun length => text length.toNat)
      (digits 2 (encode content).length ++ encode content) content := by
  obtain ⟨length, hsame, hread⟩ := exists_accepts_uint16 hlength
  exact accepts_bind hread (Constant.accepts_text hsame.symm)

/-- No byte of a unit is zero, and none has the four highest bits set. -/
theorem bounds_of_mem_encodeUnit {unit : UInt16} {byte : UInt8} (hmem : byte ∈ encodeUnit unit) :
    0 < byte.toNat ∧ byte.toNat ≤ 0xEF := by
  have hunit : unit.toNat < 65536 := unit.toNat_lt
  have hbyte : ∀ number < 256, (UInt8.ofNat number).toNat = number := fun number hnumber =>
    UInt8.toNat_ofNat_of_lt' hnumber
  rw [encodeUnit] at hmem
  split at hmem
  · next hone =>
      simp only [Bool.and_eq_true, decide_eq_true_eq] at hone
      rw [List.mem_singleton] at hmem
      rw [hmem, hbyte _ (by omega)]
      omega
  · split at hmem
    · rcases List.mem_pair.mp hmem with rfl | rfl
      · rw [hbyte _ (by omega)]
        omega
      · rw [hbyte _ (by omega)]
        omega
    · simp only [List.mem_cons, List.not_mem_nil, or_false] at hmem
      rcases hmem with rfl | rfl | rfl
      · rw [hbyte _ (by omega)]
        omega
      · rw [hbyte _ (by omega)]
        omega
      · rw [hbyte _ (by omega)]
        omega

/-- Decoding inverts the encoding.  From the bytes of any units, wherever they
stand and whatever stands behind them, the one text is read that the units
stand for, and nothing but these bytes is consumed.  A text of at most 65535
bytes is read back from its length and its bytes.  No byte of encoded units is
zero or above 0xEF.  On bytes that are all characters of their own the short
way and the way through units give the same text. -/
theorem text_encodeUnits :
    (∀ units cursor next, cursor.Spans (encodeUnits units) next →
      ∃ characters, (∀ other, Utf16.Represents units other ↔ other = characters) ∧
        text (encodeUnits units).length cursor = .ok (String.ofList characters) next) ∧
    (∀ content cursor next, (encode content).length ≤ 65535 →
      cursor.Spans (digits 2 (encode content).length ++ encode content) next →
      (uint16 >>= fun length => text length.toNat) cursor = .ok content next) ∧
    (∀ units, ∀ byte ∈ encodeUnits units, byte ≠ 0x00 ∧ byte ≤ 0xEF) ∧
    ∀ bytes : Bytes, (∀ byte ∈ bytes, 0x01 ≤ byte ∧ byte ≤ 0x7F) →
      decode bytes = .ok (String.ofList (bytes.map fun byte => Char.ofNat byte.toNat)) ∧
      (decodeUnits bytes).map (fun units => String.ofList (Utf16.characters units)) =
        .ok (String.ofList (bytes.map fun byte => Char.ofNat byte.toNat)) := by
  refine ⟨?_, ?_, ?_, ?_⟩
  · intro units cursor next hspans
    exact ⟨_, fun _ => Utf16.represents_iff, accepts_units units hspans⟩
  · intro content cursor next hlength hspans
    exact accepts_measured (by omega) hspans
  · intro units byte hmem
    obtain ⟨unit, _, hunit⟩ := List.mem_flatMap.mp hmem
    obtain ⟨hlow, hhigh⟩ := bounds_of_mem_encodeUnit hunit
    refine ⟨?_, UInt8.le_iff_toNat_le.mpr hhigh⟩
    rintro rfl
    exact absurd hlow (by decide)
  · intro bytes hplain
    have hall : bytes.all isPlain = true := by
      rw [List.all_eq_true]
      intro byte hmem
      obtain ⟨hlow, hhigh⟩ := hplain byte hmem
      rw [UInt8.le_iff_toNat_le] at hlow hhigh
      simp only [isPlain, Bool.and_eq_true, decide_eq_true_eq]
      exact ⟨hlow, Nat.lt_succ_of_le hhigh⟩
    have hshort : decode bytes =
        .ok (String.ofList (bytes.map fun byte => Char.ofNat byte.toNat)) := by
      rw [decode, if_pos hall]
    exact ⟨hshort, (decode_eq_decodeUnits bytes).symm.trans hshort⟩

theorem text_encodeUnits_surrogates :
    let units : List UInt16 := [0xD83D, 0xDE00, 0xD800, 0x0000, 0x00E9]
    (∃ next, text 13 (.start (encodeUnits units ++ [7])) =
        .ok (String.ofList ['😀', '\uFFFD', '\x00', 'é']) next ∧ next.rest = [7]) ∧
      (∃ next, (uint16 >>= fun length => text length.toNat)
          (.start (digits 2 8 ++ encode "a😀b" ++ [7])) = .ok "a😀b" next ∧ next.rest = [7]) ∧
      decode [0x61, 0x7F] = .ok (String.ofList ['a', '\x7F']) := by
  intro units
  obtain ⟨hunits, hmeasured, _, hplain⟩ := text_encodeUnits
  have hbytes : ∀ byte ∈ ([0x61, 0x7F] : Bytes), 0x01 ≤ byte ∧ byte ≤ 0x7F := by
    intro byte hmem
    rcases List.mem_pair.mp hmem with rfl | rfl
    · decide
    · decide
  refine ⟨?_, ?_, (hplain _ hbytes).1⟩
  · have hstart : (Cursor.start (encodeUnits units ++ [7])).rest = encodeUnits units ++ [7] := rfl
    obtain ⟨next, hspans, hrest⟩ := Cursor.exists_spans _ hstart
    obtain ⟨characters, honly, hread⟩ := hunits units _ next hspans
    have hlone : ∀ next ∈ [0x0000, 0x00E9].head?, Utf16.isLow next = false := by
      rintro next hnext
      cases hnext
      rfl
    have hrepresents : Utf16.Represents units ['😀', '\uFFFD', '\x00', 'é'] :=
      .pair rfl rfl rfl (.loneHigh rfl hlone (.plain rfl rfl rfl (.plain rfl rfl rfl .nil)))
    rw [← (honly _).mp hrepresents] at hread
    exact ⟨next, hread, hrest⟩
  · have hlength : (encode "a😀b").length = 8 := by decide +kernel
    rw [← hlength]
    have hstart : (Cursor.start (digits 2 (encode "a😀b").length ++ encode "a😀b" ++ [7])).rest =
        digits 2 (encode "a😀b").length ++ encode "a😀b" ++ [7] := rfl
    obtain ⟨next, hspans, hrest⟩ := Cursor.exists_spans _ hstart
    exact ⟨next, hmeasured _ _ next (by rw [hlength]; decide) hspans, hrest⟩

end ModifiedUtf8

end JvmCalls

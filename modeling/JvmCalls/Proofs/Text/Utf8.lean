import JvmCalls.Text.Utf8

/-!
# Texts and their UTF-8 bytes

A text is read back from its UTF-8 bytes.  Each character takes one to four
bytes, of which the first one tells how many follow, so a reader finds the end
of a character without a look at what stands behind it.
-/

namespace JvmCalls.Utf8

theorem toNat_ofNat_byte {number : Nat} (hfits : number < 256) :
    (UInt8.ofNat number).toNat = number :=
  UInt8.toNat_ofNat_of_lt' hfits

theorem isContinuation_iff {byte : UInt8} :
    isContinuation byte = true ↔ 0x80 ≤ byte.toNat ∧ byte.toNat < 0xC0 := by
  simp [isContinuation]

/-- Bytes that continue a character are taken as far as the character is
long. -/
theorem continuation_append {first second : UInt8} {others rest : Bytes}
    (hsecond : mayFollow first second = true)
    (hothers : ∀ byte ∈ others, isContinuation byte = true) :
    continuation first (others.length + 1) (second :: others ++ rest) = second :: others := by
  have htake : (second :: others ++ rest).take (others.length + 1) = second :: others := by
    rw [List.cons_append, List.take_succ_cons, List.take_left]
  have hwhole : others.takeWhile isContinuation = others := by
    have happend : (others ++ []).takeWhile isContinuation =
        others ++ [].takeWhile isContinuation :=
      List.takeWhile_append_of_pos hothers
    simpa using happend
  rw [continuation, htake]
  simp only [hsecond, if_true, hwhole]

/-- A complete character is read, whatever stands behind it. -/
theorem collect_of_complete {first : UInt8} (others rest : Bytes) (text : List Char)
    (hlength : length? first = some (others.length + 1))
    (hothers : continuation first others.length (others ++ rest) = others) :
    collect (first :: (others ++ rest)) text = collect rest (character first others :: text) := by
  rw [collect]
  simp only [hlength, Nat.add_sub_cancel, hothers, if_true, List.drop_left]

section Sizes

variable {code : Nat} (rest : Bytes) (text : List Char)

theorem collect_one (hcode : code ≤ 0x7F) :
    collect (UInt8.ofNat code :: rest) text = collect rest (Char.ofNat code :: text) := by
  have hfirst := toNat_ofNat_byte (show code < 256 by omega)
  have hlength : length? (UInt8.ofNat code) = some 1 := by
    rw [length?, hfirst, if_pos (by omega)]
  have hread := collect_of_complete [] rest text hlength rfl
  rw [character, hfirst] at hread
  exact hread

theorem collect_two (hlow : 0x7F < code) (hhigh : code ≤ 0x7FF) :
    collect (UInt8.ofNat (code / 64 % 0x20 + 0xC0) :: UInt8.ofNat (code % 0x40 + 0x80) :: rest)
      text = collect rest (Char.ofNat code :: text) := by
  have hfirst := toNat_ofNat_byte (show code / 64 % 0x20 + 0xC0 < 256 by omega)
  have hsecond := toNat_ofNat_byte (show code % 0x40 + 0x80 < 256 by omega)
  generalize UInt8.ofNat (code / 64 % 0x20 + 0xC0) = first at hfirst ⊢
  generalize UInt8.ofNat (code % 0x40 + 0x80) = second at hsecond ⊢
  have hlength : length? first = some 2 := by
    simp only [length?, hfirst]
    grind
  have hfollow : mayFollow first second = true := by
    rw [mayFollow, Bool.and_eq_true, isContinuation_iff]
    refine ⟨by omega, ?_⟩
    split <;> first | rfl | (exfalso; omega)
  have hread := collect_of_complete [second] rest text hlength
    (continuation_append hfollow (by simp))
  have hcharacter : character first [second] = Char.ofNat code := by
    simp only [character, List.length_singleton, List.foldl_cons, List.foldl_nil]
    congr 1
    omega
  rw [hcharacter] at hread
  exact hread

/-- The second byte keeps out the codes of surrogates, which are no
characters. -/
theorem collect_three (hlow : 0x7FF < code) (hhigh : code ≤ 0xFFFF)
    (hvalid : code < 0xD800 ∨ 0xDFFF < code) :
    collect (UInt8.ofNat (code / 4096 % 0x10 + 0xE0) :: UInt8.ofNat (code / 64 % 0x40 + 0x80) ::
      UInt8.ofNat (code % 0x40 + 0x80) :: rest) text =
      collect rest (Char.ofNat code :: text) := by
  have hfirst := toNat_ofNat_byte (show code / 4096 % 0x10 + 0xE0 < 256 by omega)
  have hsecond := toNat_ofNat_byte (show code / 64 % 0x40 + 0x80 < 256 by omega)
  have hthird := toNat_ofNat_byte (show code % 0x40 + 0x80 < 256 by omega)
  generalize UInt8.ofNat (code / 4096 % 0x10 + 0xE0) = first at hfirst ⊢
  generalize UInt8.ofNat (code / 64 % 0x40 + 0x80) = second at hsecond ⊢
  generalize UInt8.ofNat (code % 0x40 + 0x80) = third at hthird ⊢
  have hlength : length? first = some 3 := by
    simp only [length?, hfirst]
    grind
  have hfollow : mayFollow first second = true := by
    rw [mayFollow, Bool.and_eq_true, isContinuation_iff]
    refine ⟨by omega, ?_⟩
    split
    · exact decide_eq_true (by omega)
    · exact decide_eq_true (by omega)
    · omega
    · omega
    · rfl
  have hothers : ∀ byte ∈ [third], isContinuation byte = true := by
    simp only [List.forall_mem_singleton, isContinuation_iff]
    omega
  have hcharacter : character first [second, third] = Char.ofNat code := by
    simp only [character, List.length_cons, List.length_nil, List.foldl_cons, List.foldl_nil]
    congr 1
    omega
  have hread := collect_of_complete [second, third] rest text hlength
    (continuation_append hfollow hothers)
  rw [hcharacter] at hread
  exact hread

/-- The second byte keeps out codes behind the last character. -/
theorem collect_four (hlow : 0xFFFF < code) (hhigh : code ≤ 0x10FFFF) :
    collect (UInt8.ofNat (code / 262144 % 0x08 + 0xF0) ::
      UInt8.ofNat (code / 4096 % 0x40 + 0x80) :: UInt8.ofNat (code / 64 % 0x40 + 0x80) ::
      UInt8.ofNat (code % 0x40 + 0x80) :: rest) text =
      collect rest (Char.ofNat code :: text) := by
  have hfirst := toNat_ofNat_byte (show code / 262144 % 0x08 + 0xF0 < 256 by omega)
  have hsecond := toNat_ofNat_byte (show code / 4096 % 0x40 + 0x80 < 256 by omega)
  have hthird := toNat_ofNat_byte (show code / 64 % 0x40 + 0x80 < 256 by omega)
  have hfourth := toNat_ofNat_byte (show code % 0x40 + 0x80 < 256 by omega)
  generalize UInt8.ofNat (code / 262144 % 0x08 + 0xF0) = first at hfirst ⊢
  generalize UInt8.ofNat (code / 4096 % 0x40 + 0x80) = second at hsecond ⊢
  generalize UInt8.ofNat (code / 64 % 0x40 + 0x80) = third at hthird ⊢
  generalize UInt8.ofNat (code % 0x40 + 0x80) = fourth at hfourth ⊢
  have hlength : length? first = some 4 := by
    simp only [length?, hfirst]
    grind
  have hfollow : mayFollow first second = true := by
    rw [mayFollow, Bool.and_eq_true, isContinuation_iff]
    refine ⟨by omega, ?_⟩
    split
    · omega
    · omega
    · exact decide_eq_true (by omega)
    · exact decide_eq_true (by omega)
    · rfl
  have hothers : ∀ byte ∈ [third, fourth], isContinuation byte = true := by
    simp only [List.mem_cons, List.not_mem_nil, or_false, forall_eq_or_imp, forall_eq,
      isContinuation_iff]
    omega
  have hcharacter : character first [second, third, fourth] = Char.ofNat code := by
    simp only [character, List.length_cons, List.length_nil, List.foldl_cons, List.foldl_nil]
    congr 1
    omega
  have hread := collect_of_complete [second, third, fourth] rest text hlength
    (continuation_append hfollow hothers)
  rw [hcharacter] at hread
  exact hread

end Sizes

/-- A character is read back from its bytes, whatever stands behind them. -/
theorem collect_utf8EncodeChar (next : Char) (rest : Bytes) (text : List Char) :
    collect (String.utf8EncodeChar next ++ rest) text = collect rest (next :: text) := by
  have hvalid : next.toNat < 0xD800 ∨ 0xDFFF < next.toNat ∧ next.toNat < 0x110000 := next.valid
  have hcode : Char.ofNat next.toNat = next := Char.ofNat_toNat next
  rw [String.utf8EncodeChar]
  simp only [show next.val.toNat = next.toNat from rfl]
  split
  · next hone => rw [List.singleton_append, collect_one rest text hone, hcode]
  · split
    · next hone htwo =>
        have hread := collect_two rest text (Nat.lt_of_not_le hone) htwo
        rw [hcode] at hread
        exact hread
    · split
      · next htwo hthree =>
          have hread := collect_three rest text (Nat.lt_of_not_le htwo) hthree (by omega)
          rw [hcode] at hread
          exact hread
      · next hthree =>
          have hread := collect_four rest text (Nat.lt_of_not_le hthree) (by omega)
          rw [hcode] at hread
          exact hread

theorem collect_encode (characters text : List Char) :
    collect (characters.flatMap String.utf8EncodeChar) text = characters.reverse ++ text := by
  induction characters generalizing text with
  | nil => rw [List.flatMap_nil, collect, List.reverse_nil, List.nil_append]
  | cons next characters ih =>
      rw [List.flatMap_cons, collect_utf8EncodeChar, ih, List.reverse_cons, List.append_assoc]
      rfl

/-- A text is read back from its bytes. -/
theorem decode_encode (text : String) : decode (encode text) = text := by
  rw [decode, encode, collect_encode, List.append_nil, List.reverse_reverse, String.ofList_toList]

end JvmCalls.Utf8

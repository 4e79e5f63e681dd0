import JvmCalls.Proofs.Bytes.Spans
import JvmCalls.Proofs.Text.ModifiedUtf8
import JvmCalls.Proofs.Text.Utf8

/-!
# Which bytes are texts

A text is stored as a sequence of forms of one, two and three bytes, of which
the first byte tells the length.  Reading a text looks for nothing else: any
byte is taken as the second or third one of a form, also one that continues no
character.  It fails at the first byte that starts no form, and where a form is
cut off.
-/

namespace JvmCalls.ModifiedUtf8

open Decoder

/-- The bytes are forms of one, two and three bytes, one after another, whose
second and third bytes are of the given kind. -/
inductive Sequences (follows : UInt8 → Bool) : Bytes → Prop
  | nil : Sequences follows []
  /-- `0xxxxxxx` -/
  | one {first : UInt8} {rest : Bytes} (hfirst : first.toNat < 0x80)
      (hrest : Sequences follows rest) : Sequences follows (first :: rest)
  /-- `110xxxxx` and one more -/
  | two {first second : UInt8} {rest : Bytes} (hlow : 0xC0 ≤ first.toNat)
      (hhigh : first.toNat < 0xE0) (hsecond : follows second = true)
      (hrest : Sequences follows rest) : Sequences follows (first :: second :: rest)
  /-- `1110xxxx` and two more -/
  | three {first second third : UInt8} {rest : Bytes} (hlow : 0xE0 ≤ first.toNat)
      (hhigh : first.toNat < 0xF0) (hsecond : follows second = true) (hthird : follows third = true)
      (hrest : Sequences follows rest) : Sequences follows (first :: second :: third :: rest)

/-- Any byte may be the second or third one of a form. -/
def anyByte (_byte : UInt8) : Bool := true

/-- The bytes are forms, one of which takes in a byte that continues nothing. -/
inductive Absorbs : Bytes → Prop
  | second {before after : Bytes} {first second : UInt8} (hbefore : Sequences anyByte before)
      (hlow : 0xC0 ≤ first.toNat) (hhigh : first.toNat < 0xF0)
      (hsecond : Utf8.isContinuation second = false)
      (hbehind : Sequences anyByte (first :: second :: after)) :
      Absorbs (before ++ first :: second :: after)
  | third {before after : Bytes} {first second third : UInt8}
      (hbefore : Sequences anyByte before) (hlow : 0xE0 ≤ first.toNat)
      (hhigh : first.toNat < 0xF0) (hthird : Utf8.isContinuation third = false)
      (hbehind : Sequences anyByte (first :: second :: third :: after)) :
      Absorbs (before ++ first :: second :: third :: after)

/-- No form starts at the bytes, which stand at the index in their string: the
first one asks for more bytes than there are, or it starts no form. -/
inductive Breaks (index : Nat) : Bytes → Defect → Prop
  | truncatedTwo {first : UInt8} (hlow : 0xC0 ≤ first.toNat) (hhigh : first.toNat < 0xE0) :
      Breaks index [first] (.truncatedCharacter index)
  | truncatedThree {first : UInt8} {rest : Bytes} (hlow : 0xE0 ≤ first.toNat)
      (hhigh : first.toNat < 0xF0) (hshort : rest.length < 2) :
      Breaks index (first :: rest) (.truncatedCharacter index)
  | lead {first : UInt8} {rest : Bytes}
      (hfirst : 0x80 ≤ first.toNat ∧ first.toNat < 0xC0 ∨ 0xF0 ≤ first.toNat) :
      Breaks index (first :: rest) (.invalidLeadByte first index)

namespace Sequences

variable {follows other : UInt8 → Bool} {left right bytes : Bytes}

theorem imp (hsequences : Sequences follows bytes)
    (himp : ∀ byte, follows byte = true → other byte = true) : Sequences other bytes := by
  induction hsequences with
  | nil => exact .nil
  | one hfirst _ ih => exact .one hfirst ih
  | two hlow hhigh hsecond _ ih => exact .two hlow hhigh (himp _ hsecond) ih
  | three hlow hhigh hsecond hthird _ ih =>
      exact .three hlow hhigh (himp _ hsecond) (himp _ hthird) ih

theorem append (hleft : Sequences follows left) (hright : Sequences follows right) :
    Sequences follows (left ++ right) := by
  induction hleft with
  | nil => exact hright
  | one hfirst _ ih => exact .one hfirst ih
  | two hlow hhigh hsecond _ ih => exact .two hlow hhigh hsecond ih
  | three hlow hhigh hsecond hthird _ ih => exact .three hlow hhigh hsecond hthird ih

/-! The first byte tells the form it starts. -/

section Inversion

variable {first second third : UInt8} {rest : Bytes}

theorem behind_one (hfirst : first.toNat < 0x80) (hall : Sequences follows (first :: rest)) :
    Sequences follows rest := by
  cases hall with
  | one _ hrest => exact hrest
  | two => omega
  | three => omega

theorem behind_two (hlow : 0xC0 ≤ first.toNat) (hhigh : first.toNat < 0xE0)
    (hall : Sequences follows (first :: second :: rest)) : Sequences follows rest := by
  cases hall with
  | one => omega
  | two _ _ _ hrest => exact hrest
  | three => omega

theorem behind_three (hlow : 0xE0 ≤ first.toNat) (hhigh : first.toNat < 0xF0)
    (hall : Sequences follows (first :: second :: third :: rest)) :
    Sequences follows rest := by
  cases hall with
  | one => omega
  | two => omega
  | three _ _ _ _ hrest => exact hrest

theorem follows_second (hlow : 0xC0 ≤ first.toNat)
    (hall : Sequences follows (first :: second :: rest)) : follows second = true := by
  cases hall with
  | one => omega
  | two _ _ hsecond _ => exact hsecond
  | three _ _ hsecond _ _ => exact hsecond

theorem follows_third (hlow : 0xE0 ≤ first.toNat)
    (hall : Sequences follows (first :: second :: third :: rest)) : follows third = true := by
  cases hall with
  | one => omega
  | two => omega
  | three _ _ _ hthird _ => exact hthird

end Inversion

/-- Where forms end does not depend on what may follow a first byte. -/
theorem of_append (hleft : Sequences other left) (hall : Sequences follows (left ++ right)) :
    Sequences follows right := by
  induction hleft with
  | nil => exact hall
  | one hfirst _ ih => exact ih (behind_one hfirst hall)
  | two hlow hhigh _ _ ih => exact ih (behind_two hlow hhigh hall)
  | three hlow hhigh _ _ _ ih => exact ih (behind_three hlow hhigh hall)

end Sequences

/-- A form in front changes nothing about the forms behind. -/
theorem Absorbs.behind {before bytes : Bytes} (hbefore : Sequences anyByte before)
    (habsorbs : Absorbs bytes) : Absorbs (before ++ bytes) := by
  cases habsorbs with
  | second hfront hlow hhigh hsecond hbehind =>
      rw [← List.append_assoc]
      exact .second (hbefore.append hfront) hlow hhigh hsecond hbehind
  | third hfront hlow hhigh hthird hbehind =>
      rw [← List.append_assoc]
      exact .third (hbefore.append hfront) hlow hhigh hthird hbehind

theorem Absorbs.sequences {bytes : Bytes} (habsorbs : Absorbs bytes) :
    Sequences anyByte bytes := by
  cases habsorbs with
  | second hbefore _ _ _ hbehind => exact hbefore.append hbehind
  | third hbefore _ _ _ hbehind => exact hbefore.append hbehind

theorem Absorbs.not_sequences {bytes : Bytes} (habsorbs : Absorbs bytes) :
    ¬ Sequences Utf8.isContinuation bytes := by
  intro hall
  cases habsorbs with
  | second hbefore hlow _ hsecond _ =>
      rw [(hbefore.of_append hall).follows_second hlow] at hsecond
      cases hsecond
  | third hbefore hlow _ hthird _ =>
      rw [(hbefore.of_append hall).follows_third hlow] at hthird
      cases hthird

/-- Forms that take in any byte are those that take in only what continues
them, and those that do not. -/
theorem sequences_anyByte_iff {bytes : Bytes} :
    Sequences anyByte bytes ↔ Sequences Utf8.isContinuation bytes ∨ Absorbs bytes := by
  constructor
  · intro hsequences
    induction hsequences with
    | nil => exact .inl .nil
    | one hfirst _ ih =>
        rcases ih with hrest | habsorbs
        · exact .inl (.one hfirst hrest)
        · exact .inr (habsorbs.behind (.one hfirst .nil))
    | @two first second rest hlow hhigh hany hall ih =>
        cases hsecond : Utf8.isContinuation second with
        | false => exact .inr (.second .nil hlow (by omega) hsecond (.two hlow hhigh hany hall))
        | true =>
            rcases ih with hrest | habsorbs
            · exact .inl (.two hlow hhigh hsecond hrest)
            · exact .inr (habsorbs.behind (.two hlow hhigh hany .nil))
    | @three first second third rest hlow hhigh hany hany' hall ih =>
        have hbehind : Sequences anyByte (first :: second :: third :: rest) :=
          .three hlow hhigh hany hany' hall
        cases hsecond : Utf8.isContinuation second with
        | false => exact .inr (.second .nil (by omega) hhigh hsecond hbehind)
        | true =>
            cases hthird : Utf8.isContinuation third with
            | false => exact .inr (.third .nil hlow hhigh hthird hbehind)
            | true =>
                rcases ih with hrest | habsorbs
                · exact .inl (.three hlow hhigh hsecond hthird hrest)
                · exact .inr (habsorbs.behind (.three hlow hhigh hany hany' .nil))
  · rintro (hsequences | habsorbs)
    · exact hsequences.imp (fun _ _ => rfl)
    · exact habsorbs.sequences

section Read

variable {bytes : Bytes}

theorem exists_collectUnits_of_sequences (hsequences : Sequences anyByte bytes) (index : Nat)
    (units : List UInt16) : ∃ found, collectUnits index bytes units = .ok found := by
  induction hsequences generalizing index units with
  | nil => exact ⟨units, rfl⟩
  | one hfirst _ ih =>
      rw [collectUnits_one hfirst]
      exact ih _ _
  | two hlow hhigh _ _ ih =>
      rw [collectUnits_two hlow hhigh]
      exact ih _ _
  | three hlow hhigh _ _ _ ih =>
      rw [collectUnits_three hlow hhigh]
      exact ih _ _

/-- The bytes, which stand at the index `start` in their string, are no forms
behind some that are. -/
def BreaksOff (start : Nat) (bytes : Bytes) (defect : Defect) : Prop :=
  ∃ before rest, bytes = before ++ rest ∧ Sequences anyByte before ∧
    Breaks (start + before.length) rest defect

theorem Breaks.breaksOff {start : Nat} {defect : Defect} (hbreaks : Breaks start bytes defect) :
    BreaksOff start bytes defect :=
  ⟨[], bytes, rfl, .nil, hbreaks⟩

theorem BreaksOff.behind {start : Nat} {front : Bytes} {defect : Defect}
    (hfront : Sequences anyByte front) (hbreaks : BreaksOff (start + front.length) bytes defect) :
    BreaksOff start (front ++ bytes) defect := by
  obtain ⟨before, rest, rfl, hbefore, hrest⟩ := hbreaks
  refine ⟨front ++ before, rest, (List.append_assoc _ _ _).symm, hfront.append hbefore, ?_⟩
  rw [List.length_append, ← Nat.add_assoc]
  exact hrest

/-- The units are collected of forms, or the bytes break off with the defect
that is found.  The induction is on the forms the loop takes. -/
theorem sequences_or_breaksOff (index : Nat) (bytes : Bytes) (units : List UInt16) :
    (Sequences anyByte bytes ∧ ∃ found, collectUnits index bytes units = .ok found) ∨
      ∃ defect, BreaksOff index bytes defect ∧
        collectUnits index bytes units = .error defect := by
  fun_induction collectUnits index bytes units with
  | case1 index units => exact .inl ⟨.nil, units, rfl⟩
  | case2 index units first rest hone ih =>
      rcases ih with ⟨hrest, hfound⟩ | ⟨defect, hbreaks, herror⟩
      · exact .inl ⟨.one hone hrest, hfound⟩
      · exact .inr ⟨defect, .behind (.one hone .nil) hbreaks, herror⟩
  | case3 index first units hone htwo second rest ih =>
      simp only [Bool.and_eq_true, decide_eq_true_eq] at htwo
      rcases ih with ⟨hrest, hfound⟩ | ⟨defect, hbreaks, herror⟩
      · exact .inl ⟨.two htwo.1 htwo.2 rfl hrest, hfound⟩
      · exact .inr ⟨defect, .behind (.two htwo.1 htwo.2 rfl .nil) hbreaks, herror⟩
  | case4 index first units hone htwo =>
      simp only [Bool.and_eq_true, decide_eq_true_eq] at htwo
      exact .inr ⟨_, (Breaks.truncatedTwo htwo.1 htwo.2).breaksOff, rfl⟩
  | case5 index first units hone htwo hthree second third rest ih =>
      simp only [Bool.and_eq_true, decide_eq_true_eq] at hthree
      rcases ih with ⟨hrest, hfound⟩ | ⟨defect, hbreaks, herror⟩
      · exact .inl ⟨.three hthree.1 hthree.2 rfl rfl hrest, hfound⟩
      · exact .inr ⟨defect, .behind (.three hthree.1 hthree.2 rfl rfl .nil) hbreaks, herror⟩
  | case6 index first rest units hone htwo hthree hcut =>
      simp only [Bool.and_eq_true, decide_eq_true_eq] at hthree
      have hshort : rest.length < 2 := by
        rcases rest with _ | ⟨second, _ | ⟨third, behind⟩⟩
        · exact Nat.zero_lt_two
        · exact Nat.one_lt_two
        · exact (hcut second third behind rfl).elim
      exact .inr ⟨_, (Breaks.truncatedThree hthree.1 hthree.2 hshort).breaksOff, rfl⟩
  | case7 index first rest units hone htwo hthree =>
      simp only [Bool.and_eq_true, decide_eq_true_eq] at htwo hthree
      have hfirst : 0x80 ≤ first.toNat ∧ first.toNat < 0xC0 ∨ 0xF0 ≤ first.toNat := by omega
      exact .inr ⟨_, (Breaks.lead hfirst).breaksOff, rfl⟩

variable {cursor next : Cursor}

theorem text_of_spans (hspans : cursor.Spans bytes next) :
    text bytes.length cursor = ofExcept (decode bytes) next := by
  rw [text, Outcome.run_bind_of_ok (bytes_eq_ok_iff.mpr ⟨rfl, hspans⟩)]

theorem decode_eq_collectUnits (bytes : Bytes) :
    decode bytes = (collectUnits 0 bytes []).map
      (fun units => String.ofList (Utf16.characters units.reverse)) := by
  rw [decode_eq_decodeUnits, decodeUnits]
  cases collectUnits 0 bytes [] with
  | ok units => rfl
  | error defect => rfl

/-- What is read as a text.  The bytes of a text are forms of one, two and three
bytes, and all bytes that are such forms can be read.  But so can those in
which a byte that continues nothing is taken in behind a first one that asks
for more, and only these besides.  All others are consumed and refused with the
defect at which they break off. -/
theorem text_accepts_sequences (hspans : cursor.Spans bytes next) :
    ((∃ found, text bytes.length cursor = .ok found next) ↔
      Sequences Utf8.isContinuation bytes ∨ Absorbs bytes) ∧
    (Absorbs bytes → ¬ Sequences Utf8.isContinuation bytes) ∧
    ((¬ ∃ found, text bytes.length cursor = .ok found next) →
      ∃ defect, BreaksOff 0 bytes defect ∧
        text bytes.length cursor = .error (.malformed defect) next) := by
  rw [text_of_spans hspans, decode_eq_collectUnits, ← sequences_anyByte_iff]
  refine ⟨?_, Absorbs.not_sequences, ?_⟩
  · constructor
    · rintro ⟨found, hread⟩
      rcases sequences_or_breaksOff 0 bytes [] with ⟨hsequences, _⟩ | ⟨defect, _, herror⟩
      · exact hsequences
      · rw [herror] at hread
        cases hread
    · intro hsequences
      obtain ⟨units, hunits⟩ := exists_collectUnits_of_sequences hsequences 0 []
      rw [hunits]
      exact ⟨_, rfl⟩
  · intro hnone
    rcases sequences_or_breaksOff 0 bytes [] with ⟨_, units, hunits⟩ | ⟨defect, hbreaks, herror⟩
    · rw [hunits] at hnone
      exact absurd ⟨_, rfl⟩ hnone
    · rw [herror]
      exact ⟨defect, hbreaks, rfl⟩

end Read

theorem text_accepts_sequences_euro :
    (∃ found next, text 4 (.start [0xE2, 0x82, 0xAC, 0x61]) = .ok found next) ∧
      ∃ next, text 3 (.start [0x61, 0xF0, 0x61]) =
        .error (.malformed (.invalidLeadByte 0xF0 1)) next := by
  obtain ⟨stop, hstop⟩ := Cursor.exists_spans_start [0xE2, 0x82, 0xAC, 0x61]
  obtain ⟨last, hlast⟩ := Cursor.exists_spans_start [0x61, 0xF0, 0x61]
  constructor
  · have heuro : Sequences Utf8.isContinuation [0xE2, 0x82, 0xAC, 0x61] :=
      .three (by decide) (by decide) rfl rfl (.one (by decide) .nil)
    obtain ⟨found, hread⟩ := (text_accepts_sequences hstop).1.mpr (.inl heuro)
    exact ⟨found, stop, hread⟩
  · have hverdict : Outcome.verdict (text 3 (.start [0x61, 0xF0, 0x61])) =
        .error (.malformed (.invalidLeadByte 0xF0 1)) := by decide +kernel
    have hnone : ¬ ∃ found, text 3 (.start [0x61, 0xF0, 0x61]) = .ok found last := by
      rintro ⟨found, hread⟩
      rw [hread] at hverdict
      cases hverdict
    obtain ⟨defect, _, hread⟩ := (text_accepts_sequences hlast).2.2 hnone
    cases hverdict.symm.trans (congrArg Outcome.verdict hread)
    exact ⟨last, hread⟩

/-- A first byte that asks for a second one takes in the letter behind it. -/
theorem text_takes_in_letter :
    Outcome.verdict (text 2 (.start [0xC3, 0x41])) = .ok "Á" ∧
      ¬ Sequences Utf8.isContinuation [0xC3, 0x41] := by
  refine ⟨by decide +kernel, ?_⟩
  intro hall
  exact absurd (hall.follows_second (by decide)) (by decide)

end JvmCalls.ModifiedUtf8

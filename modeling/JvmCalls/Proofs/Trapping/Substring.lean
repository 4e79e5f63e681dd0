import JvmCalls.Descriptor.FieldType
import JvmCalls.Proofs.Text.Utf8
import JvmCalls.Proofs.Trapping.Partial

/-!
# Parts of a text

A machine takes a text apart at offsets that count bytes, and traps when an
offset lies inside of a character.  The offset of a part of a text is the count
of the bytes in front of it, so cutting there gives the part.  An ASCII
character is the only one that starts with its byte, and takes one byte; a
reader that goes on byte by byte over such characters stays between characters.
-/

namespace JvmCalls.Trapping

open Checked

variable {Flaw : Type}

def size (text : List Char) : Nat := (text.flatMap String.utf8EncodeChar).length

/-- The characters before and behind an offset, if it lies between them. -/
def cut : List Char → (offset : Nat) → Option (List Char × List Char)
  | [], offset => if offset = 0 then some ([], []) else none
  | next :: text, offset =>
      if offset = 0 then
        some ([], next :: text)
      else if next.utf8Size ≤ offset then
        (cut text (offset - next.utf8Size)).map (fun parts => (next :: parts.1, parts.2))
      else
        none

def takeBytes (text : List Char) (offset : Nat) : Checked Flaw (List Char) :=
  match cut text offset with
  | some parts => .ok parts.1
  | none => trap .split

def dropBytes (text : List Char) (offset : Nat) : Checked Flaw (List Char) :=
  match cut text offset with
  | some parts => .ok parts.2
  | none => trap .split

/-- The offset of the first place where the character stands. -/
def find? (target : Char) : List Char → Option Nat
  | [] => none
  | next :: text =>
      if next = target then some 0 else (find? target text).map (· + next.utf8Size)

@[simp]
theorem size_nil : size [] = 0 := rfl

@[simp]
theorem size_cons (next : Char) (text : List Char) :
    size (next :: text) = next.utf8Size + size text := by
  simp [size]

@[simp]
theorem size_append (front text : List Char) : size (front ++ text) = size front + size text := by
  simp [size]

theorem length_le_size (text : List Char) : text.length ≤ size text := by
  induction text with
  | nil => exact Nat.le_refl _
  | cons next text ih =>
      have hnext := next.utf8Size_pos
      rw [size_cons, List.length_cons]
      omega

theorem size_le (text : List Char) : size text ≤ 4 * text.length := by
  induction text with
  | nil => exact Nat.le_refl _
  | cons next text ih =>
      have hnext := next.utf8Size_le_four
      rw [size_cons, List.length_cons]
      omega

theorem length_encode_le (text : String) : (Utf8.encode text).length ≤ 4 * text.length :=
  calc (Utf8.encode text).length
      = size text.toList := rfl
    _ ≤ 4 * text.toList.length := size_le text.toList
    _ = 4 * text.length := by rw [String.length_toList]

/-- A text is cut where a part of it ends. -/
theorem cut_append (front text : List Char) :
    cut (front ++ text) (size front) = some (front, text) := by
  induction front with
  | nil => cases text <;> rfl
  | cons next front ih =>
      have hnext := next.utf8Size_pos
      rw [List.cons_append, cut, size_cons, if_neg (by omega), if_pos (by omega),
        Nat.add_sub_cancel_left, ih]
      rfl

theorem takeBytes_append (front text : List Char) :
    (takeBytes (front ++ text) (size front) : Checked Flaw (List Char)) = .ok front := by
  rw [takeBytes, cut_append]

theorem dropBytes_append (front text : List Char) :
    (dropBytes (front ++ text) (size front) : Checked Flaw (List Char)) = .ok text := by
  rw [dropBytes, cut_append]

/-- The middle of a character of two bytes is no place to cut a text. -/
example : (dropBytes ['é', ';'] 1 : Checked Defect (List Char)) = trap .split := rfl

theorem find?_eq_none {target : Char} {text : List Char}
    (hnone : text.dropWhile (· != target) = []) : find? target text = none := by
  induction text with
  | nil => rfl
  | cons next text ih =>
      rw [List.dropWhile_cons] at hnone
      by_cases hnext : next = target
      · simp [hnext] at hnone
      · rw [if_pos (by simpa using hnext)] at hnone
        rw [find?, if_neg hnext, ih hnone]
        rfl

theorem find?_eq_some {target last : Char} {text rest : List Char}
    (hsome : text.dropWhile (· != target) = last :: rest) :
    last = target ∧ find? target text = some (size (text.takeWhile (· != target))) := by
  induction text with
  | nil => cases hsome
  | cons next text ih =>
      rw [List.dropWhile_cons] at hsome
      by_cases hnext : next = target
      · simp only [hnext, bne_self_eq_false, Bool.false_eq_true, if_false, List.cons.injEq] at hsome
        refine ⟨hsome.1.symm, ?_⟩
        rw [find?, if_pos hnext, List.takeWhile_cons_of_neg (by simp [hnext])]
        rfl
      · have hkeep : (next != target) = true := by simpa using hnext
        rw [if_pos hkeep] at hsome
        obtain ⟨hlast, hfind⟩ := ih hsome
        refine ⟨hlast, ?_⟩
        rw [find?, if_neg hnext, hfind, List.takeWhile_cons, if_pos hkeep, size_cons,
          Nat.add_comm]
        rfl

/-! ## First bytes -/

def lead (next : Char) : UInt8 := (String.utf8EncodeChar next).headD 0

theorem utf8EncodeChar_eq_cons (next : Char) :
    ∃ others, String.utf8EncodeChar next = lead next :: others := by
  have hlength := String.length_utf8EncodeChar next
  have hpositive := next.utf8Size_pos
  cases hbytes : String.utf8EncodeChar next with
  | nil =>
      rw [hbytes, List.length_nil] at hlength
      omega
  | cons first others => exact ⟨others, by rw [lead, hbytes, List.headD_cons]⟩

theorem leadCharacter_eq (next : Char) :
    FieldType.leadCharacter next = Char.ofNat (lead next).toNat := by
  obtain ⟨others, hbytes⟩ := utf8EncodeChar_eq_cons next
  rw [FieldType.leadCharacter, hbytes]

/-- An ASCII character starts with its number, all others with larger bytes. -/
theorem toNat_lead (next : Char) :
    (lead next).toNat = next.toNat ∧ next.toNat < 0x80 ∨
      0x80 ≤ (lead next).toNat ∧ 0x80 ≤ next.toNat := by
  rw [lead, String.utf8EncodeChar]
  simp only [show next.val.toNat = next.toNat from rfl]
  split
  · next hone =>
      refine .inl ⟨?_, by omega⟩
      exact Utf8.toNat_ofNat_byte (by omega)
  · next hone =>
      refine .inr ⟨?_, by omega⟩
      split
      · rw [List.headD_cons, Utf8.toNat_ofNat_byte] <;> omega
      · split
        · rw [List.headD_cons, Utf8.toNat_ofNat_byte] <;> omega
        · rw [List.headD_cons, Utf8.toNat_ofNat_byte] <;> omega

/-- ASCII characters are the only ones that start with their bytes. -/
theorem lead_eq_iff {next target : Char} (hascii : target.toNat < 0x80) :
    lead next = UInt8.ofNat target.toNat ↔ next = target := by
  have htarget : (UInt8.ofNat target.toNat).toNat = target.toNat :=
    Utf8.toNat_ofNat_byte (Nat.lt_trans hascii (by decide))
  rw [← UInt8.toNat_inj, htarget, ← Char.toNat_inj]
  have hnext := toNat_lead next
  omega

theorem utf8Size_of_ascii {next : Char} (hascii : next.toNat < 0x80) : next.utf8Size = 1 :=
  Char.utf8Size_eq_one_iff.mpr (Nat.le_of_lt_succ hascii)

/-! ## Rests of a text -/

/-- The rest of the text that starts at the position. -/
def StandsAt (whole : String) (position : Nat) (text : List Char) : Prop :=
  ∃ front, whole.toList = front ++ text ∧ position = size front

namespace StandsAt

variable {whole : String} {position next : Nat} {text rest : List Char}

theorem start (whole : String) : StandsAt whole 0 whole.toList := ⟨[], rfl, rfl⟩

theorem dropBytes_eq (hstands : StandsAt whole position text) :
    (dropBytes whole.toList position : Checked Flaw (List Char)) = .ok text := by
  obtain ⟨front, hwhole, rfl⟩ := hstands
  rw [hwhole, dropBytes_append]

theorem length_eq (hstands : StandsAt whole position text) :
    (Utf8.encode whole).length = position + size text := by
  obtain ⟨front, hwhole, rfl⟩ := hstands
  rw [← size_append, ← hwhole]
  rfl

/-- Nothing stands at the end of the text, and only there. -/
theorem eq_length_iff (hstands : StandsAt whole position text) :
    position = (Utf8.encode whole).length ↔ text = [] := by
  rw [hstands.length_eq]
  cases text with
  | nil => simp
  | cons first rest =>
      have hfirst := first.utf8Size_pos
      simp only [size_cons, reduceCtorEq, iff_false]
      omega

theorem append (front : List Char) (hstands : StandsAt whole position (front ++ rest)) :
    StandsAt whole (position + size front) rest := by
  obtain ⟨before, hwhole, rfl⟩ := hstands
  refine ⟨before ++ front, ?_, (size_append before front).symm⟩
  rw [hwhole, List.append_assoc]

/-- One byte on from an ASCII character stands the character behind it. -/
theorem tail {first : Char} (hstands : StandsAt whole position (first :: rest))
    (hascii : first.toNat < 0x80) : StandsAt whole (position + 1) rest := by
  have hrest := append [first] hstands
  rwa [size_cons, size_nil, utf8Size_of_ascii hascii] at hrest

/-- The byte at the position is the first one of the character there. -/
theorem getElem?_eq (hstands : StandsAt whole position text) :
    (Utf8.encode whole)[position]? = text.head?.map lead := by
  obtain ⟨front, hwhole, rfl⟩ := hstands
  rw [Utf8.encode, hwhole, List.flatMap_append, size,
    List.getElem?_append_right (Nat.le_refl _), Nat.sub_self]
  cases text with
  | nil => rfl
  | cons first rest =>
      obtain ⟨others, hbytes⟩ := utf8EncodeChar_eq_cons first
      rw [List.flatMap_cons, hbytes]
      rfl

theorem getElem?_eq_none_iff (hstands : StandsAt whole position text) :
    (Utf8.encode whole)[position]? = none ↔ text = [] := by
  rw [hstands.getElem?_eq]
  cases text with
  | nil => simp
  | cons first rest => simp

/-- The byte of an ASCII character stands at the position exactly if the
character does. -/
theorem getElem?_eq_some_iff (target : Char) (hascii : target.toNat < 0x80)
    (hstands : StandsAt whole position text) :
    (Utf8.encode whole)[position]? = some (UInt8.ofNat target.toNat) ↔
      text.head? = some target := by
  rw [hstands.getElem?_eq]
  cases text with
  | nil => simp
  | cons first rest => simp [lead_eq_iff hascii]

/-- A shorter rest starts further on. -/
theorem lt_of_length_lt (htext : StandsAt whole position text) (hrest : StandsAt whole next rest)
    (hshorter : rest.length < text.length) : position < next := by
  obtain ⟨front, hwhole, rfl⟩ := htext
  obtain ⟨longer, hwhole', rfl⟩ := hrest
  have hsame : front ++ text = longer ++ rest := hwhole.symm.trans hwhole'
  obtain ⟨between, rfl, rfl⟩ | ⟨between, _, rfl⟩ := List.append_eq_append_iff.mp hsame
  · have hbetween := length_le_size between
    rw [List.length_append] at hshorter
    rw [size_append]
    omega
  · rw [List.length_append] at hshorter
    omega

end StandsAt

end JvmCalls.Trapping

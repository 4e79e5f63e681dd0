import JvmCalls.Proofs.Call.Filter
import Mathlib.Data.List.DropRight

/-!
# Written lists of prefixes

A list with separators stands for the segments between them, without those that
are empty behind the last one that is not.  These are the only segments of which
the last one is not empty and from which the list comes back when they are joined
and separators are put behind them.  A list without a separator is one prefix,
also if it is empty.  The difference matters: a filter without prefixes and one
with an empty prefix let every type through, but an empty segment at the end of a
list must not.
-/

namespace JvmCalls.TypeFilter

/-! ## Segments of a text -/

section Segments

variable {mark : Char} {text : List Char} {segments kept : List (List Char)}

/-- No segment holds the mark at which the text was split. -/
theorem not_mem_of_mem_splitOn {segment : List Char} (hmem : segment ∈ text.splitOn mark) :
    mark ∉ segment := by
  induction text generalizing segment with
  | nil =>
      rw [List.splitOn_nil, List.mem_singleton] at hmem
      rw [hmem]
      exact List.not_mem_nil
  | cons letter text ih =>
      rw [List.splitOn_cons_eq_if_modifyHead] at hmem
      obtain ⟨front, others, hsplit⟩ := List.exists_cons_of_ne_nil (List.splitOn_ne_nil mark text)
      rw [hsplit] at hmem ih
      split at hmem
      · rcases List.mem_cons.mp hmem with rfl | hmem
        · exact List.not_mem_nil
        · exact ih hmem
      · next hletter =>
          rw [List.modifyHead_cons] at hmem
          rcases List.mem_cons.mp hmem with rfl | hmem
          · rw [List.mem_cons, not_or]
            refine ⟨?_, ih List.mem_cons_self⟩
            rintro rfl
            exact hletter (beq_self_eq_true mark)
          · exact ih (List.mem_cons_of_mem front hmem)

/-- A text falls apart at its marks, which leaves one segment more than there are
marks. -/
theorem length_splitOn (text : List Char) :
    (text.splitOn mark).length = text.count mark + 1 := by
  induction text with
  | nil => rfl
  | cons letter text ih =>
      rw [List.splitOn_cons_eq_if_modifyHead, List.count_cons]
      split
      · rw [List.length_cons, ih]
      · rw [List.length_modifyHead, ih, Nat.add_zero]

/-- What is left of segments when the empty ones at the end are dropped is what
does not end in an empty one and differs from them by empty ones at the end. -/
theorem rdropWhile_isEmpty_eq_iff : segments.rdropWhile List.isEmpty = kept ↔
    kept.getLast? ≠ some [] ∧ ∃ count, segments = kept ++ List.replicate count [] := by
  constructor
  · rintro rfl
    constructor
    · intro hlast
      have hkept : segments.rdropWhile List.isEmpty ≠ [] := by
        intro hnone
        rw [hnone] at hlast
        cases hlast
      have hfilled := List.rdropWhile_last_not List.isEmpty segments hkept
      rw [List.getLast?_eq_some_getLast hkept, Option.some_inj] at hlast
      rw [hlast] at hfilled
      exact hfilled rfl
    · have hdropped : ∀ segment ∈ segments.rtakeWhile List.isEmpty, segment = [] :=
        fun segment hmem => List.isEmpty_iff.mp (List.mem_rtakeWhile_imp hmem)
      refine ⟨(segments.rtakeWhile List.isEmpty).length, ?_⟩
      rw [← List.eq_replicate_of_mem hdropped, List.rdropWhile_append_rtakeWhile]
  · rintro ⟨hlast, count, rfl⟩
    induction count with
    | zero =>
        rw [List.replicate_zero, List.append_nil, List.rdropWhile_eq_self_iff]
        intro hkept hempty
        rw [List.getLast?_eq_some_getLast hkept, List.isEmpty_iff.mp hempty] at hlast
        exact hlast rfl
    | succ count ih =>
        rw [List.replicate_succ', ← List.append_assoc, List.rdropWhile_concat_pos _ _ _ rfl, ih]

/-- An empty segment at the end puts a mark behind the joined ones. -/
theorem intercalate_concat_nil (hkept : kept ≠ []) :
    [mark].intercalate (kept ++ [[]]) = [mark].intercalate kept ++ [mark] := by
  induction kept with
  | nil => exact absurd rfl hkept
  | cons segment others ih =>
      cases others with
      | nil => simp
      | cons next others =>
          rw [List.cons_append, List.intercalate_cons_of_ne_nil (by simp),
            ih (List.cons_ne_nil _ _), List.intercalate_cons_cons, ← List.append_assoc]

theorem intercalate_append_replicate (hkept : kept ≠ []) (count : Nat) :
    [mark].intercalate (kept ++ List.replicate count []) =
      [mark].intercalate kept ++ List.replicate count mark := by
  induction count with
  | zero => simp
  | succ count ih =>
      rw [List.replicate_succ', ← List.append_assoc, intercalate_concat_nil (by simp [hkept]), ih,
        List.append_assoc, List.replicate_succ']

/-- Without other segments, the first empty one puts no mark. -/
theorem intercalate_replicate (count : Nat) :
    [mark].intercalate (List.replicate (count + 1) []) = List.replicate count mark := by
  rw [List.replicate_succ]
  exact intercalate_append_replicate (List.cons_ne_nil [] []) count

/-- A text with marks falls apart into some segments and empty ones behind them
exactly if it is these segments, joined, and marks behind them. -/
theorem exists_splitOn_eq_iff :
    (∃ count, text.splitOn mark = kept ++ List.replicate count []) ↔
      (∀ segment ∈ kept, mark ∉ segment) ∧
        ∃ count, text = [mark].intercalate kept ++ List.replicate count mark := by
  constructor
  · rintro ⟨count, hsplit⟩
    have hjoined : text = [mark].intercalate (kept ++ List.replicate count []) := by
      rw [← hsplit, List.intercalate_splitOn]
    refine ⟨fun segment hmem => ?_, ?_⟩
    · have hsegment : segment ∈ text.splitOn mark := by
        rw [hsplit]
        exact List.mem_append_left _ hmem
      exact not_mem_of_mem_splitOn hsegment
    · by_cases hkept : kept = []
      · subst hkept
        cases count with
        | zero => exact absurd hsplit (List.splitOn_ne_nil mark text)
        | succ count =>
            rw [List.nil_append, intercalate_replicate] at hjoined
            exact ⟨count, by rw [hjoined, List.intercalate_nil, List.nil_append]⟩
      · exact ⟨count, by rw [hjoined, intercalate_append_replicate hkept]⟩
  · rintro ⟨hfree, count, htext⟩
    have hsegments : ∀ count, ∀ segment ∈ kept ++ List.replicate count [], mark ∉ segment := by
      intro count segment hmem
      rcases List.mem_append.mp hmem with hmem | hmem
      · exact hfree segment hmem
      · rw [List.eq_of_mem_replicate hmem]
        exact List.not_mem_nil
    by_cases hkept : kept = []
    · subst hkept
      rw [List.intercalate_nil, List.nil_append, ← intercalate_replicate] at htext
      refine ⟨count + 1, ?_⟩
      rw [htext]
      exact List.splitOn_intercalate mark (hsegments (count + 1)) (by simp)
    · rw [← intercalate_append_replicate hkept] at htext
      refine ⟨count, ?_⟩
      rw [htext]
      exact List.splitOn_intercalate mark (hsegments count) (by simp [hkept])

end Segments

/-! ## Prefixes of a written list -/

variable {list : String} {prefixes : List String}

/-- The list is written for these prefixes: they have no separators, the last of
them is not empty, and they give back the list when they are joined and separators
are put behind them. -/
structure IsWrittenFor (list : String) (prefixes : List String) : Prop where
  unseparated : ∀ start ∈ prefixes, separator ∉ start.toList
  last_ne : prefixes.getLast? ≠ some ""
  rejoined : ∃ count, list = String.intercalate separator.toString prefixes ++
    String.ofList (List.replicate count separator)

theorem prefixes_ofList_of_not_mem (hplain : separator ∉ list.toList) :
    (ofList list).prefixes = [list] := by
  rw [ofList, parsePrefixes, if_neg (by simpa using hplain)]

theorem prefixes_ofList_of_mem (hseparator : separator ∈ list.toList) :
    (ofList list).prefixes =
      ((list.toList.splitOn separator).rdropWhile List.isEmpty).map String.ofList := by
  rw [ofList, parsePrefixes, if_pos (by simpa using hseparator)]
  rfl

theorem prefixes_ofList_eq_iff (hseparator : separator ∈ list.toList) :
    (ofList list).prefixes = prefixes ↔
      (list.toList.splitOn separator).rdropWhile List.isEmpty = prefixes.map String.toList := by
  rw [prefixes_ofList_of_mem hseparator]
  constructor
  · rintro rfl
    simp
  · intro hkept
    rw [hkept]
    simp

/-- The prefixes of a list with separators are the only ones for which the list is
written. -/
theorem prefixes_ofList_iff_isWrittenFor (hseparator : separator ∈ list.toList) :
    (ofList list).prefixes = prefixes ↔ IsWrittenFor list prefixes := by
  have hlast : (prefixes.map String.toList).getLast? ≠ some [] ↔ prefixes.getLast? ≠ some "" := by
    simp [List.getLast?_map]
  have hjoined : ∀ count, list.toList = [separator].intercalate (prefixes.map String.toList) ++
      List.replicate count separator ↔
        list = String.intercalate separator.toString prefixes ++
          String.ofList (List.replicate count separator) := by
    intro count
    rw [← String.toList_inj, String.toList_append, String.toList_intercalate, String.toList_ofList]
    rfl
  rw [prefixes_ofList_eq_iff hseparator, rdropWhile_isEmpty_eq_iff, exists_splitOn_eq_iff, hlast,
    List.forall_mem_map]
  simp only [hjoined]
  constructor
  · rintro ⟨hnonempty, hfree, hrejoined⟩
    exact ⟨hfree, hnonempty, hrejoined⟩
  · rintro ⟨hfree, hnonempty, hrejoined⟩
    exact ⟨hnonempty, hfree, hrejoined⟩

/-- A list is without prefixes exactly if it has several segments and all of them
are empty. -/
theorem prefixes_ofList_eq_nil_iff : (ofList list).prefixes = [] ↔
    2 ≤ (list.toList.splitOn separator).length ∧
      ∀ segment ∈ list.toList.splitOn separator, segment = [] := by
  rw [length_splitOn]
  by_cases hseparator : separator ∈ list.toList
  · have hcount := List.count_pos_iff.mpr hseparator
    rw [prefixes_ofList_eq_iff hseparator, List.map_nil, List.rdropWhile_eq_nil_iff]
    simp only [List.isEmpty_iff]
    exact (and_iff_right (by omega)).symm
  · rw [prefixes_ofList_of_not_mem hseparator, List.count_eq_zero_of_not_mem hseparator]
    simp

/-- The prefixes of a written list, and what they let through.  A list without a
separator is one prefix.  A list with separators falls apart at them, and of its
segments only empty ones at the end are dropped; the others are the only prefixes
for which the list is written.  A list extends a filter behind what it has.  A type
is let through if it starts with a segment that is kept, or if the list has several
segments of which none is kept. -/
theorem written_list_exact (list : String) :
    (separator ∉ list.toList → (ofList list).prefixes = [list]) ∧
    (separator ∈ list.toList →
      (∃ dropped, (list.toList.splitOn separator).map String.ofList =
        (ofList list).prefixes ++ List.replicate dropped "") ∧
      ∀ prefixes, (ofList list).prefixes = prefixes ↔ IsWrittenFor list prefixes) ∧
    (∀ filter : TypeFilter,
      (filter.extend list).prefixes = filter.prefixes ++ (ofList list).prefixes) ∧
    ∀ name, (ofList list).includes name = true ↔
      (2 ≤ (list.toList.splitOn separator).length ∧
        ∀ segment ∈ list.toList.splitOn separator, segment = []) ∨
      (ofList list).Covers name := by
  refine ⟨prefixes_ofList_of_not_mem, fun hseparator => ⟨?_, ?_⟩, fun filter => rfl, fun name => ?_⟩
  · obtain ⟨_, dropped, hsplit⟩ := rdropWhile_isEmpty_eq_iff.mp
      (rfl : (list.toList.splitOn separator).rdropWhile List.isEmpty = _)
    refine ⟨dropped, ?_⟩
    rw [prefixes_ofList_of_mem hseparator, ← String.ofList_nil, ← List.map_replicate,
      ← List.map_append, ← hsplit]
  · exact fun prefixes => prefixes_ofList_iff_isWrittenFor hseparator
  · rw [includes_iff, prefixes_ofList_eq_nil_iff]

example : (ofList ",a, b,,").prefixes = ["", "a", " b"] := by decide

end JvmCalls.TypeFilter

import JvmCalls.Proofs.ClassFile.Parsed
import JvmCalls.Zip.Archive
import Mathlib.Data.List.Basic

/-!
# Entries that cannot be read

An entry is refused for one of three causes, and the fault tells which.  It
cannot be located, or it is a class whose content is broken, or it is a class
for which more memory is asked than a block can have.  All other entries are
read.
-/

namespace JvmCalls.Archive

open Zip

/-- The content of an entry is asked for: there is a record of the entry, its
compressed data is located, and it is a class. -/
structure Asks (archive : Archive) (index : Nat) (record : Record) (data : Bytes) : Prop where
  recorded : archive.records[index]? = some record
  located : archive.compressed record = .ok data
  isClass : isClassName record.name = true

/-- Why an entry of the directory cannot be read, with the fault. -/
inductive Unreadable (archive : Archive) (index : Nat) : ArchiveFault → Prop
  | unlocated {record : Record} {fault : ZipFault}
      (hrecord : archive.records[index]? = some record)
      (hlocated : archive.compressed record = .error fault) :
      Unreadable archive index (.archive fault)
  | boundless {record : Record} {data : Bytes} (hasks : archive.Asks index record data)
      (hsize : maxReservation < reservation record) :
      Unreadable archive index (.excessiveSize record.name record.size)
  | broken {record : Record} {data : Bytes} (hasks : archive.Asks index record data)
      (hsize : reservation record ≤ maxReservation) (hcontent : content record data = none) :
      Unreadable archive index (.corrupt record.name)

variable {archive : Archive} {index : Nat} {fault : ArchiveFault}

theorem Unreadable.lt_size (hunreadable : archive.Unreadable index fault) :
    index < archive.size := by
  have hrecord : ∃ record, archive.records[index]? = some record := by
    cases hunreadable with
    | unlocated hrecord hlocated => exact ⟨_, hrecord⟩
    | boundless hasks hsize => exact ⟨_, hasks.recorded⟩
    | broken hasks hsize hcontent => exact ⟨_, hasks.recorded⟩
  obtain ⟨record, hrecord⟩ := hrecord
  obtain ⟨hindex, _⟩ := Array.getElem?_eq_some_iff.mp hrecord
  exact hindex

theorem entry_of_unreadable (hunreadable : archive.Unreadable index fault) :
    archive.entry index = .error fault := by
  cases hunreadable with
  | unlocated hrecord hlocated => simp only [entry, hrecord, hlocated]
  | boundless hasks hsize =>
      simp only [entry, hasks.recorded, hasks.located, hasks.isClass, Bool.not_true,
        Bool.false_eq_true, if_false, if_pos hsize]
  | broken hasks hsize hcontent =>
      simp only [entry, hasks.recorded, hasks.located, hasks.isClass, Bool.not_true,
        Bool.false_eq_true, if_false, if_neg (Nat.not_lt.mpr hsize), hcontent]

/-- The entries of the directory that cannot be read are those with a cause. -/
theorem entry_eq_error_iff (hindex : index < archive.size) :
    archive.entry index = .error fault ↔ archive.Unreadable index fault := by
  constructor
  · intro hentry
    have hrecord : archive.records[index]? = some archive.records[index] :=
      Array.getElem?_eq_getElem hindex
    simp only [entry, hrecord] at hentry
    split at hentry
    · next cause hlocated =>
        cases hentry
        exact .unlocated hrecord hlocated
    · next data hlocated =>
        split at hentry
        · cases hentry
        · next hclass =>
            have hasks : archive.Asks index archive.records[index] data :=
              ⟨hrecord, hlocated, by simpa using hclass⟩
            split at hentry
            · next hsize =>
                cases hentry
                exact .boundless hasks hsize
            · next hsize =>
                split at hentry
                · cases hentry
                · next hcontent =>
                    cases hentry
                    exact .broken hasks (Nat.not_lt.mp hsize) hcontent
  · exact entry_of_unreadable

/-- More memory is asked for the content of an entry than a block can have. -/
def IsBoundless (archive : Archive) (index : Nat) : Prop :=
  ∃ record data, archive.Asks index record data ∧ maxReservation < reservation record

/-- The run is given up at an entry exactly if more memory is asked for its content
than there can be. -/
theorem exists_endsRun_iff :
    (∃ fault, archive.entry index = .error fault ∧ fault.endsRun = true) ↔
      archive.IsBoundless index := by
  constructor
  · rintro ⟨fault, hentry, hends⟩
    by_cases hindex : index < archive.size
    · cases (entry_eq_error_iff hindex).mp hentry with
      | unlocated hrecord hlocated => cases hends
      | boundless hasks hsize => exact ⟨_, _, hasks, hsize⟩
      | broken hasks hsize hcontent => cases hends
    · have hnone : archive.records[index]? = none :=
        Array.getElem?_eq_none_iff.mpr (Nat.not_lt.mp hindex)
      simp only [entry, hnone] at hentry
      cases hentry
      cases hends
  · rintro ⟨record, data, hasks, hsize⟩
    exact ⟨_, entry_of_unreadable (.boundless hasks hsize), rfl⟩

/-- The outcomes of reading fall apart at the index of an entry that cannot be
read. -/
theorem entries_eq_of_unreadable (hunreadable : archive.Unreadable index fault) :
    archive.entries =
      archive.entries.take index ++ .error fault :: archive.entries.drop (index + 1) := by
  have hindex : index < archive.entries.length := by
    rw [entries, List.length_map, List.length_range]
    exact hunreadable.lt_size
  have hentry : archive.entries[index] = .error fault := by
    simp only [entries, List.getElem_map, List.getElem_range]
    exact entry_of_unreadable hunreadable
  rw [← hentry, ← List.drop_eq_getElem_cons hindex, List.take_append_drop]

theorem entry_of_entries_eq {before after : List EntryRead}
    (hentries : archive.entries = before ++ .error fault :: after) :
    archive.entry before.length = .error fault := by
  have hread : archive.entries[before.length]? = some (.error fault) := by
    rw [hentries, List.getElem?_append_right (Nat.le_refl _), Nat.sub_self, List.getElem?_cons_zero]
  obtain ⟨hindex, hread⟩ := List.getElem?_eq_some_iff.mp hread
  simpa only [entries, List.getElem_map, List.getElem_range] using hread

theorem exists_entry_of_mem_entries (hmem : .error fault ∈ archive.entries) :
    ∃ index, archive.entry index = .error fault := by
  obtain ⟨index, _, hentry⟩ := List.mem_map.mp hmem
  exact ⟨index, hentry⟩

def classRecord (name : String) (method : UInt8) (checksum : UInt32) (size offset : Nat) :
    Record where
  name := name
  storedName := Utf8.encode name
  comment := ""
  isEncrypted := false
  usesAes := false
  method := method.toNat
  checksum := checksum
  compressedSize := size
  size := size
  headerOffset := offset

/-- The bytes of an entry `A.class` that stores `ClassFile.callingClass`. -/
def callingEntry : Bytes :=
  [80, 75, 3, 4, 20, 0, 0, 0, 0, 0, 0, 0, 33, 0, 0xCD, 0xA6, 7, 47, 108, 0, 0, 0, 108, 0, 0, 0,
    7, 0, 0, 0, 65, 46, 99, 108, 97, 115, 115] ++ ClassFile.callingClass

/-- The bytes of the record of this entry at the start of an archive. -/
def callingRecord : Bytes :=
  [80, 75, 1, 2, 20, 0, 20, 0, 0, 0, 0, 0, 0, 0, 33, 0, 0xCD, 0xA6, 7, 47, 108, 0, 0, 0,
    108, 0, 0, 0, 7, 0, 0, 0, 0, 0, 0, 0, 0, 0, 0, 0, 0, 0, 0, 0, 0, 0,
    65, 46, 99, 108, 97, 115, 115]

def emptyEntry : Bytes :=
  [80, 75, 3, 4, 20, 0, 0, 0, 0, 0, 0, 0, 33, 0, 0, 0, 0, 0, 0, 0, 0, 0, 0, 0, 0, 0,
    7, 0, 0, 0, 66, 46, 99, 108, 97, 115, 115]

/-- The bytes of a record of `emptyEntry`, whose extra field claims 2^63 bytes for it. -/
def boundlessRecord (offset : UInt8) : Bytes :=
  [80, 75, 1, 2, 45, 0, 20, 0, 0, 0, 0, 0, 0, 0, 33, 0, 0, 0, 0, 0, 0, 0, 0, 0,
    0xFF, 0xFF, 0xFF, 0xFF, 7, 0, 12, 0, 0, 0, 0, 0, 0, 0, 0, 0, 0, 0, offset, 0, 0, 0,
    66, 46, 99, 108, 97, 115, 115, 1, 0, 8, 0, 0, 0, 0, 0, 0, 0, 0, 0x80]

/-- The bytes of the end of an archive whose records take `size` bytes from `offset` on. -/
def endRecord (count size offset : UInt8) : Bytes :=
  [80, 75, 5, 6, 0, 0, 0, 0, count, 0, count, 0, size, 0, 0, 0, offset, 0, 0, 0, 0, 0]

end JvmCalls.Archive

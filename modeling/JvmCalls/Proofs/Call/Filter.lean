import JvmCalls.Call.Filter

/-!
# What a filter keeps out

A filter with prefixes rejects the names that start with none of them.  The
filter without prefixes rejects nothing.  What a filter with prefixes lets through starts
with one of them.
-/

namespace JvmCalls.TypeFilter

/-- The filter has prefixes, and the name starts with none of them. -/
def Rejects (filter : TypeFilter) (name : String) : Prop :=
  filter.prefixes ≠ [] ∧ ∀ start ∈ filter.prefixes, ¬ start.toList <+: name.toList

theorem excludes_iff_rejects {filter : TypeFilter} {name : String} :
    filter.excludes name = true ↔ filter.Rejects name := by
  simp only [excludes, isEmpty, Rejects, Bool.and_eq_true, Bool.not_eq_true',
    List.isEmpty_eq_false_iff, List.all_eq_true, ← List.isPrefixOf_iff_prefix,
    Bool.not_eq_true]

instance (filter : TypeFilter) (name : String) : Decidable (filter.Rejects name) :=
  decidable_of_iff _ excludes_iff_rejects

theorem includes_eq_not_rejects (filter : TypeFilter) (name : String) :
    filter.includes name = decide (¬ filter.Rejects name) := by
  rw [includes, Bool.eq_iff_iff, Bool.not_eq_true', decide_eq_true_iff,
    ← excludes_iff_rejects, Bool.not_eq_true]

/-- One of the prefixes is a start of the name. -/
def Covers (filter : TypeFilter) (name : String) : Prop :=
  ∃ start ∈ filter.prefixes, start.toList <+: name.toList

instance (filter : TypeFilter) (name : String) : Decidable (filter.Covers name) :=
  decidable_of_iff (∃ start ∈ filter.prefixes, start.toList.isPrefixOf name.toList = true)
    (by simp only [Covers, List.isPrefixOf_iff_prefix])

/-- A filter lets a name through if it has no prefixes, or one that the name starts
with. -/
theorem includes_iff {filter : TypeFilter} {name : String} :
    filter.includes name = true ↔ filter.prefixes = [] ∨ filter.Covers name := by
  rw [includes_eq_not_rejects, decide_eq_true_iff]
  constructor
  · intro hlets
    by_cases hprefixes : filter.prefixes = []
    · exact .inl hprefixes
    · apply Or.inr
      apply Decidable.byContradiction
      intro hnone
      exact hlets ⟨hprefixes, fun start hmem hstart => hnone ⟨start, hmem, hstart⟩⟩
  · rintro (hnone | ⟨start, hmem, hstart⟩) ⟨hprefixes, hrejects⟩
    · exact hprefixes hnone
    · exact hrejects start hmem hstart

theorem covers_of_includes {filter : TypeFilter} {name : String}
    (hprefixes : filter.prefixes ≠ []) (hincludes : filter.includes name = true) :
    filter.Covers name :=
  (includes_iff.mp hincludes).resolve_left hprefixes

end JvmCalls.TypeFilter

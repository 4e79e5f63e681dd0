import Mathlib.Data.List.Forall2

/-!
# Outcomes of steps that may fail

A computation with faults succeeds exactly if each of its steps does.  The
statements here say so for two steps and for one step on each item of a list.
-/

namespace JvmCalls.Outcome

variable {Flaw Item Value Result : Type}

/-- Two steps succeed exactly if the first one does and the second one does
with its value. -/
theorem bind_eq_ok_iff {first : Except Flaw Value} {next : Value → Except Flaw Result}
    {result : Result} :
    (first >>= next) = .ok result ↔ ∃ value, first = .ok value ∧ next value = .ok result := by
  cases first with
  | ok value =>
      constructor
      · intro hresult
        exact ⟨value, rfl, hresult⟩
      · rintro ⟨_, hfirst, hresult⟩
        cases hfirst
        exact hresult
  | error flaw =>
      constructor
      · intro hresult
        cases hresult
      · rintro ⟨_, hfirst, _⟩
        cases hfirst

section State

variable {State : Type} {first : EStateM Flaw State Value}
variable {next : Value → EStateM Flaw State Result} {before middle after : State}

theorem run_bind_of_ok {value : Value} (hfirst : first before = .ok value middle) :
    (first >>= next) before = next value middle := by
  simp only [bind, EStateM.bind, hfirst]

theorem run_bind_of_error {flaw : Flaw} (hfirst : first before = .error flaw middle) :
    (first >>= next) before = .error flaw middle := by
  simp only [bind, EStateM.bind, hfirst]

theorem run_map_of_ok {convert : Value → Result} {value : Value}
    (hfirst : first before = .ok value middle) :
    (convert <$> first) before = .ok (convert value) middle := by
  simp only [Functor.map, EStateM.map, hfirst]

theorem run_map_of_error {convert : Value → Result} {flaw : Flaw}
    (hfirst : first before = .error flaw middle) :
    (convert <$> first) before = .error flaw middle := by
  simp only [Functor.map, EStateM.map, hfirst]

/-- Two steps that change a state succeed exactly if the first one does and the
second one does from there. -/
theorem run_bind_eq_ok_iff {result : Result} :
    (first >>= next) before = .ok result after ↔
      ∃ value middle, first before = .ok value middle ∧ next value middle = .ok result after := by
  cases hfirst : first before with
  | ok value middle =>
      rw [run_bind_of_ok hfirst]
      constructor
      · intro hresult
        exact ⟨value, middle, rfl, hresult⟩
      · rintro ⟨_, _, hvalue, hresult⟩
        cases hvalue
        exact hresult
  | error flaw middle => simp [run_bind_of_error hfirst]

/-- Converting the value of a step changes nothing else. -/
theorem run_return_eq_ok_iff {convert : Value → Result} {result : Result} :
    (first >>= fun value => pure (convert value)) before = .ok result after ↔
      ∃ value, first before = .ok value after ∧ convert value = result := by
  rw [run_bind_eq_ok_iff]
  constructor
  · rintro ⟨value, middle, hvalue, hresult⟩
    cases hresult
    exact ⟨value, hvalue, rfl⟩
  · rintro ⟨value, hvalue, rfl⟩
    exact ⟨value, after, hvalue, rfl⟩

def verdict : EStateM.Result Flaw State Value → Except Flaw Value
  | .ok value _ => .ok value
  | .error flaw _ => .error flaw

def final : EStateM.Result Flaw State Value → State
  | .ok _ state => state
  | .error _ state => state

end State

theorem map_eq_ok_iff {first : Except Flaw Value} {convert : Value → Result}
    {result : Result} :
    convert <$> first = .ok result ↔ ∃ value, first = .ok value ∧ convert value = result := by
  cases first with
  | ok value => simp [Functor.map, Except.map]
  | error flaw => simp [Functor.map, Except.map]

/-- A step on each item succeeds exactly if it does on every one of them. -/
theorem forM_eq_ok_iff {items : List Item} {step : Item → Except Flaw Unit} :
    items.forM step = .ok () ↔ ∀ item ∈ items, step item = .ok () := by
  induction items with
  | nil =>
      constructor
      · intro _ item hmem
        cases hmem
      · intro _
        rfl
  | cons item items ih =>
      rw [List.forall_mem_cons, ← ih]
      change (step item >>= fun _ => items.forM step) = .ok () ↔ _
      rw [bind_eq_ok_iff]
      constructor
      · rintro ⟨_, hitem, hitems⟩
        exact ⟨hitem, hitems⟩
      · rintro ⟨hitem, hitems⟩
        exact ⟨_, hitem, hitems⟩

/-- The results of a step on each item are those of the single steps. -/
theorem mapM_eq_ok_of_forall₂ {items : List Item} {step : Item → Except Flaw Value}
    {values : List Value}
    (hsteps : List.Forall₂ (fun item value => step item = .ok value) items values) :
    items.mapM step = .ok values := by
  induction hsteps with
  | nil => rfl
  | cons hitem _ ih =>
      rw [List.mapM_cons, hitem, ih]
      rfl

/-- A step that converts every item converts the list of them. -/
theorem mapM_eq_ok_map {items : List Item} {step : Item → Except Flaw Value}
    {convert : Item → Value} (hsteps : ∀ item ∈ items, step item = .ok (convert item)) :
    items.mapM step = .ok (items.map convert) := by
  apply mapM_eq_ok_of_forall₂
  rw [List.forall₂_map_right_iff, List.forall₂_same]
  exact hsteps

/-- A step that succeeds on each converted item succeeds on all of them. -/
theorem mapM_map_eq_some {Middle : Type} {items : List Item} {convert : Item → Middle}
    {step : Middle → Option Value} {result : Item → Value}
    (hstep : ∀ item, step (convert item) = some (result item)) :
    (items.map convert).mapM step = some (items.map result) := by
  have hsteps : step ∘ convert = fun item => pure (result item) := by
    funext item
    exact hstep item
  rw [List.mapM_map, hsteps, List.mapM_pure]
  rfl

/-- Items that give nothing may be left out of what all items give together. -/
theorem flatten_mapM_filter {items : List Item} {step : Item → Except Flaw (List Value)}
    {keeps : Item → Bool}
    (hnothing : ∀ item ∈ items, keeps item = false → step item = .ok []) :
    List.flatten <$> (items.filter keeps).mapM step = List.flatten <$> items.mapM step := by
  induction items with
  | nil => rfl
  | cons item items ih =>
      rw [List.forall_mem_cons] at hnothing
      have hrest := ih hnothing.2
      cases hkeeps : keeps item with
      | true =>
          rw [List.filter_cons_of_pos hkeeps, List.mapM_cons, List.mapM_cons, map_bind, map_bind]
          apply bind_congr
          intro values
          simpa only [bind_pure_comp, Functor.map_map, List.flatten_cons, Function.comp_def] using
            congrArg (Functor.map (values ++ ·)) hrest
      | false =>
          rw [List.filter_cons_of_neg (by rw [hkeeps]; exact Bool.false_ne_true), hrest,
            List.mapM_cons, hnothing.1 hkeeps]
          change _ = List.flatten <$> (items.mapM step >>= fun rest => pure ([] :: rest))
          simp only [bind_pure_comp, Functor.map_map, List.flatten_cons, List.nil_append]

/-- Values for each item make up a list of values for all of them. -/
theorem exists_forall₂ {items : List Item} {related : Item → Value → Prop}
    (hvalues : ∀ item ∈ items, ∃ value, related item value) :
    ∃ values, List.Forall₂ related items values := by
  induction items with
  | nil => exact ⟨[], List.Forall₂.nil⟩
  | cons item items ih =>
      rw [List.forall_mem_cons] at hvalues
      obtain ⟨value, hvalue⟩ := hvalues.1
      obtain ⟨values, hrest⟩ := ih hvalues.2
      exact ⟨value :: values, List.Forall₂.cons hvalue hrest⟩

theorem exists_of_mem_right {items : List Item} {values : List Value}
    {related : Item → Value → Prop} (hrelated : List.Forall₂ related items values)
    {value : Value} (hmem : value ∈ values) : ∃ item ∈ items, related item value := by
  induction hrelated with
  | nil => cases hmem
  | cons hitem _ ih =>
      rcases List.mem_cons.mp hmem with rfl | hrest
      · exact ⟨_, List.mem_cons_self, hitem⟩
      · obtain ⟨item, hitems, hvalue⟩ := ih hrest
        exact ⟨item, List.mem_cons_of_mem _ hitems, hvalue⟩

end JvmCalls.Outcome

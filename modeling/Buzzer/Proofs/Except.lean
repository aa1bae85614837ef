import Mathlib.Data.List.Forall2

/-!
Steps that can fail. Several of them fail at the first that does, and otherwise have all their results.
-/
namespace Buzzer

theorem exists_of_bind_eq_ok {α β ε : Type} {first : Except ε α} {next : α → Except ε β} {result : β}
    (found : first >>= next = .ok result) : ∃ value, first = .ok value ∧ next value = .ok result := by
  cases first with
  | error error => cases found
  | ok value => exact ⟨value, rfl, found⟩

theorem mapError_eq_ok {α ε ε' : Type} {answer : Except ε α} {convert : ε → ε'} {value : α} :
    answer.mapError convert = .ok value ↔ answer = .ok value := by
  cases answer with
  | error error => simp only [Except.mapError, reduceCtorEq]
  | ok found => simp only [Except.mapError, Except.ok.injEq]

/-! Steps that can fail, taken one after another. -/

section Steps

variable {α β ε : Type} {step : α → Except ε β} {entries : List α}

/-- Steps that have all succeeded have a result each. -/
theorem forall₂_of_mapM {results : List β} (done : entries.mapM step = .ok results) :
    List.Forall₂ (fun entry result => step entry = .ok result) entries results := by
  induction entries generalizing results with
  | nil =>
    cases done
    exact .nil
  | cons first later ih =>
    rw [List.mapM_cons] at done
    cases head : step first with
    | error error =>
      rw [head] at done
      cases done
    | ok result =>
      rw [head] at done
      cases tail : later.mapM step with
      | error error =>
        rw [tail] at done
        cases done
      | ok laterResults =>
        rw [tail] at done
        cases done
        exact .cons head (ih tail)

theorem exists_of_mapM_eq_error {error : ε} (failed : entries.mapM step = .error error) :
    ∃ before entry after, entries = before ++ entry :: after ∧ step entry = .error error ∧
      ∀ earlier ∈ before, ∃ result, step earlier = .ok result := by
  induction entries with
  | nil => cases failed
  | cons first later ih =>
    rw [List.mapM_cons] at failed
    cases head : step first with
    | error failure =>
      rw [head] at failed
      cases failed
      exact ⟨[], first, later, rfl, head, fun _ absurd => by cases absurd⟩
    | ok result =>
      rw [head] at failed
      cases tail : later.mapM step with
      | ok laterResults =>
        rw [tail] at failed
        cases failed
      | error failure =>
        rw [tail] at failed
        cases failed
        obtain ⟨before, entry, after, rfl, fails, passes⟩ := ih tail
        exact ⟨first :: before, entry, after, rfl, fails,
          List.forall_mem_cons.mpr ⟨⟨result, head⟩, passes⟩⟩

/-- The step after some that succeed decides, if it fails. -/
theorem mapM_append_eq_error {before : List α} {entry : α} {error : ε}
    (passes : ∀ earlier ∈ before, ∃ result, step earlier = .ok result)
    (fails : step entry = .error error) (after : List α) :
    (before ++ entry :: after).mapM step = .error error := by
  induction before with
  | nil =>
    rw [List.nil_append, List.mapM_cons, fails]
    rfl
  | cons first before ih =>
    rw [List.forall_mem_cons] at passes
    obtain ⟨⟨result, head⟩, passes⟩ := passes
    rw [List.cons_append, List.mapM_cons, head, ih passes]
    rfl

end Steps

/-! Going through a list until something is refused. -/

theorem forM_eq_ok_iff {α ε : Type} {check : α → Except ε Unit} {values : List α} :
    values.forM check = .ok () ↔ ∀ value ∈ values, check value = .ok () := by
  induction values with
  | nil => simp [pure, Except.pure]
  | cons value values ih =>
    rw [List.forM, List.forall_mem_cons, ← ih]
    cases check value with
    | error error => simp [bind, Except.bind]
    | ok _ => simp [bind, Except.bind]

/-- What is refused is the first value that is not accepted. -/
theorem forM_eq_error {α ε : Type} {check : α → Except ε Unit} {values : List α} {error : ε}
    (refused : values.forM check = .error error) :
    ∃ before value after, values = before ++ value :: after ∧
      (∀ earlier ∈ before, check earlier = .ok ()) ∧ check value = .error error := by
  induction values with
  | nil => cases refused
  | cons value values ih =>
    rw [List.forM] at refused
    cases first : check value with
    | error other =>
      rw [first] at refused
      cases refused
      exact ⟨[], value, values, rfl, by simp, first⟩
    | ok _ =>
      rw [first] at refused
      obtain ⟨before, later, after, rfl, accepted, failed⟩ := ih refused
      exact ⟨value :: before, later, after, rfl, List.forall_mem_cons.mpr ⟨first, accepted⟩, failed⟩

end Buzzer

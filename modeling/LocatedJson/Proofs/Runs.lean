import Mathlib

/-! Longest runs. A sequence splits in one way into a run of a class and a rest that does not
go on with it. -/
namespace LocatedJson

variable {α : Type}

/-- No element of the class stands at the front. -/
def Stops (p : α → Bool) (rest : List α) : Prop := ∀ a ∈ rest.head?, p a = false

@[simp] theorem stops_nil (p : α → Bool) : Stops p ([] : List α) := by simp [Stops]

@[simp] theorem stops_cons (p : α → Bool) (a : α) (rest : List α) :
    Stops p (a :: rest) ↔ p a = false := by simp [Stops]

theorem stops_dropWhile (p : α → Bool) (l : List α) : Stops p (l.dropWhile p) := by
  induction l with
  | nil => exact stops_nil p
  | cons a l ih =>
    by_cases h : p a = true
    · rwa [List.dropWhile_cons_of_pos h]
    · rw [List.dropWhile_cons_of_neg h, stops_cons]
      exact eq_false_of_ne_true h

theorem takeWhile_append_stop {p : α → Bool} {run rest : List α} (hrun : ∀ a ∈ run, p a = true)
    (hrest : Stops p rest) : (run ++ rest).takeWhile p = run := by
  rw [List.takeWhile_append_of_pos hrun]
  cases rest with
  | nil => simp
  | cons a rest =>
    rw [stops_cons] at hrest
    simp [hrest]

theorem dropWhile_append_stop {p : α → Bool} {run rest : List α} (hrun : ∀ a ∈ run, p a = true)
    (hrest : Stops p rest) : (run ++ rest).dropWhile p = rest := by
  rw [List.dropWhile_append_of_pos hrun]
  cases rest with
  | nil => rfl
  | cons a rest =>
    rw [stops_cons] at hrest
    simp [hrest]

theorem drop_length_takeWhile (p : α → Bool) (l : List α) :
    l.drop (l.takeWhile p).length = l.dropWhile p := by
  induction l with
  | nil => rfl
  | cons a l ih => by_cases h : p a = true <;> simp [h, ih]

end LocatedJson

/-!
# Splitting at a separator

Lines, columns and the names in a path are what stands between the occurrences of a separator.

## What is here

* `splitOn` — the parts of a list between the occurrences of an element.  There is one more than
  there are occurrences, and a part may be empty.
* `intercalate_splitOn`, `splitOn_intercalate` — splitting and joining are inverse to each other, for
  parts without the separator.
-/

set_option autoImplicit false
namespace TableStore

variable {α : Type} [DecidableEq α]

/-- The parts between the occurrences of `sep`. -/
def splitOn (sep : α) : List α → List (List α)
  | [] => [[]]
  | a :: as => if a = sep then [] :: splitOn sep as else (splitOn sep as).modifyHead (a :: ·)

theorem splitOn_ne_nil (sep : α) (as : List α) : splitOn sep as ≠ [] := by
  induction as with
  | nil => simp [splitOn]
  | cons a as ih =>
    simp only [splitOn]
    split
    · simp
    · cases h : splitOn sep as with
      | nil => exact absurd h ih
      | cons part parts => simp

/-- Joining the parts gives the list back. -/
theorem intercalate_splitOn (sep : α) (as : List α) :
    List.intercalate [sep] (splitOn sep as) = as := by
  induction as with
  | nil => rfl
  | cons a as ih =>
    simp only [splitOn]
    cases h : splitOn sep as with
    | nil => exact absurd h (splitOn_ne_nil sep as)
    | cons part parts =>
      rw [h] at ih
      split
      · next ha =>
        subst ha
        simpa [List.intercalate, List.intersperse] using ih
      · cases parts <;> simpa [List.intercalate, List.intersperse] using ih

theorem splitOn_of_notMem {sep : α} {as : List α} (h : sep ∉ as) : splitOn sep as = [as] := by
  induction as with
  | nil => rfl
  | cons a as ih =>
    rw [List.mem_cons, not_or] at h
    rw [splitOn, if_neg (Ne.symm h.1), ih h.2, List.modifyHead_cons]

/-- The part before the first separator comes first. -/
theorem splitOn_append_cons {sep : α} {part : List α} (h : sep ∉ part) (as : List α) :
    splitOn sep (part ++ sep :: as) = part :: splitOn sep as := by
  induction part with
  | nil => simp [splitOn]
  | cons a part ih =>
    rw [List.mem_cons, not_or] at h
    rw [List.cons_append, splitOn, if_neg (Ne.symm h.1), ih h.2, List.modifyHead_cons]

/-- Splitting gives back parts that were joined. -/
theorem splitOn_intercalate {sep : α} {parts : List (List α)} (hne : parts ≠ [])
    (h : ∀ part ∈ parts, sep ∉ part) : splitOn sep (List.intercalate [sep] parts) = parts := by
  induction parts with
  | nil => exact absurd rfl hne
  | cons part parts ih =>
    cases parts with
    | nil => simpa [List.intercalate] using splitOn_of_notMem (h part (by simp))
    | cons next parts =>
      have hj : List.intercalate [sep] (part :: next :: parts) =
          part ++ sep :: List.intercalate [sep] (next :: parts) := by
        simp [List.intercalate, List.intersperse]
      rw [hj, splitOn_append_cons (h part (by simp)),
        ih (by simp) fun p hp => h p (List.mem_cons_of_mem _ hp)]

end TableStore

/-!
# Finite sets with an order of enumeration

A `Distinct α` is a list without repetition.  It stands for the set of its members; the order of
the list is the order in which the members are enumerated, and nothing but an enumeration depends
on it.

## What is here

* `Distinct.insert`, `Distinct.erase` — a new member goes to the end, and removal keeps the order.
* `mem_insert`, `mem_erase` — what the two do to the set.
-/

set_option autoImplicit false
namespace TableStore

/-- A list in which no element occurs twice. -/
structure Distinct (α : Type) where
  toList : List α
  nodup : toList.Nodup
  deriving DecidableEq

namespace Distinct

variable {α : Type}

@[ext] theorem ext {s t : Distinct α} (h : s.toList = t.toList) : s = t := by
  cases s; cases t; simp_all

/-- The set without members. -/
def empty : Distinct α := ⟨[], List.nodup_nil⟩

instance : EmptyCollection (Distinct α) := ⟨empty⟩

instance : Inhabited (Distinct α) := ⟨empty⟩

instance : Membership α (Distinct α) := ⟨fun s a => a ∈ s.toList⟩

@[simp] theorem mem_toList {s : Distinct α} {a : α} : a ∈ s.toList ↔ a ∈ s := Iff.rfl

@[simp] theorem not_mem_empty (a : α) : a ∉ (∅ : Distinct α) := by
  intro h
  exact List.not_mem_nil h

/-- The number of members. -/
def size (s : Distinct α) : Nat := s.toList.length

/-- Whether there is no member. -/
def isEmpty (s : Distinct α) : Bool := s.toList.isEmpty

variable [DecidableEq α]

instance (a : α) (s : Distinct α) : Decidable (a ∈ s) :=
  inferInstanceAs (Decidable (a ∈ s.toList))

/-- Adds a member at the end, if it is new. -/
def insert (s : Distinct α) (a : α) : Distinct α :=
  if h : a ∈ s.toList then s
  else ⟨s.toList ++ [a], by
    rw [List.nodup_append]
    refine ⟨s.nodup, by simp, ?_⟩
    intro x hx y hy
    rw [List.mem_singleton] at hy
    subst hy
    exact fun e => h (e ▸ hx)⟩

theorem mem_insert {s : Distinct α} {a b : α} : b ∈ s.insert a ↔ b = a ∨ b ∈ s := by
  by_cases h : a ∈ s.toList
  · simp only [insert, h, ↓reduceDIte]
    exact ⟨Or.inr, fun e => e.elim (fun e => e ▸ h) id⟩
  · simp only [insert, h, ↓reduceDIte, ← mem_toList, List.mem_append, List.mem_singleton]
    exact Or.comm

/-- Removes a member, keeping the order of the others. -/
def erase (s : Distinct α) (a : α) : Distinct α :=
  ⟨s.toList.filter (· ≠ a), s.nodup.filter _⟩

theorem mem_erase {s : Distinct α} {a b : α} : b ∈ s.erase a ↔ b ≠ a ∧ b ∈ s := by
  simp only [erase, ← mem_toList, List.mem_filter, decide_eq_true_eq]
  exact And.comm

end Distinct
end TableStore

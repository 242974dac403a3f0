/-!
# Identifiers

Tables, pages, stored rows and transactions are named by numbers.

## What is here

* `TableId`, `PageId`, `RecordId`, `TxnId` — the names.
* `TableId.text`, `PageId.text`, `RecordId.place`, `TxnId.text` — how they are written.  A table is
  written through a `TableLabel`, which is its number unless the reader knows it by another name.
* `PageId.compare` — pages in the order of tables, within a table in the order of page numbers.
* `TxnSource.fresh` — transactions are numbered upwards and no number is given out twice.
-/

set_option autoImplicit false
namespace TableStore

/-- A table, and the file that stores it. -/
structure TableId where
  number : UInt32
  deriving DecidableEq, Repr, Inhabited

/-- A page of a table: the pages of a file are numbered from zero. -/
structure PageId where
  table : TableId
  number : Nat
  deriving DecidableEq, Repr, Inhabited

/-- The place of a stored row: a slot of a page. -/
structure RecordId where
  page : PageId
  slot : Nat
  deriving DecidableEq, Repr, Inhabited

/-- A transaction. -/
structure TxnId where
  number : Nat
  deriving DecidableEq, Repr, Inhabited

/-! ## Writing -/

/-- How a table is written inside the name of a page or of the table itself. -/
abbrev TableLabel := TableId → String

/-- A table written as its number. -/
def TableLabel.numbered : TableLabel := fun t => toString t.number.toNat

/-- A table as messages name it. -/
def TableId.text (label : TableLabel) (t : TableId) : String := s!"Table({label t})"

/-- A page as its table and its number. -/
def PageId.place (label : TableLabel) (p : PageId) : String := s!"{label p.table}:{p.number}"

/-- A page as messages name it. -/
def PageId.text (label : TableLabel) (p : PageId) : String := s!"Page({p.place label})"

/-- The place of a row as its page and its slot. -/
def RecordId.place (label : TableLabel) (r : RecordId) : String := s!"{r.page.place label}#{r.slot}"

/-- A transaction as messages name it. -/
def TxnId.text (t : TxnId) : String := s!"Txn({t.number})"

/-! ## Order -/

/-- Pages in the order of their tables, then of their numbers. -/
def PageId.compare (p q : PageId) : Ordering :=
  (Ord.compare p.table.number q.table.number).then (Ord.compare p.number q.number)

/-! ## New transactions -/

/-- A supply of transaction names: all numbers from `next` on. -/
structure TxnSource where
  next : Nat := 1

/-- The next name, and the supply without it. -/
def TxnSource.fresh (s : TxnSource) : TxnId × TxnSource := (⟨s.next⟩, ⟨s.next + 1⟩)

/-- The next `n` names in order, and the supply without them. -/
def TxnSource.take (s : TxnSource) : Nat → List TxnId × TxnSource
  | 0 => ([], s)
  | n + 1 =>
    let (t, rest) := s.fresh
    let (ts, rest) := rest.take n
    (t :: ts, rest)

theorem TxnSource.mem_take {s : TxnSource} {n : Nat} {t : TxnId} :
    t ∈ (s.take n).1 ↔ s.next ≤ t.number ∧ t.number < s.next + n := by
  induction n generalizing s with
  | zero =>
    simp only [TxnSource.take, List.not_mem_nil, Nat.add_zero, false_iff, not_and, Nat.not_lt]
    exact id
  | succ n ih =>
    obtain ⟨k⟩ := t
    simp only [TxnSource.take, TxnSource.fresh, List.mem_cons, ih, TxnId.mk.injEq]
    omega

end TableStore

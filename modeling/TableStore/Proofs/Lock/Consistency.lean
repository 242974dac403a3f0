import TableStore.Lock.Request

/-!
# The two views of the lock table agree

A lock table records every lock twice: the page knows its holders, and each holder knows its pages.
This file says what it means that the two views agree, and shows that every operation keeps them in
agreement.

## What is here

* `LockTable.readers`, `LockTable.writer?`, `LockTable.held` — the two views as total functions: a
  page without an entry has no holders, a transaction without an entry holds nothing.
* `LockTable.Consistent` — the views agree, a page is held in one mode only, a writer is alone, and
  no transaction has an empty entry.
* `Consistent.grant`, `Consistent.release`, `Consistent.releaseAll`, `Consistent.ask`,
  `Consistent.wake`, `Consistent.expire` — what every operation keeps.
* `Consistent.isFree_iff`, `Consistent.shared_of_two` — what agreement is good for: the questions
  that a table answers are answered alike by both views, and locks exclude each other.

The operations that only count waiting requests, mark victims or signal are all handled by
`SameLocks`: they change neither view.
-/

set_option autoImplicit false
namespace TableStore

/-! ## Holders and holdings

A lock is recorded twice: a page knows its readers and its writer, and a transaction knows its
pages.  Each question about locks is answered from one side only. -/

namespace Holdings

theorem isEmpty_eq_false_iff {h : Holdings} :
    h.isEmpty = false ↔ ∃ p, p ∈ h.shared ∨ p ∈ h.exclusive := by
  obtain ⟨⟨shared, _⟩, ⟨exclusive, _⟩⟩ := h
  simp only [isEmpty, Distinct.isEmpty, ← Distinct.mem_toList]
  cases shared with
  | cons p ps => exact ⟨fun _ => ⟨p, Or.inl List.mem_cons_self⟩, fun _ => rfl⟩
  | nil =>
    cases exclusive with
    | cons p ps => exact ⟨fun _ => ⟨p, Or.inr List.mem_cons_self⟩, fun _ => rfl⟩
    | nil => simp

theorem mode?_eq_exclusive_iff {h : Holdings} {p : PageId} :
    h.mode? p = some .exclusive ↔ p ∈ h.exclusive := by
  rw [mode?]
  by_cases hx : p ∈ h.exclusive
  · simp [hx]
  · by_cases hs : p ∈ h.shared <;> simp [hx, hs]

theorem mode?_eq_shared_iff {h : Holdings} {p : PageId} :
    h.mode? p = some .shared ↔ p ∈ h.shared ∧ p ∉ h.exclusive := by
  rw [mode?]
  by_cases hx : p ∈ h.exclusive
  · simp [hx]
  · by_cases hs : p ∈ h.shared <;> simp [hx, hs]

theorem mode?_eq_none_iff {h : Holdings} {p : PageId} :
    h.mode? p = none ↔ p ∉ h.shared ∧ p ∉ h.exclusive := by
  rw [mode?]
  by_cases hx : p ∈ h.exclusive
  · simp [hx]
  · by_cases hs : p ∈ h.shared <;> simp [hx, hs]

theorem mem_pages {h : Holdings} {p : PageId} :
    p ∈ h.pages ↔ p ∈ h.shared ∨ p ∈ h.exclusive := List.mem_append

end Holdings

namespace LockTable

/-- The readers of a page. -/
def readers (l : LockTable) (p : PageId) : Distinct TxnId :=
  ((l.pages.get? p).map PageLock.readers).getD ∅

/-- The writer of a page. -/
def writer? (l : LockTable) (p : PageId) : Option TxnId := (l.pages.get? p).bind PageLock.writer

/-- What a transaction holds. -/
def held (l : LockTable) (t : TxnId) : Holdings := (l.holdings.get? t).getD {}

theorem heldMode?_eq (l : LockTable) (t : TxnId) (p : PageId) :
    l.heldMode? t p = (l.held t).mode? p := by
  rw [heldMode?, held]
  cases l.holdings.get? t with
  | none => rfl
  | some h => rfl

theorem pagesHeld_eq (l : LockTable) (t : TxnId) : l.pagesHeld t = (l.held t).pages := by
  rw [pagesHeld, held]
  cases l.holdings.get? t with
  | none => rfl
  | some h => rfl

theorem mem_pagesHeld {l : LockTable} {t : TxnId} {p : PageId} :
    p ∈ l.pagesHeld t ↔ p ∈ (l.held t).shared ∨ p ∈ (l.held t).exclusive := by
  rw [pagesHeld_eq, Holdings.mem_pages]

theorem holds_iff {l : LockTable} {t : TxnId} {p : PageId} :
    l.holds t p = true ↔ p ∈ l.pagesHeld t := by
  rw [mem_pagesHeld, holds, heldMode?_eq, Option.isSome_iff_ne_none, ne_eq,
    Holdings.mode?_eq_none_iff, Decidable.not_and_iff_not_or_not, Decidable.not_not,
    Decidable.not_not]

/-! ## Agreement -/

/-- The two views of a lock table agree, and the locks that they record exclude each other. -/
structure Consistent (l : LockTable) : Prop where
  /-- The readers of a page are those that hold it shared. -/
  readers_iff : ∀ t p, t ∈ l.readers p ↔ p ∈ (l.held t).shared
  /-- The writer of a page is the one that holds it exclusively. -/
  writer_iff : ∀ t p, l.writer? p = some t ↔ p ∈ (l.held t).exclusive
  /-- A page is held in one mode only. -/
  one_mode : ∀ t p, p ∈ (l.held t).shared → p ∉ (l.held t).exclusive
  /-- A page with a writer has no readers. -/
  alone : ∀ t u p, l.writer? p = some t → u ∉ l.readers p
  /-- A transaction that holds nothing has no entry. -/
  entry : ∀ t h, l.holdings.get? t = some h → h.isEmpty = false

theorem Consistent.empty : Consistent {} where
  readers_iff _ _ :=
    ⟨fun h => absurd h (Distinct.not_mem_empty _), fun h => absurd h (Distinct.not_mem_empty _)⟩
  writer_iff _ _ := ⟨fun h => (by cases h), fun h => absurd h (Distinct.not_mem_empty _)⟩
  one_mode _ _ h := absurd h (Distinct.not_mem_empty _)
  alone _ _ _ h := by cases h
  entry _ _ h := by cases h

/-! ### Changes that leave the locks alone -/

/-- Two tables record the same locks. -/
structure SameLocks (l m : LockTable) : Prop where
  readers_eq : ∀ p, m.readers p = l.readers p
  writer_eq : ∀ p, m.writer? p = l.writer? p
  holdings_eq : ∀ t, m.holdings.get? t = l.holdings.get? t

namespace SameLocks

variable {l m n : LockTable}

theorem refl (l : LockTable) : SameLocks l l := ⟨fun _ => rfl, fun _ => rfl, fun _ => rfl⟩

theorem trans (h : SameLocks l m) (h' : SameLocks m n) : SameLocks l n :=
  ⟨fun p => (h'.readers_eq p).trans (h.readers_eq p),
    fun p => (h'.writer_eq p).trans (h.writer_eq p),
    fun t => (h'.holdings_eq t).trans (h.holdings_eq t)⟩

theorem held_eq (h : SameLocks l m) (t : TxnId) : m.held t = l.held t := by
  rw [held, held, h.holdings_eq]

theorem heldMode?_eq (h : SameLocks l m) (t : TxnId) (p : PageId) :
    m.heldMode? t p = l.heldMode? t p := by
  rw [heldMode?, heldMode?, h.holdings_eq]

theorem consistent (h : SameLocks l m) (hl : Consistent l) : Consistent m where
  readers_iff t p := by rw [h.readers_eq, h.held_eq]; exact hl.readers_iff t p
  writer_iff t p := by rw [h.writer_eq, h.held_eq]; exact hl.writer_iff t p
  one_mode t p := by rw [h.held_eq]; exact hl.one_mode t p
  alone t u p := by rw [h.writer_eq, h.readers_eq]; exact hl.alone t u p
  entry t k := by rw [h.holdings_eq]; exact hl.entry t k

/-- Replacing the lock of a page by one with the same holders. -/
theorem of_insert {p : PageId} {k j : PageLock} (hk : l.pages.get? p = some k)
    (hr : j.readers = k.readers) (hw : j.writer = k.writer) :
    SameLocks l { l with pages := l.pages.insert p j } := by
  refine ⟨fun q => ?_, fun q => ?_, fun _ => rfl⟩
  · simp only [readers, Assoc.get?_insert]
    by_cases hq : q = p
    · simp [hq, hk, hr]
    · simp [hq]
  · simp only [writer?, Assoc.get?_insert]
    by_cases hq : q = p
    · simp [hq, hk, hw]
    · simp [hq]

end SameLocks

theorem sameLocks_signal (l : LockTable) : SameLocks l l.signal :=
  ⟨fun _ => rfl, fun _ => rfl, fun _ => rfl⟩

theorem sameLocks_mark (l : LockTable) (victims : Distinct TxnId) :
    SameLocks l { l with aborted := victims } :=
  ⟨fun _ => rfl, fun _ => rfl, fun _ => rfl⟩

theorem sameLocks_unmark (l : LockTable) (t : TxnId) : SameLocks l (l.unmark t) :=
  ⟨fun _ => rfl, fun _ => rfl, fun _ => rfl⟩

theorem sameLocks_enter (l : LockTable) (p : PageId) : SameLocks l (l.enter p) := by
  rw [enter]
  split
  · exact SameLocks.refl l
  · rename_i hp
    have hnone : l.pages.get? p = none := by
      simpa [Assoc.contains] using hp
    refine ⟨fun q => ?_, fun q => ?_, fun _ => rfl⟩
    · simp only [readers, Assoc.get?_insert]
      by_cases hq : q = p
      · simp [hq, hnone]
      · simp [hq]
    · simp only [writer?, Assoc.get?_insert]
      by_cases hq : q = p
      · simp [hq, hnone]
      · simp [hq]

theorem sameLocks_startWaiting (l : LockTable) (r : Request) : SameLocks l (l.startWaiting r) := by
  rw [startWaiting]
  cases r.mode with
  | shared => exact SameLocks.refl l
  | exclusive =>
    refine ⟨fun q => ?_, fun q => ?_, fun _ => rfl⟩
    · simp only [readers, Assoc.get?_modify]
      split
      · cases l.pages.get? q <;> rfl
      · rfl
    · simp only [writer?, Assoc.get?_modify]
      split
      · cases l.pages.get? q <;> rfl
      · rfl

theorem sameLocks_stopWaiting (l : LockTable) (r : Request) : SameLocks l (l.stopWaiting r) := by
  rw [stopWaiting]
  split
  · rename_i k _ hk
    have h := SameLocks.of_insert (j := { k with waiting := k.waiting - 1 }) hk rfl rfl
    dsimp only
    split
    · exact h.trans (sameLocks_signal _)
    · exact h
  · exact SameLocks.refl l

/-! ### Taking a lock -/

section Grant

variable {l : LockTable} {t : TxnId} {p : PageId} {k : PageLock}

theorem writer?_of_get? (hk : l.pages.get? p = some k) : l.writer? p = k.writer := by
  rw [writer?, hk, Option.bind_some]

theorem readers_of_get? (hk : l.pages.get? p = some k) : l.readers p = k.readers := by
  rw [readers, hk, Option.map_some, Option.getD_some]

theorem grant_shared_eq (hk : l.pages.get? p = some k) (hw : l.writer? p ≠ some t) :
    l.grant t p .shared =
      { l with
        pages := l.pages.insert p { k with readers := (l.readers p).insert t }
        holdings := l.holdings.insert t { l.held t with shared := (l.held t).shared.insert p } } := by
  rw [writer?_of_get? hk] at hw
  rw [readers_of_get? hk]
  simp only [grant, hk, if_neg hw, held]

theorem grant_exclusive_eq (hk : l.pages.get? p = some k) :
    l.grant t p .exclusive =
      { l with
        pages := l.pages.insert p { k with readers := (l.readers p).erase t, writer := some t }
        holdings := l.holdings.insert t
          ⟨(l.held t).shared.erase p, (l.held t).exclusive.insert p⟩ } := by
  rw [readers_of_get? hk]
  simp only [grant, hk, held]

/-- A shared lock is of no use to the writer of the page. -/
theorem sameLocks_grant_shared (h : Consistent l) (hw : l.writer? p = some t) :
    SameLocks l (l.grant t p .shared) := by
  obtain ⟨k, hk⟩ : ∃ k, l.pages.get? p = some k := by
    cases hk : l.pages.get? p with
    | none => rw [writer?, hk] at hw; cases hw
    | some k => exact ⟨k, rfl⟩
  obtain ⟨held, hheld⟩ : ∃ held, l.holdings.get? t = some held := by
    cases hh : l.holdings.get? t with
    | none =>
      have hx := (h.writer_iff t p).1 hw
      rw [LockTable.held, hh] at hx
      exact absurd hx (Distinct.not_mem_empty _)
    | some held => exact ⟨held, rfl⟩
  rw [writer?_of_get? hk] at hw
  simp only [grant, hk, hw, ↓reduceIte, hheld, Option.getD_some]
  refine ⟨fun _ => rfl, fun _ => rfl, fun u => ?_⟩
  simp only [Assoc.get?_insert]
  split
  · rename_i hu; rw [hu, hheld]
  · rfl

theorem get?_of_admits {r : Request} (ha : l.admits r = true) :
    ∃ k, l.pages.get? r.page = some k ∧ k.admits r.txn r.mode = true := by
  rw [admits] at ha
  cases hk : l.pages.get? r.page with
  | none => rw [hk] at ha; cases ha
  | some k => rw [hk] at ha; exact ⟨k, rfl, ha⟩

/-- Nobody else writes a page that admits a request. -/
theorem writer?_of_admits {r : Request} {w : TxnId} (ha : l.admits r = true)
    (hw : l.writer? r.page = some w) : w = r.txn := by
  obtain ⟨k, hk, ha⟩ := get?_of_admits ha
  rw [writer?_of_get? hk] at hw
  simpa [PageLock.admits, hw] using ha

/-- Nobody else reads a page that admits a request for an exclusive lock. -/
theorem readers_of_admits (h : Consistent l) {r : Request} {u : TxnId} (ha : l.admits r = true)
    (hm : r.mode = .exclusive) (hu : u ∈ l.readers r.page) : u = r.txn := by
  obtain ⟨k, hk, ha⟩ := get?_of_admits ha
  cases hw : l.writer? r.page with
  | some w => exact absurd hu (h.alone w u r.page hw)
  | none =>
    rw [writer?_of_get? hk] at hw
    rw [readers_of_get? hk] at hu
    simp only [PageLock.admits, hw, hm, List.all_eq_true, decide_eq_true_eq] at ha
    exact ha u hu

end Grant

/-! A grant writes one entry in each view; these are the views after such a write. -/

section Write

variable (l : LockTable) (t u : TxnId) (p q : PageId) (k : PageLock) (hd : Holdings)

theorem readers_write :
    readers { l with pages := l.pages.insert p k, holdings := l.holdings.insert t hd } q =
      if q = p then k.readers else l.readers q := by
  simp only [readers, Assoc.get?_insert]
  split <;> rfl

theorem writer?_write :
    writer? { l with pages := l.pages.insert p k, holdings := l.holdings.insert t hd } q =
      if q = p then k.writer else l.writer? q := by
  simp only [writer?, Assoc.get?_insert]
  split <;> rfl

theorem held_write :
    held { l with pages := l.pages.insert p k, holdings := l.holdings.insert t hd } u =
      if u = t then hd else l.held u := by
  simp only [held, Assoc.get?_insert]
  split <;> rfl

end Write

variable {l : LockTable}

theorem Consistent.grant_shared (h : Consistent l) {t : TxnId} {p : PageId} {k : PageLock}
    (hk : l.pages.get? p = some k) (hw : l.writer? p = none) : Consistent (l.grant t p .shared) := by
  rw [grant_shared_eq hk fun he => by rw [hw] at he; cases he]
  generalize hm : ({ l with pages := _, holdings := _ } : LockTable) = m
  have hreaders : ∀ u q, u ∈ m.readers q ↔ u ∈ l.readers q ∨ u = t ∧ q = p := fun u q => by
    rw [← hm, readers_write]
    by_cases hq : q = p
    · simp [hq, Distinct.mem_insert, or_comm]
    · simp [hq]
  have hwriter : ∀ q, m.writer? q = l.writer? q := fun q => by
    rw [← hm, writer?_write]
    by_cases hq : q = p
    · rw [if_pos hq, hq, writer?_of_get? hk]
    · rw [if_neg hq]
  have hshared : ∀ u q, q ∈ (m.held u).shared ↔ q ∈ (l.held u).shared ∨ u = t ∧ q = p :=
    fun u q => by
      rw [← hm, held_write]
      by_cases hu : u = t
      · simp [hu, Distinct.mem_insert, or_comm]
      · simp [hu]
  have hexclusive : ∀ u, (m.held u).exclusive = (l.held u).exclusive := fun u => by
    rw [← hm, held_write]
    by_cases hu : u = t
    · rw [if_pos hu, hu]
    · rw [if_neg hu]
  refine ⟨fun u q => ?_, fun u q => ?_, fun u q => ?_, fun u v q => ?_, fun u hd => ?_⟩
  · rw [hreaders, hshared, h.readers_iff]
  · rw [hwriter, hexclusive, h.writer_iff]
  · rw [hshared, hexclusive]
    rintro (hs | ⟨-, rfl⟩) hx
    · exact h.one_mode u q hs hx
    · rw [← h.writer_iff, hw] at hx
      cases hx
  · rw [hwriter, hreaders]
    rintro hx (hs | ⟨-, rfl⟩)
    · exact h.alone u v q hx hs
    · rw [hw] at hx
      cases hx
  · rw [← hm, Assoc.get?_insert]
    split
    · rintro ⟨⟩
      exact Holdings.isEmpty_eq_false_iff.2 ⟨p, Or.inl (Distinct.mem_insert.2 (Or.inl rfl))⟩
    · exact h.entry u hd

theorem Consistent.grant_exclusive (h : Consistent l) {t : TxnId} {p : PageId} {k : PageLock}
    (hk : l.pages.get? p = some k) (hw : ∀ w, l.writer? p = some w → w = t)
    (hr : ∀ u, u ∈ l.readers p → u = t) : Consistent (l.grant t p .exclusive) := by
  rw [grant_exclusive_eq hk]
  generalize hm : ({ l with pages := _, holdings := _ } : LockTable) = m
  have hreaders : ∀ u q, u ∈ m.readers q ↔ u ∈ l.readers q ∧ ¬(u = t ∧ q = p) := fun u q => by
    rw [← hm, readers_write]
    by_cases hq : q = p
    · simp [hq, Distinct.mem_erase, and_comm]
    · simp [hq]
  have hwriter : ∀ u q, m.writer? q = some u ↔ l.writer? q = some u ∨ u = t ∧ q = p :=
    fun u q => by
      rw [← hm, writer?_write]
      by_cases hq : q = p
      · subst hq
        simp only [↓reduceIte, Option.some.injEq, and_true]
        exact ⟨fun he => Or.inr he.symm, fun he => (he.elim (hw u) id).symm⟩
      · simp [hq]
  have hshared : ∀ u q, q ∈ (m.held u).shared ↔ q ∈ (l.held u).shared ∧ ¬(u = t ∧ q = p) :=
    fun u q => by
      rw [← hm, held_write]
      by_cases hu : u = t
      · simp [hu, Distinct.mem_erase, and_comm]
      · simp [hu]
  have hexclusive : ∀ u q,
      q ∈ (m.held u).exclusive ↔ q ∈ (l.held u).exclusive ∨ u = t ∧ q = p := fun u q => by
    rw [← hm, held_write]
    by_cases hu : u = t
    · simp [hu, Distinct.mem_insert, or_comm]
    · simp [hu]
  refine ⟨fun u q => ?_, fun u q => ?_, fun u q => ?_, fun u v q => ?_, fun u hd => ?_⟩
  · rw [hreaders, hshared, h.readers_iff]
  · rw [hwriter, hexclusive, h.writer_iff]
  · rw [hshared, hexclusive]
    rintro ⟨hs, hne⟩ (hx | he)
    · exact h.one_mode u q hs hx
    · exact hne he
  · rw [hwriter, hreaders]
    rintro (hx | ⟨rfl, rfl⟩) ⟨hs, hne⟩
    · exact h.alone u v q hx hs
    · exact hne ⟨hr v hs, rfl⟩
  · rw [← hm, Assoc.get?_insert]
    split
    · rintro ⟨⟩
      exact Holdings.isEmpty_eq_false_iff.2 ⟨p, Or.inr (Distinct.mem_insert.2 (Or.inl rfl))⟩
    · exact h.entry u hd

/-- Granting a request that the page admits keeps the views in agreement. -/
theorem Consistent.grant (h : Consistent l) {r : Request} (ha : l.admits r = true) :
    Consistent (l.grant r.txn r.page r.mode) := by
  obtain ⟨k, hk, -⟩ := get?_of_admits ha
  cases hm : r.mode with
  | shared =>
    cases hw : l.writer? r.page with
    | none => exact h.grant_shared hk hw
    | some w =>
      obtain rfl := writer?_of_admits ha hw
      exact (sameLocks_grant_shared h hw).consistent h
  | exclusive =>
    exact h.grant_exclusive hk (fun w => writer?_of_admits ha) fun u => readers_of_admits h ha hm

/-! ### Giving locks back

The end of a transaction goes through its pages and drops it from each.  In between the two sides do
not agree, so the loop is described for any list of pages before it is applied to those that the
transaction holds. -/

section Release

variable {t u : TxnId} {p q : PageId}

theorem mem_readers_dropHolder :
    u ∈ (l.dropHolder t p).readers q ↔ u ∈ l.readers q ∧ ¬(u = t ∧ q = p) := by
  simp only [readers, dropHolder, Assoc.get?_modify]
  by_cases hq : q = p
  · cases l.pages.get? q with
    | none => simp [hq]
    | some k => simp [hq, PageLock.without, Distinct.mem_erase, and_comm]
  · simp [hq]

theorem writer?_dropHolder_eq_some :
    (l.dropHolder t p).writer? q = some u ↔ l.writer? q = some u ∧ ¬(u = t ∧ q = p) := by
  simp only [writer?, dropHolder, Assoc.get?_modify]
  by_cases hq : q = p
  · cases l.pages.get? q with
    | none => simp [hq]
    | some k =>
      by_cases hw : k.writer = some t
      · simp [hq, PageLock.without, hw, eq_comm]
      · simp only [hq, ↓reduceIte, Option.map_some, Option.bind_some, PageLock.without, hw, and_true]
        exact ⟨fun e => ⟨e, fun hu => hw (hu ▸ e)⟩, And.left⟩
  · simp [hq]

theorem mem_readers_foldl_dropHolder {ps : List PageId} :
    u ∈ (ps.foldl (fun l p => l.dropHolder t p) l).readers q ↔
      u ∈ l.readers q ∧ ¬(u = t ∧ q ∈ ps) := by
  induction ps generalizing l with
  | nil => simp
  | cons p ps ih =>
    rw [List.foldl_cons, ih, mem_readers_dropHolder, List.mem_cons]
    grind

theorem writer?_foldl_dropHolder {ps : List PageId} :
    (ps.foldl (fun l p => l.dropHolder t p) l).writer? q = some u ↔
      l.writer? q = some u ∧ ¬(u = t ∧ q ∈ ps) := by
  induction ps generalizing l with
  | nil => simp
  | cons p ps ih =>
    rw [List.foldl_cons, ih, writer?_dropHolder_eq_some, List.mem_cons]
    grind

theorem holdings_foldl_dropHolder {ps : List PageId} :
    (ps.foldl (fun l p => l.dropHolder t p) l).holdings = l.holdings := by
  induction ps generalizing l with
  | nil => rfl
  | cons p ps ih => rw [List.foldl_cons, ih]; rfl

theorem get?_holdings_releaseAll (l : LockTable) (t u : TxnId) :
    (l.releaseAll t).holdings.get? u = if u = t then none else l.holdings.get? u := by
  rw [LockTable.releaseAll]
  cases ht : l.holdings.get? t with
  | none =>
    by_cases hu : u = t
    · rw [if_pos hu, hu]; exact ht
    · rw [if_neg hu]
  | some hd =>
    dsimp only [signal]
    rw [holdings_foldl_dropHolder, Assoc.get?_erase]

theorem held_releaseAll (l : LockTable) (t u : TxnId) :
    (l.releaseAll t).held u = if u = t then {} else l.held u := by
  rw [held, get?_holdings_releaseAll]
  split <;> rfl

theorem mem_readers_releaseAll (h : Consistent l) :
    u ∈ (l.releaseAll t).readers q ↔ u ∈ l.readers q ∧ u ≠ t := by
  have hiff := h.readers_iff u q
  rw [LockTable.releaseAll]
  cases ht : l.holdings.get? t with
  | none =>
    refine ⟨fun hu => ⟨hu, ?_⟩, And.left⟩
    rintro rfl
    rw [held, ht] at hiff
    exact Distinct.not_mem_empty _ (hiff.1 hu)
  | some hd =>
    refine (mem_readers_foldl_dropHolder (l := { l with holdings := _ })).trans ?_
    refine and_congr_right fun hu => ⟨?_, fun hne hut => hne hut.1⟩
    rintro hnot rfl
    rw [held, ht] at hiff
    exact hnot ⟨rfl, Holdings.mem_pages.2 (Or.inl (hiff.1 hu))⟩

theorem writer?_releaseAll (h : Consistent l) :
    (l.releaseAll t).writer? q = some u ↔ l.writer? q = some u ∧ u ≠ t := by
  have hiff := h.writer_iff u q
  rw [LockTable.releaseAll]
  cases ht : l.holdings.get? t with
  | none =>
    refine ⟨fun hu => ⟨hu, ?_⟩, And.left⟩
    rintro rfl
    rw [held, ht] at hiff
    exact Distinct.not_mem_empty _ (hiff.1 hu)
  | some hd =>
    refine (writer?_foldl_dropHolder (l := { l with holdings := _ })).trans ?_
    refine and_congr_right fun hu => ⟨?_, fun hne hut => hne hut.1⟩
    rintro hnot rfl
    rw [held, ht] at hiff
    exact hnot ⟨rfl, Holdings.mem_pages.2 (Or.inr (hiff.1 hu))⟩

/-- Giving back all locks of a transaction keeps the views in agreement. -/
theorem Consistent.releaseAll (h : Consistent l) (t : TxnId) : Consistent (l.releaseAll t) := by
  refine ⟨fun u q => ?_, fun u q => ?_, fun u q => ?_, fun u v q => ?_, fun u k => ?_⟩
  · rw [mem_readers_releaseAll h, held_releaseAll, h.readers_iff]
    by_cases hu : u = t
    · simp [hu]
    · simp [hu]
  · rw [writer?_releaseAll h, held_releaseAll, h.writer_iff]
    by_cases hu : u = t
    · simp [hu]
    · simp [hu]
  · rw [held_releaseAll]
    split
    · exact fun hs => absurd hs (Distinct.not_mem_empty _)
    · exact h.one_mode u q
  · rw [writer?_releaseAll h, mem_readers_releaseAll h]
    exact fun hw hv => h.alone u v q hw.1 hv.1
  · rw [get?_holdings_releaseAll]
    split
    · intro he
      cases he
    · exact h.entry u k

/-- Ending a transaction keeps the views in agreement. -/
theorem Consistent.complete (h : Consistent l) (t : TxnId) : Consistent (l.complete t) :=
  (sameLocks_unmark _ t).consistent (h.releaseAll t)

theorem readers_dropHolding (l : LockTable) (t : TxnId) (p q : PageId) :
    (l.dropHolding t p).readers q = l.readers q := by
  rw [dropHolding]
  split
  · rfl
  · dsimp only
    split <;> rfl

theorem writer?_dropHolding (l : LockTable) (t : TxnId) (p q : PageId) :
    (l.dropHolding t p).writer? q = l.writer? q := by
  rw [dropHolding]
  split
  · rfl
  · dsimp only
    split <;> rfl

theorem entry_dropHolding (h : ∀ t hd, l.holdings.get? t = some hd → hd.isEmpty = false)
    (u : TxnId) (hd : Holdings) (hu : (l.dropHolding t p).holdings.get? u = some hd) :
    hd.isEmpty = false := by
  rw [dropHolding] at hu
  split at hu
  · exact h u hd hu
  · dsimp only at hu
    split at hu
    · rw [Assoc.get?_erase] at hu
      split at hu
      · cases hu
      · exact h u hd hu
    · rename_i hne
      rw [Assoc.get?_insert] at hu
      split at hu
      · cases hu
        simpa using hne
      · exact h u hd hu

theorem mem_held_dropHolding :
    (q ∈ ((l.dropHolding t p).held u).shared ↔ q ∈ (l.held u).shared ∧ ¬(u = t ∧ q = p)) ∧
    (q ∈ ((l.dropHolding t p).held u).exclusive ↔
      q ∈ (l.held u).exclusive ∧ ¬(u = t ∧ q = p)) := by
  rw [dropHolding]
  cases ht : l.holdings.get? t with
  | none =>
    by_cases hu : u = t
    · simp [hu, held, ht]
    · simp [hu]
  | some hd =>
    have hheld : l.held t = hd := by rw [held, ht, Option.getD_some]
    have hw : ∀ q, (q ∈ (hd.without p).shared ↔ q ∈ hd.shared ∧ q ≠ p) ∧
        (q ∈ (hd.without p).exclusive ↔ q ∈ hd.exclusive ∧ q ≠ p) := fun q => by
      simp [Holdings.without, Distinct.mem_erase, and_comm]
    dsimp only
    split
    · rename_i he
      have hnone : ∀ q, ¬(q ∈ (hd.without p).shared ∨ q ∈ (hd.without p).exclusive) := fun q hq => by
        rw [Holdings.isEmpty_eq_false_iff.2 ⟨q, hq⟩] at he
        cases he
      have hh : held { l with holdings := l.holdings.erase t } u =
          if u = t then {} else l.held u := by
        rw [held, Assoc.get?_erase]
        split <;> rfl
      rw [hh]
      by_cases hu : u = t
      · subst hu
        have := hnone q
        rw [hheld]
        simp only [↓reduceIte, Distinct.not_mem_empty, false_iff, true_and]
        grind
      · simp [hu]
    · have hh : held { l with holdings := l.holdings.insert t (hd.without p) } u =
          if u = t then hd.without p else l.held u := by
        rw [held, Assoc.get?_insert]
        split <;> rfl
      rw [hh]
      by_cases hu : u = t
      · subst hu
        simp [hw q, hheld]
      · simp [hu]

/-- Giving back one lock keeps the views in agreement. -/
theorem Consistent.release (h : Consistent l) {m : LockTable} (hm : l.release t p = .ok m) :
    Consistent m := by
  rw [LockTable.release] at hm
  split at hm
  · cases hm
    refine (sameLocks_signal _).consistent ?_
    have hr : ∀ u q, u ∈ ((l.dropHolder t p).dropHolding t p).readers q ↔
        u ∈ l.readers q ∧ ¬(u = t ∧ q = p) := fun u q => by
      rw [readers_dropHolding, mem_readers_dropHolder]
    have hw : ∀ u q, ((l.dropHolder t p).dropHolding t p).writer? q = some u ↔
        l.writer? q = some u ∧ ¬(u = t ∧ q = p) := fun u q => by
      rw [writer?_dropHolding, writer?_dropHolder_eq_some]
    have hheld : ∀ u, (l.dropHolder t p).held u = l.held u := fun _ => rfl
    refine ⟨fun u q => ?_, fun u q => ?_, fun u q => ?_, fun u v q => ?_, fun u k => ?_⟩
    · rw [hr, mem_held_dropHolding.1, hheld, h.readers_iff]
    · rw [hw, mem_held_dropHolding.2, hheld, h.writer_iff]
    · rw [mem_held_dropHolding.1, mem_held_dropHolding.2, hheld]
      exact fun hs hx => h.one_mode u q hs.1 hx.1
    · rw [hr, hw]
      exact fun hx hs => h.alone u v q hx.1 hs.1
    · exact entry_dropHolding (l := l.dropHolder t p) h.entry u k
  · cases hm

end Release

/-! ### Asking and waiting -/

/-- The first look at a request keeps the views in agreement. -/
theorem Consistent.ask (h : Consistent l) (r : Request) : Consistent (l.ask r).2 := by
  rw [LockTable.ask]
  have he := (sameLocks_enter l r.page).consistent h
  split
  · exact h
  · dsimp only
    split
    · rename_i ha
      exact he.grant ha
    · exact (sameLocks_startWaiting _ r).consistent he

/-- That a request stops waiting makes no difference to whether it is admitted itself. -/
theorem admits_stopWaiting (l : LockTable) (r : Request) :
    (l.stopWaiting r).admits r = l.admits r := by
  rw [stopWaiting]
  split
  · rename_i k hm hk
    have hk' : ({ k with waiting := k.waiting - 1 } : PageLock).admits r.txn .exclusive =
        k.admits r.txn .exclusive := by
      rw [PageLock.admits.eq_def, PageLock.admits.eq_def]
      cases k.writer <;> rfl
    dsimp only
    split
    · simp only [admits, signal, Assoc.get?_insert, ↓reduceIte, hm, hk, Option.map_some, hk']
    · simp only [admits, Assoc.get?_insert, ↓reduceIte, hm, hk, Option.map_some, hk']
  · rfl

theorem Consistent.grant_stopWaiting (h : Consistent l) {r : Request} (ha : l.admits r = true) :
    Consistent ((l.stopWaiting r).grant r.txn r.page r.mode) :=
  ((sameLocks_stopWaiting l r).consistent h).grant ((admits_stopWaiting l r).trans ha)

/-- Another look at a waiting request keeps the views in agreement. -/
theorem Consistent.wake (h : Consistent l) (r : Request) : Consistent (l.wake r).2 := by
  rw [LockTable.wake]
  split
  · exact (sameLocks_stopWaiting l r).consistent h
  · split
    · rename_i ha
      exact h.grant_stopWaiting ha
    · exact h

/-- The last look at a waiting request keeps the views in agreement. -/
theorem Consistent.expire (h : Consistent l) (r : Request) : Consistent (l.expire r).2 := by
  have hs := (sameLocks_stopWaiting l r).consistent h
  rw [LockTable.expire]
  split
  · exact hs
  · split
    · rename_i ha
      exact h.grant_stopWaiting ha
    · exact ((sameLocks_mark _ _).trans (sameLocks_signal _)).consistent hs

/-! ## What agreement is good for

What a page says of its holders is what its holders say of it.  So a question to one side can be
answered by the other. -/

namespace Consistent

/-- A transaction holds a page exclusively if it is the writer of the page. -/
theorem heldMode?_exclusive_iff (h : Consistent l) {t : TxnId} {p : PageId} :
    l.heldMode? t p = some .exclusive ↔ l.writer? p = some t := by
  rw [LockTable.heldMode?_eq, Holdings.mode?_eq_exclusive_iff, h.writer_iff]

/-- A transaction holds a page shared if it is a reader of the page. -/
theorem heldMode?_shared_iff (h : Consistent l) {t : TxnId} {p : PageId} :
    l.heldMode? t p = some .shared ↔ t ∈ l.readers p := by
  rw [LockTable.heldMode?_eq, Holdings.mode?_eq_shared_iff, h.readers_iff]
  exact ⟨And.left, fun hs => ⟨hs, h.one_mode t p hs⟩⟩

/-- A page that is in a set of a transaction has an entry. -/
theorem get?_of_holds (h : Consistent l) {t : TxnId} {p : PageId} (hp : l.holds t p = true) :
    ∃ k, l.pages.get? p = some k := by
  rw [holds_iff, mem_pagesHeld, ← h.readers_iff, ← h.writer_iff] at hp
  cases hk : l.pages.get? p with
  | some k => exact ⟨k, rfl⟩
  | none =>
    rw [readers, writer?, hk] at hp
    exact hp.elim (fun hr => absurd hr (Distinct.not_mem_empty _)) fun hw => by cases hw

/-- A page is free if nobody holds it. -/
theorem isFree_iff (h : Consistent l) {p : PageId} :
    l.isFree p = true ↔ ∀ t, l.holds t p = false := by
  have hholds : ∀ t, l.holds t p = true ↔ t ∈ l.readers p ∨ l.writer? p = some t := fun t => by
    rw [holds_iff, mem_pagesHeld, h.readers_iff, h.writer_iff]
  have hfree : l.isFree p = true ↔ l.writer? p = none ∧ ∀ t, t ∉ l.readers p := by
    rw [LockTable.isFree, writer?, readers]
    cases l.pages.get? p with
    | none => simp
    | some k =>
      simp only [Option.map_some, Option.getD_some, Option.bind_some, PageLock.isFree,
        Bool.and_eq_true, Option.isNone_iff_eq_none, Distinct.isEmpty, List.isEmpty_iff,
        List.eq_nil_iff_forall_not_mem, Distinct.mem_toList]
  rw [hfree]
  constructor
  · intro hf t
    rw [Bool.eq_false_iff, ne_eq, hholds, hf.1]
    exact fun ht => ht.elim (hf.2 t) fun hw => by cases hw
  · intro hn
    refine ⟨Option.eq_none_iff_forall_ne_some.2 fun t ht => ?_, fun t ht => ?_⟩
    · exact absurd ((hholds t).2 (Or.inr ht)) (Bool.eq_false_iff.1 (hn t))
    · exact absurd ((hholds t).2 (Or.inl ht)) (Bool.eq_false_iff.1 (hn t))

/-- Nobody else holds a page that is held exclusively. -/
theorem eq_of_exclusive (h : Consistent l) {t u : TxnId} {p : PageId} {m : Mode}
    (ht : l.heldMode? t p = some .exclusive) (hu : l.heldMode? u p = some m) : u = t := by
  have hw := h.heldMode?_exclusive_iff.1 ht
  cases m with
  | shared => exact absurd (h.heldMode?_shared_iff.1 hu) (h.alone t u p hw)
  | exclusive => exact Option.some.inj ((h.heldMode?_exclusive_iff.1 hu).symm.trans hw)

/-- Two transactions that hold a page both hold it shared. -/
theorem shared_of_two (h : Consistent l) {t u : TxnId} {p : PageId} {m n : Mode} (hne : t ≠ u)
    (ht : l.heldMode? t p = some m) (hu : l.heldMode? u p = some n) :
    m = .shared ∧ n = .shared := by
  refine ⟨?_, ?_⟩
  · cases m with
    | shared => rfl
    | exclusive => exact absurd (h.eq_of_exclusive ht hu).symm hne
  · cases n with
    | shared => rfl
    | exclusive => exact absurd (h.eq_of_exclusive hu ht) hne

end Consistent

end LockTable
end TableStore

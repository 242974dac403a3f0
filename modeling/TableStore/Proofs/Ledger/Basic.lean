import TableStore.Proofs.Page.Stored
import TableStore.Proofs.Pool.Session

/-!
# A simple transactional store

What transactions do to the tables can be told without caches, locks and files: there are the
committed rows, and each transaction has changed copies of some pages, which nobody else sees.  A
commit makes the copies of a transaction the committed pages, and everything else that can happen to
them is that they are dropped.

## What is here

* `Ledger` — committed rows, changed copies and victims.
* `Ledger.view` — what a transaction sees: its copy of a page, or else the committed rows.
* `Ledger.put`, `Ledger.commit`, `Ledger.abort`, `Ledger.strike` — the changes that there are.
* `Ledger.Cut` — the one thing that goes on unseen: of a committed page that is read from its file
  again, texts are left as they were stored.
* `Ledger.Step` — the changes and answers that the events of a store stand for.
* `Ledger.Run`, `Ledger.Exact` — the histories of a ledger, with cuts and without them.
* `Ledger.Run.exact` — there are no cuts where all texts fit.
-/

set_option autoImplicit false
namespace TableStore

/-- Committed rows, changed copies of pages, and the victims of deadlocks. -/
structure Ledger where
  committed : RecordId → Option Row
  /-- The rows of the copy that a transaction has of a page, by slot, if it has one. -/
  overlay : TxnId → PageId → Option (Nat → Option Row)
  victims : TxnId → Prop

namespace Ledger

@[ext] theorem ext {L M : Ledger} (hc : ∀ r, L.committed r = M.committed r)
    (ho : ∀ t p, L.overlay t p = M.overlay t p) (hv : ∀ t, L.victims t ↔ M.victims t) : L = M := by
  obtain ⟨c, o, v⟩ := L
  obtain ⟨c', o', v'⟩ := M
  obtain rfl : c = c' := funext hc
  obtain rfl : o = o' := funext fun t => funext (ho t)
  obtain rfl : v = v' := funext fun t => propext (hv t)
  rfl

/-! ## Changes

A ledger knows of no memory, no files and no locks.  All that is left of them is the cut, which
stands for a page that is read from its file again. -/

/-- What a transaction sees of a page: its own copy if it has one, else the committed rows. -/
def view (L : Ledger) (t : TxnId) (p : PageId) (i : Nat) : Option Row :=
  match L.overlay t p with
  | some rows => rows i
  | none => L.committed ⟨p, i⟩

/-- A transaction changes one place of its copy of one page. -/
def put (L : Ledger) (t : TxnId) (r : RecordId) (x : Option Row) : Ledger :=
  { L with overlay := fun u p =>
      if u = t ∧ p = r.page then some (Function.update (L.view t p) r.slot x)
      else L.overlay u p }

/-- The copies of a transaction become the committed pages. -/
def commit (L : Ledger) (t : TxnId) : Ledger :=
  { L with
    committed := fun r => L.view t r.page r.slot
    overlay := fun u p => if u = t then none else L.overlay u p }

/-- The copies of a transaction are dropped, and it is no victim any more. -/
def abort (L : Ledger) (t : TxnId) : Ledger :=
  { L with
    overlay := fun u p => if u = t then none else L.overlay u p
    victims := fun u => u ≠ t ∧ L.victims u }

/-- The copies of some transactions are dropped, and they become victims. -/
def strike (L : Ledger) (us : List TxnId) : Ledger :=
  { L with
    overlay := fun u p => if u ∈ us then none else L.overlay u p
    victims := fun u => L.victims u ∨ u ∈ us }

/-- Some committed pages are left as they were stored; nothing else changes. -/
structure Cut (L M : Ledger) : Prop where
  committed : ∀ p, (∀ i, M.committed ⟨p, i⟩ = L.committed ⟨p, i⟩) ∨
    ∀ i, M.committed ⟨p, i⟩ = (L.committed ⟨p, i⟩).map Row.stored
  overlay_eq : M.overlay = L.overlay
  victims_eq : M.victims = L.victims

/-! ## Histories

A history is what an observer sees.  Cuts are not seen, so they may come between any two events. -/

/-- What an event says about a ledger, and what it does to it. -/
inductive Step : Event → Ledger → Ledger → Prop where
  /-- A transaction reads what it sees. -/
  | read {L : Ledger} {t : TxnId} {p : PageId} {page : Page} (hid : page.id = p)
      (h : ∀ i, page.row? i = L.view t p i) : Step (.read t p page) L L
  /-- A row is put into a free place of a page of which nobody else has a copy. -/
  | inserted {L : Ledger} {t : TxnId} {table : TableId} {row : Row} {r : RecordId}
      (hr : row.rid = some r) (ht : r.page.table = table) (hv : ¬ L.victims t)
      (hfree : L.view t r.page r.slot = none) (ho : ∀ u, u ≠ t → L.overlay u r.page = none) :
      Step (.inserted t table row) L (L.put t r (some row))
  /-- A row is taken away from its place, on a page of which nobody else has a copy. -/
  | removed {L : Ledger} {t : TxnId} {row : Row} {r : RecordId} (hr : row.rid = some r)
      (hv : ¬ L.victims t) (hrow : L.view t r.page r.slot = some row)
      (ho : ∀ u, u ≠ t → L.overlay u r.page = none) :
      Step (.removed t row) L (L.put t r none)
  | copied (L : Ledger) (t : TxnId) (page : Page) : Step (.copied t page) L L
  | refused (L : Ledger) (t : TxnId) (e : Error) : Step (.refused t e) L L
  /-- Only a transaction that is no victim can commit. -/
  | committed {L : Ledger} {t : TxnId} (hv : ¬ L.victims t) : Step (.committed t) L (L.commit t)
  | aborted (L : Ledger) (t : TxnId) : Step (.aborted t) L (L.abort t)
  /-- A deadlock strikes others than the one who declares it. -/
  | struck {L : Ledger} {t : TxnId} {us : List TxnId} (ht : t ∉ us) :
      Step (.struck t us) L (L.strike us)

/-- The ledgers that come about from `L₀`, with all events on the way.  Committed pages may be cut
at any time. -/
inductive Run (L₀ : Ledger) : List Event → Ledger → Prop where
  | start : Run L₀ [] L₀
  | step {h : List Event} {e : Event} {L M : Ledger} (hr : Run L₀ h L) (hs : Step e L M) :
      Run L₀ (h ++ [e]) M
  | cut {h : List Event} {L M : Ledger} (hr : Run L₀ h L) (hc : Cut L M) : Run L₀ h M

/-- The ledgers that come about from `L₀` without any cut. -/
inductive Exact (L₀ : Ledger) : List Event → Ledger → Prop where
  | start : Exact L₀ [] L₀
  | step {h : List Event} {e : Event} {L M : Ledger} (hr : Exact L₀ h L) (hs : Step e L M) :
      Exact L₀ (h ++ [e]) M

/-- A row that a history brings in. -/
def Inserts (h : List Event) (row : Row) : Prop := ∃ t table, .inserted t table row ∈ h

/-! ## Views -/

variable {L : Ledger} {t u : TxnId} {p : PageId}

theorem view_of_overlay {rows : Nat → Option Row} (h : L.overlay t p = some rows) (i : Nat) :
    L.view t p i = rows i := by
  rw [view, h]

theorem view_of_none (h : L.overlay t p = none) (i : Nat) :
    L.view t p i = L.committed ⟨p, i⟩ := by
  rw [view, h]

theorem view_put_self (L : Ledger) (t : TxnId) (r : RecordId) (x : Option Row) :
    (L.put t r x).view t r.page r.slot = x := by
  have ho : (L.put t r x).overlay t r.page =
      some (Function.update (L.view t r.page) r.slot x) := if_pos ⟨rfl, rfl⟩
  rw [view_of_overlay ho, Function.update_self]

/-- After a change of one place everything else is seen as before. -/
theorem view_put_of_ne (L : Ledger) (t : TxnId) {r q : RecordId} (x : Option Row) (h : q ≠ r) :
    (L.put t r x).view t q.page q.slot = L.view t q.page q.slot := by
  by_cases hp : q.page = r.page
  · have ho : (L.put t r x).overlay t q.page =
        some (Function.update (L.view t q.page) r.slot x) := if_pos ⟨rfl, hp⟩
    have hs : q.slot ≠ r.slot := fun hs => h (congrArg₂ RecordId.mk hp hs)
    rw [view_of_overlay ho, Function.update_of_ne hs]
  · have ho : (L.put t r x).overlay t q.page = L.overlay t q.page := if_neg fun he => hp he.2
    rw [view, ho]
    rfl

theorem overlay_put_of_ne {r : RecordId} (x : Option Row) (h : u ≠ t) :
    (L.put t r x).overlay u p = L.overlay u p := if_neg fun he => h he.1

theorem Exact.eq_of_nil {L₀ : Ledger} (h : Exact L₀ [] L) : L = L₀ := by
  generalize he : ([] : List Event) = es at h
  cases h with
  | start => rfl
  | step => exact absurd he (List.append_ne_nil_of_right_ne_nil _ (List.cons_ne_nil _ _)).symm

/-- The last event of a history without cuts. -/
theorem Exact.last {L₀ : Ledger} {h : List Event} {e : Event} (hx : Exact L₀ (h ++ [e]) L) :
    ∃ M, Exact L₀ h M ∧ Step e M L := by
  generalize he : h ++ [e] = es at hx
  cases hx with
  | start => exact absurd he (List.append_ne_nil_of_right_ne_nil _ (List.cons_ne_nil _ _))
  | step hr hs =>
    obtain ⟨rfl, hlast⟩ := List.append_inj' he rfl
    rw [List.singleton_inj.1 hlast]
    exact ⟨_, hr, hs⟩

/-! ## What a cut leaves alone -/

theorem Cut.committed_stored {M : Ledger} (hc : Cut L M) (r : RecordId) :
    (M.committed r).map Row.stored = (L.committed r).map Row.stored := by
  rcases hc.committed r.page with he | he
  · exact congrArg _ (he r.slot)
  · refine (congrArg _ (he r.slot)).trans ?_
    rw [Option.map_map]
    exact congrArg (Option.map · _) (funext Row.stored_stored)

/-- Everything is seen as before after a cut, as it is stored. -/
theorem Cut.view_stored {M : Ledger} (hc : Cut L M) (t : TxnId) (p : PageId) (i : Nat) :
    (M.view t p i).map Row.stored = (L.view t p i).map Row.stored := by
  have hsame : M.overlay t p = L.overlay t p := by rw [hc.overlay_eq]
  cases ho : L.overlay t p with
  | none =>
    rw [view_of_none ho, view_of_none (hsame.trans ho)]
    exact hc.committed_stored ⟨p, i⟩
  | some rows => rw [view_of_overlay ho, view_of_overlay (hsame.trans ho)]

/-! ## Texts that fit

Only a text that is longer than its column can be cut.  Where nobody brings in such a text, a run
needs no cuts at all, and a ledger changes by events alone. -/

/-- No row would lose anything if it were stored. -/
structure Fits (L : Ledger) : Prop where
  committed : ∀ r row, L.committed r = some row → row.stored = row
  overlay : ∀ t p rows i row, L.overlay t p = some rows → rows i = some row → row.stored = row

theorem Fits.view (h : L.Fits) {i : Nat} {row : Row} (hr : L.view t p i = some row) :
    row.stored = row := by
  cases ho : L.overlay t p with
  | none => exact h.committed ⟨p, i⟩ row ((view_of_none ho i).symm.trans hr)
  | some rows => exact h.overlay t p rows i row ho ((view_of_overlay ho i).symm.trans hr)

/-- Where all texts fit, a cut changes nothing. -/
theorem Fits.eq_of_cut (h : L.Fits) {M : Ledger} (hc : Cut L M) : M = L := by
  refine ext (fun r => ?_) (fun t p => by rw [hc.overlay_eq]) fun t => by rw [hc.victims_eq]
  rcases hc.committed r.page with he | he
  · exact he r.slot
  · refine (he r.slot).trans ?_
    cases hr : L.committed r with
    | none => rfl
    | some row => exact congrArg some (h.committed r row hr)

theorem Fits.put (h : L.Fits) {r : RecordId} {x : Option Row}
    (hx : ∀ row, x = some row → row.stored = row) : (L.put t r x).Fits where
  committed := h.committed
  overlay u q rows i row ho hr := by
    rw [Ledger.put] at ho
    dsimp only at ho
    split at ho
    · cases ho
      by_cases hi : i = r.slot
      · rw [hi, Function.update_self] at hr
        exact hx row hr
      · rw [Function.update_of_ne hi] at hr
        exact h.view hr
    · exact h.overlay u q rows i row ho hr

theorem Fits.step (h : L.Fits) {M : Ledger} {e : Event} (hs : Step e L M)
    (he : ∀ t table row, e = .inserted t table row → row.stored = row) : M.Fits := by
  cases hs with
  | read => exact h
  | inserted =>
    refine h.put fun row hrow => ?_
    cases hrow
    exact he _ _ _ rfl
  | removed => exact h.put fun row hrow => by cases hrow
  | copied => exact h
  | refused => exact h
  | committed =>
    refine ⟨fun r row hr => h.view hr, fun u q rows i row ho => ?_⟩
    rw [commit] at ho
    dsimp only at ho
    split at ho
    · cases ho
    · exact h.overlay u q rows i row ho
  | aborted =>
    refine ⟨h.committed, fun u q rows i row ho => ?_⟩
    rw [abort] at ho
    dsimp only at ho
    split at ho
    · cases ho
    · exact h.overlay u q rows i row ho
  | struck =>
    refine ⟨h.committed, fun u q rows i row ho => ?_⟩
    rw [strike] at ho
    dsimp only at ho
    split at ho
    · cases ho
    · exact h.overlay u q rows i row ho

/-- A run that brings in no text that is too long is a run without cuts. -/
theorem Run.exact {L₀ : Ledger} (h₀ : L₀.Fits) {h : List Event} (hr : Run L₀ h L)
    (hi : ∀ row, Inserts h row → row.stored = row) : Exact L₀ h L ∧ L.Fits := by
  induction hr with
  | start => exact ⟨.start, h₀⟩
  | step hr hs ih =>
    obtain ⟨he, hf⟩ := ih fun row hrow => by
      obtain ⟨t, table, hm⟩ := hrow
      exact hi row ⟨t, table, List.mem_append_left _ hm⟩
    refine ⟨he.step hs, hf.step hs fun t table row heq => hi row ⟨t, table, ?_⟩⟩
    rw [heq]
    exact List.mem_append_right _ (List.mem_singleton_self _)
  | cut hr hc ih =>
    obtain ⟨he, hf⟩ := ih hi
    rw [hf.eq_of_cut hc]
    exact ⟨he, hf⟩

end Ledger
end TableStore

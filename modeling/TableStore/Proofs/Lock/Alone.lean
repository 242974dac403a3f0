import TableStore.Proofs.Lock.Waiting

/-!
# Locks where nobody else runs

Where a single thread asks for all locks, nobody can give back a lock that a request waits for, so a
request that has to wait runs out of time at once.  Between two requests nobody waits.

## What is here

* `LockTable.acquire` — the looks at a request that is made where nobody else runs.
* `LockTable.Consistent.acquire_cases` — it is refused, granted or ends in a deadlock, and leaves
  nobody waiting who did not wait before.
* `LockTable.NobodyWaits` — nobody waits, and a victim holds nothing.  `NobodyWaits.grant`,
  `NobodyWaits.complete`, … say what leaves it so.
* `LockTable.NobodyWaits.acquire_alone` — a request is granted if nobody else holds a lock.
* `LockTable.Consistent.acquire_of_covered` — and to whoever holds the page already.
-/

set_option autoImplicit false
namespace TableStore
namespace LockTable

/-- Asks for a lock where nobody else runs. -/
def acquire (l : LockTable) (r : Request) : Verdict × LockTable :=
  match l.ask r with
  | (.granted, m) => (.granted, m)
  | (.refused, m) => (.refused, m)
  | (.waiting, m) => m.expire r

variable {l m k : LockTable} {r : Request} {t u : TxnId} {p : PageId} {us : List TxnId}

/-! ## Counts -/

theorem waitingAt_congr (h : m.waiting? p = l.waiting? p) : m.waitingAt p = l.waitingAt p := by
  rw [waitingAt, waitingAt, h]

theorem waitingAt_enter (l : LockTable) (p q : PageId) :
    (l.enter p).waitingAt q = l.waitingAt q := by
  rw [waitingAt, waiting?_enter]
  split
  · rename_i hq
    rw [hq, Option.getD_some]
  · rfl

/-- A request that waits and gives up leaves the counts as they were. -/
theorem waitingAt_of_waited (h : (l.ask r).1 = .waiting) (p : PageId) :
    ((l.ask r).2.expire r).2.waitingAt p = l.waitingAt p := by
  by_cases hr : r.txn ∈ l.aborted
  · rw [ask_of_aborted hr] at h
    cases h
  · cases ha : (l.enter r.page).admits r with
    | true =>
      rw [ask_of_admits hr ha] at h
      cases h
    | false =>
      rw [ask_of_not_admits hr ha, waitingAt, waiting?_expire, waiting?_startWaiting,
        ← waitingAt_enter l r.page p, waitingAt]
      cases (l.enter r.page).waiting? p with
      | none => rfl
      | some n => exact Nat.add_sub_cancel n _

theorem waitingAt_ask (h : (l.ask r).1 ≠ .waiting) (p : PageId) :
    (l.ask r).2.waitingAt p = l.waitingAt p := by
  by_cases hr : r.txn ∈ l.aborted
  · rw [ask_of_aborted hr]
  · cases ha : (l.enter r.page).admits r with
    | true =>
      rw [ask_of_admits hr ha, waitingAt_congr (waiting?_grant _ _ _ _ p), waitingAt_enter]
    | false => exact absurd (congrArg Prod.fst (ask_of_not_admits hr ha)) h

/-! ## What becomes of a request

Where nobody else runs, nobody gives a lock back while a request waits.  A request that cannot be
granted at once waits until its time is up, so it is looked at twice. -/

/-- What a request that ends in a deadlock makes of a table: nobody has lost a lock yet, but the
others that hold locks are marked. -/
structure Struck (l : LockTable) (r : Request) (us : List TxnId) (m : LockTable) : Prop where
  consistent : m.Consistent
  active : r.txn ∉ l.aborted
  holdings_eq : ∀ u, m.holdings.get? u = l.holdings.get? u
  mem_iff : ∀ u, u ∈ us ↔ u ≠ r.txn ∧ u ∉ l.aborted ∧ l.holdings.get? u ≠ none
  mem_aborted : ∀ u, u ∈ m.aborted ↔ u ∈ l.aborted ∨ u ∈ us

/-- A look after one that has left the request waiting. -/
theorem Looked.after_waiting {a : Answer} (h : Looked l r .waiting m) (h' : Looked m r a k) :
    Looked l r a k := by
  have hheld : ∀ q, m.heldMode? r.txn q = l.heldMode? r.txn q := fun q => by
    rw [heldMode?, heldMode?, h.ungranted (by simp)]
  refine ⟨h'.consistent, h'.aborted_eq.trans h.aborted_eq, fun u hu => ?_, ?_, fun ha q => ?_,
    fun ha u => ?_⟩
  · exact (h'.others u hu).trans (h.others u hu)
  · rw [h'.refused_iff, h.aborted_eq]
  · rw [h'.granted ha, hheld, hheld]
  · exact (h'.ungranted ha u).trans (h.ungranted (by simp) u)

/-- A request that is made where nobody else runs is refused to a victim, granted, or ends in a
deadlock. -/
theorem Consistent.acquire_cases (h : Consistent l) (r : Request) :
    (∃ m, l.acquire r = (.refused, m) ∧ Looked l r .refused m ∧
      ∀ p, m.waitingAt p = l.waitingAt p) ∨
    (∃ m, l.acquire r = (.granted, m) ∧ Looked l r .granted m ∧
      ∀ p, m.waitingAt p = l.waitingAt p) ∨
    ∃ us m, l.acquire r = (.deadlock us, m) ∧ Struck l r us m ∧
      ∀ p, m.waitingAt p = l.waitingAt p := by
  have hlook := looked_ask h r
  have hquiet := waitingAt_ask (l := l) (r := r)
  have hwaited := waitingAt_of_waited (l := l) (r := r)
  rw [acquire]
  generalize l.ask r = run at hlook hquiet hwaited ⊢
  obtain ⟨a, m⟩ := run
  cases a with
  | refused => exact Or.inl ⟨m, rfl, hlook, hquiet (by simp)⟩
  | granted => exact Or.inr (Or.inl ⟨m, rfl, hlook, hquiet (by simp)⟩)
  | waiting =>
    dsimp only at hlook hwaited ⊢
    rcases expire_cases hlook.consistent r with ⟨k, he, hk⟩ | ⟨k, he, hk⟩ | ⟨k, he, hk⟩
    · rw [he] at hwaited ⊢
      exact Or.inl ⟨k, rfl, hlook.after_waiting hk, hwaited rfl⟩
    · rw [he] at hwaited ⊢
      exact Or.inr (Or.inl ⟨k, rfl, hlook.after_waiting hk, hwaited rfl⟩)
    · rw [he] at hwaited ⊢
      have hsame := hlook.ungranted (by simp)
      refine Or.inr (Or.inr ⟨_, k, rfl, ⟨hk.same.consistent hlook.consistent,
        hlook.aborted_eq ▸ hk.active, fun u => (hk.same.holdings_eq u).trans (hsame u),
        fun u => ?_, fun u => ?_⟩, hwaited rfl⟩)
      · rw [mem_victimsOf, hsame, hlook.aborted_eq]
      · rw [hk.mem_aborted, hlook.aborted_eq]

/-! ## Tables where nobody waits

No request is left waiting between two calls that are carried out alone.  What can stand in the way
of the next request is then a lock that somebody else holds, and nothing else. -/

/-- Nobody waits, and a victim holds nothing. -/
structure NobodyWaits (l : LockTable) : Prop where
  consistent : l.Consistent
  marked : ∀ t, t ∈ l.aborted → l.holdings.get? t = none
  quiet : ∀ p, l.waitingAt p = 0

namespace NobodyWaits

theorem empty : NobodyWaits {} where
  consistent := .empty
  marked t ht := absurd ht (Distinct.not_mem_empty t)
  quiet _ := rfl

/-- Nobody waits after a look that does not leave the request waiting. -/
theorem looked (h : NobodyWaits l) {a : Answer} (hl : Looked l r a m)
    (hw : ∀ p, m.waitingAt p = l.waitingAt p) : NobodyWaits m where
  consistent := hl.consistent
  marked t ht := by
    rw [hl.aborted_eq] at ht
    by_cases hr : t = r.txn
    · -- a victim is refused, so it is given nothing
      rw [hl.ungranted fun ha => ?_]
      · exact h.marked t ht
      · have := hl.refused_iff.2 (hr ▸ ht)
        rw [ha] at this
        cases this
    · exact (hl.others t hr).trans (h.marked t ht)
  quiet p := (hw p).trans (h.quiet p)

theorem releaseAll (h : NobodyWaits l) (t : TxnId) : NobodyWaits (l.releaseAll t) where
  consistent := h.consistent.releaseAll t
  marked u hu := by
    rw [aborted_releaseAll] at hu
    rw [get?_holdings_releaseAll]
    split
    · rfl
    · exact h.marked u hu
  quiet p := (waitingAt_congr (waiting?_releaseAll l t p)).trans (h.quiet p)

theorem complete (h : NobodyWaits l) (t : TxnId) : NobodyWaits (l.complete t) where
  consistent := h.consistent.complete t
  marked u hu := (h.releaseAll t).marked u (Distinct.mem_erase.1 hu).2
  quiet := (h.releaseAll t).quiet

theorem release (h : NobodyWaits l) (hm : l.release t p = .ok m) : NobodyWaits m where
  consistent := h.consistent.release hm
  marked u hu :=
    h.consistent.get?_release_eq_none hm (h.marked u (aborted_release hm ▸ hu))
  quiet q := (waitingAt_congr (waiting?_release hm q)).trans (h.quiet q)

theorem ask_alone (h : NobodyWaits l) (hr : r.txn ∉ l.aborted)
    (hn : ∀ u, u ≠ r.txn → l.holdings.get? u = none) : (l.ask r).1 = .granted := by
  have hnone : ∀ u, u ≠ r.txn → l.heldMode? u r.page = none := fun u hu => by
    rw [heldMode?, hn u hu, Option.bind_none]
  have hall : l.Allows r (l.waitingAt r.page) := by
    rw [Allows]
    cases r.mode with
    | exclusive => exact hnone
    | shared =>
      refine ⟨fun u hu hx => ?_, fun _ => h.quiet r.page⟩
      rw [hnone u hu] at hx
      cases hx
  rw [ask_of_admits hr (h.consistent.admits_enter_iff.2 hall)]

/-- **A request is granted where nobody else holds a lock.** -/
theorem acquire_alone (h : NobodyWaits l) (hr : r.txn ∉ l.aborted)
    (hn : ∀ u, u ≠ r.txn → l.holdings.get? u = none) :
    ∃ m, l.acquire r = (.granted, m) ∧ Looked l r .granted m ∧
      ∀ p, m.waitingAt p = l.waitingAt p := by
  have hgranted := h.ask_alone hr hn
  refine ⟨(l.ask r).2, ?_, hgranted ▸ looked_ask h.consistent r, waitingAt_ask (by simp [hgranted])⟩
  rw [acquire]
  split
  · rename_i m he
    rw [he]
  · rename_i m he
    rw [he] at hgranted
    cases hgranted
  · rename_i m he
    rw [he] at hgranted
    cases hgranted

end NobodyWaits

/-! ## Asking for what is held -/

/-- Whoever holds a page is granted it again. -/
theorem Consistent.acquire_of_covered (h : Consistent l) (hr : r.txn ∉ l.aborted)
    (hc : l.Covered r) : (l.acquire r).1 = .granted := by
  have henter := sameLocks_enter l r.page
  have hadmits := (henter.consistent h).admits_of_covered (hc.congr (henter.heldMode?_eq _ _))
  rw [acquire, ask_of_admits hr hadmits]

/-- A writer that asks to read its page changes nothing. -/
theorem Consistent.acquire_of_exclusive (h : Consistent l) (ht : t ∉ l.aborted)
    (hx : l.heldMode? t p = some .exclusive) : l.acquire ⟨t, p, .shared⟩ = (.granted, l) := by
  have hw := h.heldMode?_exclusive_iff.1 hx
  rw [writer?, Option.bind_eq_some_iff] at hw
  obtain ⟨k, hk, hkw⟩ := hw
  rw [heldMode?, Option.bind_eq_some_iff] at hx
  obtain ⟨held, hheld, -⟩ := hx
  have henter : l.enter p = l := by
    rw [enter, if_pos (Assoc.contains_iff.2 (Assoc.mem_keys_iff.2 ⟨k, hk⟩))]
  have hadmits : (l.enter p).admits ⟨t, p, .shared⟩ = true := by
    rw [henter, admits, hk, Option.map_some, Option.getD_some]
    simp only [PageLock.admits, hkw, decide_true]
  have hgrant : l.grant t p .shared = l := by
    simp only [LockTable.grant, hk, hkw, ↓reduceIte, hheld, Option.getD_some, Assoc.insert_of_get? hheld]
  rw [acquire, ask_of_admits ht hadmits, henter]
  exact congrArg (Prod.mk Verdict.granted) hgrant

end LockTable
end TableStore

import TableStore.Proofs.Pool.Data
import TableStore.Proofs.Pool.Deadlock
import TableStore.Proofs.Pool.Kept

/-!
# A visit to a page where nobody else runs

A call that needs a lock is granted it after three looks at most: when it is asked for, when its
time is up, and when it is asked for again after a deadlock.  Then the page is loaded, and the call
goes on with what has been found.

## What is here

* `Store.Yielded`, `Store.Seized` — what is left of a store when a lock has been taken.
* `Store.NobodyWaits.seize` — a call that needs a lock goes on with it.
* `Store.Visited` — what is left of the store when the page has been loaded too.
-/

set_option autoImplicit false
namespace TableStore
namespace Store

variable {s m w : Store} {t : TxnId} {p q : PageId} {page : Page} {r : Request} {us : List TxnId}
  {l : LockTable}

/-! ## After a rollback -/

/-- A rollback drops no clean page. -/
theorem clean_foldl_rollBack (us : List TxnId) (hp : s.cache.pages.get? p = some page)
    (hclean : page.dirtier = none) :
    (us.foldl rollBack s).cache.pages.get? p = some page := by
  refine List.foldlRecOn us rollBack (motive := fun m => m.cache.pages.get? p = some page) hp
    fun m hm u _ => ?_
  rw [rollBack, Cache.get?_dropAll, if_neg, hm]
  intro hdirty
  obtain ⟨page', hp', hd⟩ := Cache.mem_dirtyPages.1 hdirty
  rw [hm] at hp'
  cases hp'
  rw [hclean] at hd
  cases hd

theorem size_foldl_rollBack_le (s : Store) (us : List TxnId) :
    (us.foldl rollBack s).cache.size ≤ s.cache.size := by
  refine List.foldlRecOn us rollBack (motive := fun m => m.cache.size ≤ s.cache.size)
    (Nat.le_refl _) fun m hm u _ => ?_
  exact Nat.le_trans (Cache.size_dropAll_le _ _) hm

theorem capacity_foldl_rollBack (s : Store) (us : List TxnId) :
    (us.foldl rollBack s).capacity = s.capacity := by
  refine List.foldlRecOn us rollBack (motive := fun m => m.capacity = s.capacity) rfl
    fun m hm u _ => ?_
  exact hm

/-! ## Taking a lock

A lock is taken at once or after a deadlock.  In both cases the requester has it in the end, and
what the others had is there or has been dropped. -/

/-- The store `w` is what is left of `s` when `t` has taken a lock: pages with changes of others may
have been dropped. -/
structure Yielded (t : TxnId) (s w : Store) : Prop where
  files : SameFiles s w
  capacity_eq : w.capacity = s.capacity
  active : t ∉ w.locks.aborted
  clean : ∀ q page, s.cache.pages.get? q = some page → page.dirtier = none →
    w.cache.pages.get? q = some page
  missing : ∀ q, s.cache.pages.get? q = none → w.cache.pages.get? q = none
  size_le : w.cache.size ≤ s.cache.size

/-- The lock that a request asks for has been added to those of its transaction in `s`. -/
def Added (s : Store) (r : Request) (w : Store) : Prop :=
  ∀ q, w.locks.heldMode? r.txn q =
    if q = r.page then
      some (if s.locks.heldMode? r.txn r.page = some .exclusive then .exclusive else r.mode)
    else s.locks.heldMode? r.txn q

/-- The store `w` is what is left of `s` when the lock has been taken that `r` asks for.  The locks
of its transaction are as before but for this one. -/
structure Seized (s : Store) (r : Request) (w : Store) : Prop extends Yielded r.txn s w where
  changes : ∀ grows, Changes r.txn grows s w
  added : s.Added r w
  origin : ∀ q page, w.cache.pages.get? q = some page → s.cache.pages.get? q = some page
  changesLocked : s.ChangesLocked → w.ChangesLocked

theorem seized_of_looked (hr : r.txn ∉ s.locks.aborted)
    (hl : LockTable.Looked s.locks r .granted l) (hw : ∀ p, l.waitingAt p = s.locks.waitingAt p) :
    Seized s r { s with locks := l } where
  files := ⟨rfl, rfl, rfl⟩
  capacity_eq := rfl
  active := hl.aborted_eq.symm ▸ hr
  clean _ _ hq _ := hq
  missing _ hq := hq
  size_le := Nat.le_refl _
  changes _ := .single (.look rfl hl hw)
  added := hl.granted rfl
  origin _ _ hq := hq
  changesLocked hg := hg.look hl

/-- After a deadlock the request is granted, since nobody else holds a lock any more. -/
theorem seized_of_struck (h : s.NobodyWaits) (hs : LockTable.Struck s.locks r us l)
    (hw : ∀ p, l.waitingAt p = s.locks.waitingAt p) {m : LockTable}
    (hl : LockTable.Looked (us.foldl rollBack ({ s with locks := l }.bump .deadlocks)).locks r
      .granted m)
    (hm : ∀ p, m.waitingAt p =
      (us.foldl rollBack ({ s with locks := l }.bump .deadlocks)).locks.waitingAt p) :
    Seized s r
      { us.foldl rollBack ({ s with locks := l }.bump .deadlocks) with locks := m } := by
  have hd := discarded_strike h hs
  have hfiles := hd.sameFiles
  have hspared := spared_of_struck h hs hl
  refine ⟨⟨⟨hfiles.disk_eq, hfiles.catalog_eq, hfiles.pageSize_eq⟩, capacity_foldl_rollBack _ us,
    hspared.active, fun q page hq hclean => clean_foldl_rollBack us hq hclean, fun q hq => ?_,
    size_foldl_rollBack_le _ us⟩, fun grows => ?_, hspared.own,
    fun q page hq => (hd.origin q page hq).1, fun hg => ?_⟩
  · refine Option.eq_none_iff_forall_ne_some.2 fun page hq' => ?_
    exact absurd (hq.symm.trans (hd.origin q page hq').1) (by simp)
  · exact (Relation.ReflTransGen.single (.strike rfl hs hw)).tail (.look rfl hl hm)
  · refine (hg.discard hd hs.holdings_eq rfl fun u hu => ?_).look hl
    rw [aborted_foldl_rollBack] at hu
    exact (hs.mem_aborted u).1 hu

/-- **A call that needs a lock goes on with it after three looks at most**, unless its transaction
is a victim. -/
theorem NobodyWaits.seize (h : s.NobodyWaits) (pending : Pending)
    (hr : pending.request.txn ∉ s.locks.aborted) :
    ∃ k w, 0 < k ∧ k ≤ 3 ∧
      (∀ i, finish (i + k) (.asking pending, s) = finish i (w.resume pending)) ∧
      Seized s pending.request w := by
  obtain ⟨k, hpos, hk, hfin⟩ := finish_acquire s pending
  rcases h.locks.consistent.acquire_cases pending.request with
    ⟨l, -, hl, -⟩ | ⟨l, he, hl, hw⟩ | ⟨us, l, he, hs, hw⟩
  · exact absurd (hl.refused_iff.1 rfl) hr
  · refine ⟨k, _, hpos, by omega, fun i => ?_, seized_of_looked hr hl hw⟩
    rw [hfin, he]
    rfl
  · have hstrike : Change pending.request.txn (fun _ => False) s _ := .strike rfl hs hw
    have hquiet := hstrike.nobodyWaits h
    have hactive : pending.request.txn ∉
        (us.foldl rollBack ({ s with locks := l }.bump .deadlocks)).locks.aborted := by
      rw [aborted_foldl_rollBack]
      exact fun ha => ((hs.mem_aborted _).1 ha).elim hs.active fun hm => ((hs.mem_iff _).1 hm).1 rfl
    have hgranted := hquiet.locks.ask_alone hactive fun u hu => h.alone hs hu
    have hlook := LockTable.looked_ask hquiet.locks.consistent pending.request
    rw [hgranted] at hlook
    refine ⟨k + 1, _, Nat.succ_pos k, by omega, fun i => ?_,
      seized_of_struck h hs hw hlook (LockTable.waitingAt_ask (by simp [hgranted]))⟩
    have hask : ∀ m : Store, (m.locks.ask pending.request).1 = .granted →
        m.ask pending = { m with locks := (m.locks.ask pending.request).2 }.resume pending := by
      intro m hm
      rw [Store.ask]
      exact congrArg (answer _ pending) hm
    rw [← Nat.add_assoc, Nat.add_right_comm, hfin, he]
    dsimp only
    rw [finish, hask _ hgranted]

/-! ## Loading the page -/

/-- The store `m` is what is left of `s` when the lock has been taken that `r` asks for, and its
page has been loaded with the result `result`. -/
structure Visited (s : Store) (r : Request) (result : Except Error Page) (m : Store) : Prop where
  changes : ∀ grows, Changes r.txn grows s m
  files : SameFiles s m
  active : r.txn ∉ m.locks.aborted
  added : s.Added r m
  matchesFiles : s.MatchesFiles → m.MatchesFiles
  /-- No other page has come. -/
  missing : ∀ q, q ≠ r.page → s.cache.pages.get? q = none → m.cache.pages.get? q = none
  cached : ∀ page, result = .ok page → m.cache.pages.get? r.page = some page
  /-- A page that was not in memory is the one in its file. -/
  read : s.cache.pages.get? r.page = none → ∀ page, result = .ok page →
    s.readPage r.page = .ok page

theorem Seized.visited (h : Seized s r w) (hc : s.NobodyWaits) {result : Except Error Page}
    (hl : w.load r.txn r.page = (result, m)) : Visited s r result m := by
  have href := refreshes_load (h.changes (fun _ => False) |>.nobodyWaits hc).sound r.txn r.page
  rw [hl] at href
  refine ⟨fun grows => (h.changes grows).tail (.refresh href), ?_, href.locks_eq.symm ▸ h.active,
    fun q => ?_, fun ht => ?_, fun q hq hm => ?_, fun page hp => ?_, fun hm page hp => ?_⟩
  · exact h.files.trans href.sameFiles
  · rw [href.locks_eq]
    exact h.added q
  · have hw : w.MatchesFiles :=
      ht.of_sameFiles h.files (h.changesLocked ht.changesLocked) fun q page hq =>
        Or.inl (h.origin q page hq)
    exact hw.of_sameFiles href.sameFiles (hw.changesLocked.refresh href) fun q page hq =>
      (href.origin q page hq).imp_right fun ho => ho.2.2
  · refine Option.eq_none_iff_forall_ne_some.2 fun page hp => ?_
    rcases href.origin q page hp with hp | ⟨he, -⟩
    · rw [h.missing q hm] at hp
      cases hp
    · exact hq he
  · rw [hp] at hl
    exact (load_ok hl).1
  · rw [hp] at hl
    rcases href.origin r.page page (load_ok hl).1 with hp | ⟨-, -, hr⟩
    · rw [h.missing _ hm] at hp
      cases hp
    · exact (h.files.readPage_eq r.page).symm.trans hr

end Store
end TableStore

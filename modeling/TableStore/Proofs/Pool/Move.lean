import TableStore.Proofs.Pool.End
import TableStore.Proofs.TableFile

/-!
# What a transaction does to the store

All that a transaction ever does to a store is put together of a few moves: it looks at a request,
brings a page into memory, gives back the lock on a page that it has not changed, appends a page,
changes a page under its exclusive lock, strikes others, and ends.  Some moves are seen from outside
and bear an event.

## What is here

* `Store.ChangesLocked` — what protects uncommitted changes: whoever made them holds the exclusive
  lock, and a victim has neither locks nor changes.
* `Store.seek_cases` — how a search for a free slot goes on.
* `Store.Move`, `Store.Moves` — one move of a transaction, and several.
* `Store.Moves.changesLocked` — moves keep the protection up.
* `Store.Moves.kept` — they never touch the changes of another transaction unless it is struck.
* `Store.Moves.read_own` — and nobody is handed a page with the changes of another one.

Moves bear the events that are seen of them.  A relation `serves` tells which files may be appended
to, and for which tables.  Where the files are `sealed`, that is, where nobody else writes to them,
pages are appended to a file only as long as it has room.
-/

set_option autoImplicit false
namespace TableStore
namespace Store

/-! ## Protection -/

/-- A page with uncommitted changes is locked exclusively by the transaction that made them, and a
victim holds nothing. -/
structure ChangesLocked (s : Store) : Prop where
  consistent : s.locks.Consistent
  sound : s.cache.Sound
  owned : ∀ t p page, s.cache.pages.get? p = some page → page.dirtier = some t →
    s.locks.heldMode? t p = some .exclusive
  marked : ∀ t, t ∈ s.locks.aborted → s.locks.holdings.get? t = none

/-- Nothing is protected where nothing is in memory and nothing locked. -/
theorem Fresh.changesLocked {s : Store} (h : s.Fresh) : s.ChangesLocked where
  consistent := h.locks_eq ▸ .empty
  sound := h.cache_eq ▸ .empty
  owned t p page hp := by rw [h.cache_eq] at hp; cases hp
  marked t ht := by rw [h.locks_eq] at ht; exact absurd ht (Distinct.not_mem_empty t)

/-- The store after `t` has put a changed copy of a page into the cache. -/
def edited (s : Store) (t : TxnId) (copy : Page) : Store :=
  { s with cache := s.cache.put { copy with dirtier := some t } false }

/-- The store after pages have been added to a file until their count is past `n`, if it ever is. -/
def grown (s : Store) (file : TableFile) (n : Nat) : Store :=
  { s with disk := file.growPast s.disk s.pageSize n }

/-- A search goes on to a page that it has counted, or to one that it adds, or never gets to the end
of adding pages. -/
theorem seek_cases (s : Store) (t : TxnId) (search : SlotSearch) :
    search.next < search.count ∧ s.seek t search = (s.tryNext t search, s) ∨
    search.count ≤ search.next ∧
      (search.next < (s.grown search.file search.next).pageCount search.file ∧
          s.seek t search =
            (s.tryNext t
              { search with count := (s.grown search.file search.next).pageCount search.file },
              s.grown search.file search.next) ∨
        (s.grown search.file search.next).pageCount search.file ≤ search.next ∧
          s.seek t search = (.endless, s.grown search.file search.next)) := by
  rcases Nat.lt_or_ge search.next search.count with hlt | hge
  · exact Or.inl ⟨hlt, if_pos hlt⟩
  · refine Or.inr ⟨hge, ?_⟩
    have hseek : s.seek t search = _ := if_neg (Nat.not_lt.2 hge)
    rcases Nat.lt_or_ge search.next ((s.grown search.file search.next).pageCount search.file) with
      hlt | hge
    · exact Or.inl ⟨hlt, hseek.trans (if_pos hlt)⟩
    · exact Or.inr ⟨hge, hseek.trans (if_neg (Nat.not_lt.2 hge))⟩

/-- Looking for a free slot changes nothing but files, and does not answer the call. -/
theorem seek_rest (s : Store) (t : TxnId) (search : SlotSearch) :
    (∃ disk, (s.seek t search).2 = { s with disk }) ∧
      ∀ reply, (s.seek t search).1 ≠ .done reply := by
  rcases s.seek_cases t search with ⟨-, he⟩ | ⟨-, ⟨-, he⟩ | ⟨-, he⟩⟩
  · rw [he]
    exact ⟨⟨s.disk, rfl⟩, fun _ hd => by cases hd⟩
  · rw [he]
    exact ⟨⟨_, rfl⟩, fun _ hd => by cases hd⟩
  · rw [he]
    exact ⟨⟨_, rfl⟩, fun _ hd => by cases hd⟩

/-- A search gets on to one more page, which it has counted or adds. -/
def GetsOn (s : Store) (search : SlotSearch) : Prop :=
  search.next < search.count ∨
    search.next < (s.grown search.file search.next).pageCount search.file

/-- Then it comes to an end. -/
theorem ends_seek {s : Store} {search : SlotSearch} (h : s.GetsOn search) (t : TxnId) :
    (s.seek t search).1.ends = true := by
  rcases s.seek_cases t search with ⟨-, he⟩ | ⟨hge, ⟨-, he⟩ | ⟨hend, he⟩⟩
  · rw [he]
    rfl
  · rw [he]
    rfl
  · rcases h with hlt | hlt
    · exact absurd hlt (Nat.not_lt.2 hge)
    · exact absurd hlt (Nat.not_lt.2 hend)

/-! ## Moves

A move is the least piece of a call that an observer may see something of.  Calls, commits and
aborts are made of them, so what every move keeps is kept by all. -/

/-- A move of the transaction `t`, with what is seen of it. -/
inductive Move (sealed : Prop) (serves : TableId → TableFile → Prop) (t : TxnId) :
    List Event → Store → Store → Prop where
  | look {s : Store} {m : LockTable} {r : Request} {a : Answer} (ht : r.txn = t)
      (h : LockTable.Looked s.locks r a m) : Move sealed serves t [] s { s with locks := m }
  | refresh {s s' : Store} {p : PageId} (h : s.Refreshes p s') : Move sealed serves t [] s s'
  | giveBack {s : Store} {p : PageId} {m : LockTable} (ha : t ∉ s.locks.aborted)
      (hp : ∀ page, s.cache.pages.get? p = some page → page.dirtier ≠ some t)
      (h : s.locks.release t p = .ok m) : Move sealed serves t [] s { s with locks := m }
  | append {s : Store} {table : TableId} {file : TableFile} (h : serves table file)
      (hroom : sealed → file.HasRoom s.disk s.pageSize) :
      Move sealed serves t [] s { s with disk := (file.appendPage s.disk s.pageSize).2 }
  | refuse (s : Store) (e : Error) : Move sealed serves t [.refused t e] s s
  | read {s : Store} {p : PageId} {page : Page} (h : s.cache.pages.get? p = some page)
      (hl : s.locks.heldMode? t p ≠ none) : Move sealed serves t [.read t p page] s s
  | copy (s : Store) (page : Page) : Move sealed serves t [.copied t page] s s
  | insert {s : Store} {p : PageId} {page copy : Page} {row placed : Row} {table : TableId}
      {file : TableFile} (h : s.cache.pages.get? p = some page)
      (hl : s.locks.heldMode? t p = some .exclusive) (ha : t ∉ s.locks.aborted)
      (hs : serves table file) (hf : p.table = file.id)
      (he : page.insert row = .ok (copy, placed)) :
      Move sealed serves t [.inserted t table placed] s (s.edited t copy)
  | remove {s : Store} {p : PageId} {page copy : Page} {row bare : Row}
      (h : s.cache.pages.get? p = some page)
      (hl : s.locks.heldMode? t p = some .exclusive) (ha : t ∉ s.locks.aborted)
      (he : page.remove row = .ok (copy, bare)) :
      Move sealed serves t [.removed t (s.taken t row)] s (s.edited t copy)
  | strike {s : Store} {m : LockTable} {r : Request} (ht : r.txn = t)
      (h : LockTable.Deadlocked s.locks r m) :
      Move sealed serves t [.struck t (s.locks.victimsOf t)] s
        ((s.locks.victimsOf t).foldl rollBack ({ s with locks := m }.bump .deadlocks))
  | commit (s : Store) : Move sealed serves t [s.commitEvent t] s (s.commit t).2
  | abort (s : Store) : Move sealed serves t [.aborted t] s (s.abort t)

/-- Several moves of the transaction `t`. -/
inductive Moves (sealed : Prop) (serves : TableId → TableFile → Prop) (t : TxnId) :
    List Event → Store → Store → Prop where
  | done (s : Store) : Moves sealed serves t [] s s
  | more {s m s' : Store} {es fs : List Event} (hm : Move sealed serves t es s m)
      (h : Moves sealed serves t fs m s') : Moves sealed serves t (es ++ fs) s s'

variable {sealed : Prop} {serves : TableId → TableFile → Prop} {t u : TxnId}
  {es fs : List Event} {s m s' : Store}

theorem Moves.one (h : Move sealed serves t es s s') : Moves sealed serves t es s s' := by
  have := Moves.more h (.done s')
  rwa [List.append_nil] at this

theorem Moves.append (h : Moves sealed serves t es s m) (h' : Moves sealed serves t fs m s') :
    Moves sealed serves t (es ++ fs) s s' := by
  induction h with
  | done => exact h'
  | more hm _ ih =>
    rw [List.append_assoc]
    exact .more hm (ih h')

/-! ## The protection is kept up

Locks are given back in three ways: at the end of a transaction, by a rollback, and when a search
passes a page.  In the first two cases the changes of the transaction have been written or dropped,
and in the third there are none on the page. -/

namespace ChangesLocked

/-- An exclusive lock outlives every look. -/
theorem look (h : ChangesLocked s) {r : Request} {a : Answer} {m : LockTable}
    (hm : LockTable.Looked s.locks r a m) : ChangesLocked { s with locks := m } where
  consistent := hm.consistent
  sound := h.sound
  owned t p page hp hd := hm.heldMode?_exclusive (h.owned t p page hp hd)
  marked t ht := by
    have ht' : t ∈ s.locks.aborted := hm.aborted_eq ▸ ht
    by_cases hr : t = r.txn
    · rw [hm.ungranted fun ha => ?_]
      · exact h.marked t ht'
      · have := hm.refused_iff.2 (hr ▸ ht')
        rw [ha] at this
        cases this
    · rw [hm.others t hr]
      exact h.marked t ht'

theorem refresh (h : ChangesLocked s) {p : PageId} (hr : s.Refreshes p s') : ChangesLocked s' where
  consistent := hr.locks_eq ▸ h.consistent
  sound := hr.sound
  owned t q page hq hd := by
    rw [hr.locks_eq]
    exact h.owned t q page ((hr.dirty_iff (by simp [hd])).1 hq) hd
  marked t ht := by
    rw [hr.locks_eq] at ht ⊢
    exact h.marked t ht

/-- A lock may be given back before the end if the page has not been changed under it. -/
theorem giveBack (h : ChangesLocked s) {p : PageId} {m : LockTable} (ha : t ∉ s.locks.aborted)
    (hp : ∀ page, s.cache.pages.get? p = some page → page.dirtier ≠ some t)
    (hm : s.locks.release t p = .ok m) : ChangesLocked { s with locks := m } where
  consistent := h.consistent.release hm
  sound := h.sound
  owned u q page hq hd := by
    refine (LockTable.heldMode?_release hm u q).trans ?_
    rw [if_neg, h.owned u q page hq hd]
    rintro ⟨rfl, rfl⟩
    exact hp page hq hd
  marked u hu := by
    have hu' : u ∈ s.locks.aborted := LockTable.aborted_release hm ▸ hu
    have hne : u ≠ t := fun he => ha (he ▸ hu')
    exact (LockTable.get?_holdings_release hm hne).trans (h.marked u hu')

/-- A page may be changed under an exclusive lock. -/
theorem edit (h : ChangesLocked s) {copy : Page}
    (hl : s.locks.heldMode? t copy.id = some .exclusive) : ChangesLocked (s.edited t copy) where
  consistent := h.consistent
  sound := h.sound.put fun he => by cases he
  owned u q page hq hd := by
    rw [edited, Cache.get?_put] at hq
    split at hq
    · rename_i he
      cases hq
      cases hd
      exact he ▸ hl
    · exact h.owned u q page hq hd
  marked := h.marked

/-- Transactions that have lost their changes may lose their locks, and be marked. -/
theorem discard (h : ChangesLocked s) {us : List TxnId} (hd : Discarded us m s')
    (hlocks : ∀ u, m.locks.holdings.get? u = s.locks.holdings.get? u)
    (hcache : m.cache = s.cache)
    (ha : ∀ u, u ∈ s'.locks.aborted → u ∈ s.locks.aborted ∨ u ∈ us) : ChangesLocked s' where
  consistent := hd.consistent
  sound := hd.sound
  owned t p page hp ht := by
    obtain ⟨hp', hn⟩ := hd.origin p page hp
    have hu : t ∉ us := fun hm => hn t hm ht
    rw [hd.heldMode?_eq, if_neg hu, LockTable.heldMode?, hlocks]
    exact h.owned t p page (hcache ▸ hp') ht
  marked t ht := by
    rw [hd.holdings]
    split
    · rfl
    · rename_i hu
      exact (hlocks t).trans (h.marked t ((ha t ht).resolve_right hu))

theorem flushPage (h : ChangesLocked s) {p : PageId} (hf : s.flushPage p = .ok s') :
    ChangesLocked s' := by
  rcases flushPage_cases hf with ⟨rfl, -⟩ | ⟨page, file, disk, hp, -, -, -, rfl⟩
  · exact h
  · refine ⟨h.consistent, h.sound.settle (h.sound.keyed p page hp), fun t q page' hq hd => ?_,
      h.marked⟩
    rcases dirtier_flushPage hf hq with hc | ⟨-, hq'⟩
    · rw [hc] at hd
      cases hd
    · exact h.owned t q page' hq' hd

theorem flushPages (h : ChangesLocked s) (ps : List PageId) : ChangesLocked (s.flushPages ps).2 :=
  flushPages_induction (fun _ _ _ hs hf => ChangesLocked.flushPage hs hf) ps h

theorem commit (h : ChangesLocked s) (t : TxnId) : ChangesLocked (s.commit t).2 := by
  have hf := h.flushPages (s.cache.dirtyPages t)
  rcases commit_cases s t with ⟨-, he⟩ | ⟨e, -, -, he⟩ | ⟨-, hr, he⟩
  · rw [he]
    exact h
  · rw [he]
    exact hf
  · rw [he]
    -- every page of `t` has been written, so its locks protect nothing any more
    refine ⟨hf.consistent.complete t, hf.sound, fun u p page hp hd => ?_, fun u hu => ?_⟩
    · have hu : u ≠ t := fun he => by
        rcases dirtier_flushPages hr hp with hc | ⟨hn, hp'⟩
        · rw [hc] at hd
          cases hd
        · exact hn (Cache.mem_dirtyPages.2 ⟨page, hp', he ▸ hd⟩)
      refine (LockTable.heldMode?_complete _ t u p).trans ?_
      rw [if_neg hu, hf.owned u p page hp hd]
    · obtain ⟨hu, ha⟩ := LockTable.mem_aborted_complete.1 hu
      refine (LockTable.get?_holdings_complete _ t u).trans ?_
      rw [if_neg hu, hf.marked u ha]

end ChangesLocked

/-- Every move keeps the protection up. -/
theorem Move.changesLocked (hm : Move sealed serves t es s s') (h : ChangesLocked s) :
    ChangesLocked s' := by
  cases hm with
  | look _ hl => exact h.look hl
  | refresh hr => exact h.refresh hr
  | giveBack ha hp hr => exact h.giveBack ha hp hr
  | append => exact ⟨h.consistent, h.sound, h.owned, h.marked⟩
  | refuse => exact h
  | read => exact h
  | copy => exact h
  | insert hp hl _ _ _ he =>
    exact h.edit (by rw [Page.insert_id he, h.sound.keyed _ _ hp]; exact hl)
  | remove hp hl _ he =>
    exact h.edit (by rw [Page.remove_id he, h.sound.keyed _ _ hp]; exact hl)
  | @strike _ k _ ht hd =>
    have hr := discarded_foldl_rollBack (s := { s with locks := k }.bump .deadlocks)
      (hd.same.consistent h.consistent) h.sound (s.locks.victimsOf t)
    refine h.discard hr (fun u => hd.same.holdings_eq u) rfl fun u hu => ?_
    rw [aborted_foldl_rollBack] at hu
    exact ht ▸ (hd.mem_aborted u).1 hu
  | commit => exact h.commit t
  | abort =>
    have hd := discarded_abort h.consistent h.sound t
    exact h.discard hd (fun _ => rfl) rfl fun u hu => Or.inl (hd.aborted u hu)

theorem Moves.changesLocked (hm : Moves sealed serves t es s s') (h : ChangesLocked s) :
    ChangesLocked s' := by
  induction hm with
  | done => exact h
  | more hm _ ih => exact ih (hm.changesLocked h)

/-! ## Others are left alone -/

/-- Two transactions cannot have changed one page. -/
theorem ChangesLocked.eq_of_owned (h : ChangesLocked s) {p : PageId} {page : Page}
    (hp : s.cache.pages.get? p = some page) (hd : page.dirtier = some u) {m : Mode}
    (hl : s.locks.heldMode? t p = some m) : u = t :=
  (h.consistent.eq_of_exclusive (h.owned u p page hp hd) hl).symm

theorem get?_edited {copy : Page} {q : PageId} (hq : q ≠ copy.id) :
    (s.edited t copy).cache.pages.get? q = s.cache.pages.get? q := by
  rw [edited, Cache.get?_put, if_neg hq]

/-- The pages that `t` writes in a commit are its own. -/
theorem get?_commit {q : PageId} {page : Page} (hq : s.cache.pages.get? q = some page)
    (hd : page.dirtier ≠ some t) : (s.commit t).2.cache.pages.get? q = some page := by
  have hn : q ∉ s.cache.dirtyPages t := fun hm => by
    obtain ⟨page', hp', hd'⟩ := Cache.mem_dirtyPages.1 hm
    rw [hq] at hp'
    cases hp'
    exact hd hd'
  rcases commit_cases s t with ⟨-, he⟩ | ⟨e, -, -, he⟩ | ⟨-, -, he⟩
  · rw [he]
    exact hq
  · rw [he]
    exact (get?_flushPages hn).trans hq
  · rw [he]
    exact (get?_flushPages hn).trans hq

/-- A move of `t` leaves a page with changes of `u` as it is, unless `u` is struck. -/
theorem Move.kept (hm : Move sealed serves t es s s') (h : ChangesLocked s) (hu : u ≠ t)
    {p : PageId}
    {page : Page} (hp : s.cache.pages.get? p = some page) (hd : page.dirtier = some u) :
    s'.cache.pages.get? p = some page ∨ ∃ us, .struck t us ∈ es ∧ u ∈ us := by
  have hdirty : page.dirtier ≠ none := by simp [hd]
  have hother : page.dirtier ≠ some t := by rw [hd]; exact fun he => hu (Option.some.inj he)
  have hedit : ∀ {q : PageId} {old copy : Page}, s.cache.pages.get? q = some old →
      s.locks.heldMode? t q = some .exclusive → copy.id = old.id →
      (s.edited t copy).cache.pages.get? p = some page := fun {q old copy} hq hl hc => by
    refine (get?_edited fun he => ?_).trans hp
    -- the page that `t` changes is locked exclusively by it, so it is not a page of `u`
    have hpq : p = q := he.trans (hc.trans (h.sound.keyed _ _ hq))
    exact hu (h.eq_of_owned hp hd (hpq ▸ hl))
  cases hm with
  | look => exact Or.inl hp
  | refresh hr => exact Or.inl (hr.kept p page hp hdirty)
  | giveBack => exact Or.inl hp
  | append => exact Or.inl hp
  | refuse => exact Or.inl hp
  | read => exact Or.inl hp
  | copy => exact Or.inl hp
  | insert hq hl _ _ _ he => exact Or.inl (hedit hq hl (Page.insert_id he))
  | remove hq hl _ he => exact Or.inl (hedit hq hl (Page.remove_id he))
  | @strike _ k _ _ hk =>
    have hr := discarded_foldl_rollBack (s := { s with locks := k }.bump .deadlocks)
      (hk.same.consistent h.consistent) h.sound (s.locks.victimsOf t)
    by_cases hv : u ∈ s.locks.victimsOf t
    · exact Or.inr ⟨_, List.mem_singleton_self _, hv⟩
    · refine Or.inl (hr.kept p page hp hdirty fun v hv' he => hv ?_)
      rw [hd] at he
      cases he
      exact hv'
  | commit => exact Or.inl (get?_commit hp hother)
  | abort =>
    exact Or.inl ((discarded_abort h.consistent h.sound t).kept p page hp hdirty
      (List.forall_mem_singleton.2 hother))

/-- **Moves leave the changes of others alone**, unless these are struck. -/
theorem Moves.kept (hm : Moves sealed serves t es s s') (h : ChangesLocked s) (hu : u ≠ t)
    {p : PageId}
    {page : Page} (hp : s.cache.pages.get? p = some page) (hd : page.dirtier = some u) :
    s'.cache.pages.get? p = some page ∨ ∃ us, .struck t us ∈ es ∧ u ∈ us := by
  induction hm with
  | done => exact Or.inl hp
  | more hm _ ih =>
    rcases hm.kept h hu hp hd with hp | ⟨us, hs, hv⟩
    · refine (ih (hm.changesLocked h) hp).imp_right ?_
      rintro ⟨us, hs, hv⟩
      exact ⟨us, List.mem_append_right _ hs, hv⟩
    · exact Or.inr ⟨us, List.mem_append_left _ hs, hv⟩

/-- A page that is handed out holds no changes of another transaction. -/
theorem Moves.read_own (hm : Moves sealed serves t es s s') (h : ChangesLocked s) {p : PageId}
    {page : Page} (hr : .read t p page ∈ es) : page.dirtier = none ∨ page.dirtier = some t := by
  induction hm with
  | done => cases hr
  | more hm _ ih =>
    refine (List.mem_append.1 hr).elim (fun hr => ?_) (ih (hm.changesLocked h))
    cases hm with
    | read hp hl =>
      cases List.mem_singleton.1 hr
      cases hd : page.dirtier with
      | none => exact Or.inl rfl
      | some u =>
        obtain ⟨m, hl⟩ := Option.ne_none_iff_exists'.1 hl
        exact Or.inr (congrArg some (h.eq_of_owned hp hd hl))
    | commit =>
      rw [List.mem_singleton, commitEvent] at hr
      split at hr <;> cases hr
    | _ => simp at hr

/-- The moves of a transaction leave the locks of others alone, unless these are struck. -/
theorem Move.heldMode?_of_ne (hm : Move sealed serves t es s s') (h : ChangesLocked s) (hu : u ≠ t)
    (p : PageId) : s'.locks.heldMode? u p = s.locks.heldMode? u p ∨
      s'.locks.heldMode? u p = none ∧ ∃ us, .struck t us ∈ es ∧ u ∈ us := by
  cases hm with
  | look ht hl => exact Or.inl (hl.heldMode?_of_ne (ht ▸ hu) p)
  | refresh hr => exact Or.inl (by rw [hr.locks_eq])
  | giveBack _ _ hr =>
    exact Or.inl ((LockTable.heldMode?_release hr u p).trans (if_neg fun he => hu he.1))
  | append => exact Or.inl rfl
  | refuse => exact Or.inl rfl
  | read => exact Or.inl rfl
  | copy => exact Or.inl rfl
  | insert => exact Or.inl rfl
  | remove => exact Or.inl rfl
  | @strike _ k _ _ hk =>
    have hr := discarded_foldl_rollBack (s := { s with locks := k }.bump .deadlocks)
      (hk.same.consistent h.consistent) h.sound (s.locks.victimsOf t)
    by_cases hv : u ∈ s.locks.victimsOf t
    · exact Or.inr ⟨(hr.heldMode?_eq u p).trans (if_pos hv), _, List.mem_singleton_self _, hv⟩
    · exact Or.inl (((hr.heldMode?_eq u p).trans (if_neg hv)).trans (hk.same.heldMode?_eq u p))
  | commit =>
    have hf : (s.flushPages (s.cache.dirtyPages t)).2.locks = s.locks :=
      locks_flushPages s _
    left
    rcases commit_cases s t with ⟨-, he⟩ | ⟨e, -, -, he⟩ | ⟨-, -, he⟩
    · rw [he]
    · rw [he, hf]
    · rw [he, hf, LockTable.heldMode?_complete, if_neg hu]
  | abort =>
    left
    rw [(discarded_abort h.consistent h.sound t).heldMode?_eq,
      if_neg (mt List.mem_singleton.1 hu)]

/-- Nobody is given a lock by the moves of another transaction. -/
theorem Move.heldMode?_none (hm : Move sealed serves t es s s') (h : ChangesLocked s) (hu : u ≠ t)
    {p : PageId} (hp : s.locks.heldMode? u p = none) : s'.locks.heldMode? u p = none :=
  (hm.heldMode?_of_ne h hu p).elim (fun he => he.trans hp) fun he => he.1

theorem Moves.heldMode?_none (hm : Moves sealed serves t es s s') (h : ChangesLocked s) (hu : u ≠ t)
    {p : PageId} (hp : s.locks.heldMode? u p = none) : s'.locks.heldMode? u p = none := by
  induction hm with
  | done => exact hp
  | more hm _ ih => exact ih (hm.changesLocked h) (hm.heldMode?_none h hu hp)

end Store
end TableStore

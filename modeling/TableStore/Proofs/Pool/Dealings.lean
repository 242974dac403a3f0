import TableStore.Proofs.Lock.Waiting
import TableStore.Proofs.Pool.Kept
import TableStore.Proofs.Pool.Protection
import TableStore.Proofs.Pool.Room

/-!
# What a step does to locks

`Store.ChangesLocked` says that a page with changes is locked by whoever made them.  A transaction
that gives back the lock on a page that it has changed breaks this.  What a step does to the locks
does not depend on it, and is told here for all sessions: whoever goes on with a call keeps the
locks that it had before, gets the lock on the page that it is handed, and touches no lock of
anybody else.

## What is here

* `Store.Deals` — the effect of a call on locks and changes, as far as the call has come.
* `Call.Confers` — the lock that comes with an answer.
* `Store.Dealt` — a call has been carried on with such an effect, fits if it is in progress, and
  confers its lock if it is answered.
* `Store.dealt_start`, `Store.dealt_answer` — all parts of a call are of this kind.
-/

set_option autoImplicit false
namespace TableStore

/-- Nothing is asked of the files that may grow. -/
abbrev anyFile : TableId → TableFile → Prop := fun _ _ => True

/-- The page that has been handed out is locked exclusively. -/
def LockTable.CopyHeld (l : LockTable) (t : TxnId) (reply : Reply) : Prop :=
  ∀ page, reply.result = .ok page → l.heldMode? t page.id = some .exclusive

/-- The lock that a transaction has with the answer to a call: on the page that it is handed, on the
page that its row has been put into, or on the page that its row has been taken from.  With a changed
copy that the pool does not keep it has the lock on the page of the copy. -/
def Call.Confers (l : LockTable) (t : TxnId) (reply : Reply) : Call → Prop
  | .fetch p access => l.Covered ⟨t, p, access.mode⟩
  | .insert _ _ => ∃ r, reply.row.bind Row.rid = some r ∧ l.heldMode? t r.page = some .exclusive
  | .remove row => ∃ r, row.rid = some r ∧ l.heldMode? t r.page = some .exclusive
  | .insertCopy _ _ => l.CopyHeld t reply
  | .removeCopy _ _ => l.CopyHeld t reply

namespace Store

variable {t u : TxnId} {call : Call} {p : Pending} {s s' m : Store} {q : PageId}

/-- What a call of `t` makes of a store. -/
structure Deals (t : TxnId) (s s' : Store) : Prop where
  consistent : s'.locks.Consistent
  sound : s'.cache.Sound
  aborted_eq : s'.locks.aborted = s.locks.aborted
  /-- The entries of others stay. -/
  others : ∀ u, u ≠ t → s'.locks.holdings.get? u = s.locks.holdings.get? u
  /-- Own locks are kept, or become stronger. -/
  kept : ∀ p m, s.locks.Covered ⟨t, p, m⟩ → s'.locks.Covered ⟨t, p, m⟩
  /-- A victim gets no lock. -/
  victim : t ∈ s.locks.aborted → s'.locks.holdings.get? t = s.locks.holdings.get? t
  /-- Changes are made by `t` alone, and only if it is no victim. -/
  dirt : ∀ p page, s'.cache.pages.get? p = some page → page.dirtier ≠ none →
    s.cache.pages.get? p = some page ∨ page.dirtier = some t ∧ t ∉ s.locks.aborted

namespace Deals

protected theorem refl (hl : s.locks.Consistent) (hc : s.cache.Sound) : Deals t s s :=
  ⟨hl, hc, rfl, fun _ _ => rfl, fun _ _ => id, fun _ => rfl, fun _ _ hp _ => Or.inl hp⟩

/-- Only the locks and the cache count. -/
theorem congr (h : Deals t s m) (hl : s'.locks = m.locks) (hc : s'.cache = m.cache) :
    Deals t s s' := by
  obtain ⟨h₁, h₂, h₃, h₄, h₅, h₆, h₇⟩ := h
  rw [← hl] at h₁ h₃ h₄ h₅ h₆
  rw [← hc] at h₂ h₇
  exact ⟨h₁, h₂, h₃, h₄, h₅, h₆, h₇⟩

/-- A look at a request of `t`. -/
theorem look (hc : s.cache.Sound) {r : Request} {a : Answer} {l : LockTable} (ht : r.txn = t)
    (h : LockTable.Looked s.locks r a l) : Deals t s { s with locks := l } where
  consistent := h.consistent
  sound := hc
  aborted_eq := h.aborted_eq
  others u hu := h.others u (ht ▸ hu)
  kept q m hm := h.covered ht hm
  victim hv := h.ungranted (fun ha => by
    rw [h.refused_iff.2 (ht ▸ hv)] at ha
    cases ha) t
  dirt _ _ hp _ := Or.inl hp

/-- The use of a page. -/
theorem refresh (h : Deals t s m) (hr : m.Refreshes q s') : Deals t s s' := by
  have hl := hr.locks_eq
  obtain ⟨h₁, -, h₃, h₄, h₅, h₆, h₇⟩ := h
  rw [← hl] at h₁ h₃ h₄ h₅ h₆
  exact ⟨h₁, hr.sound, h₃, h₄, h₅, h₆, fun p page hp hd => h₇ p page ((hr.dirty_iff hd).1 hp) hd⟩

/-- A changed copy of a page is put in. -/
theorem put (h : Deals t s m) (ha : t ∉ m.locks.aborted) (copy : Page) :
    Deals t s { m with cache := m.cache.put { copy with dirtier := some t } false } where
  consistent := h.consistent
  sound := h.sound.put fun hf => by cases hf
  aborted_eq := h.aborted_eq
  others := h.others
  kept := h.kept
  victim := h.victim
  dirt p page hp hd := by
    rw [Cache.get?_put] at hp
    split at hp
    · cases hp
      exact Or.inr ⟨rfl, h.aborted_eq ▸ ha⟩
    · exact h.dirt p page hp hd

/-- The lock on a page is given back that was not held before. -/
theorem release (h : Deals t s m) (hn : s.locks.heldMode? t q = none) (ha : t ∉ s.locks.aborted)
    {l : LockTable} (hr : m.locks.release t q = .ok l) : Deals t s { m with locks := l } where
  consistent := h.consistent.release hr
  sound := h.sound
  aborted_eq := (LockTable.aborted_release hr).trans h.aborted_eq
  others u hu := (LockTable.get?_holdings_release hr hu).trans (h.others u hu)
  kept p m hm := by
    have hp : p ≠ q := fun he => by
      rw [LockTable.Covered, he, hn] at hm
      rcases hm with hm | hm <;> cases hm
    have := h.kept p m hm
    rw [LockTable.Covered] at this ⊢
    rwa [LockTable.heldMode?_release hr, if_neg fun he => hp he.2]
  victim hv := absurd hv ha
  dirt := h.dirt

/-- A changed copy of a page is installed, for which room may have to be made. -/
theorem install (h : Deals t s m) (copy : Page) : Deals t s (m.install t copy).2 := by
  rcases m.install_cases t copy with ⟨-, he⟩ | ⟨e, -, -, he⟩ | ⟨k, hk, he⟩
  · rw [he]
    exact h
  · rw [he]
    exact h
  · rw [he]
    have ha : t ∉ s.locks.aborted := fun ha => by
      rw [← h.aborted_eq] at ha
      rw [Store.install, if_pos (by simpa [LockTable.isAborted] using ha)] at he
      cases he
    have hk : Deals t s k := by
      rcases hk with ⟨rfl, -⟩ | ⟨hn, hroom⟩
      · exact h
      · exact h.refresh (refreshes_makeRoom h.sound (Assoc.get?_eq_none_iff.2 hn) hroom)
    exact hk.put (hk.aborted_eq ▸ ha) copy

/-- Whoever holds no lock on a page is given none by others. -/
theorem heldMode?_none (h : Deals t s s') (hu : u ≠ t) (q : PageId)
    (hq : s.locks.heldMode? u q = none) : s'.locks.heldMode? u q = none := by
  rw [LockTable.heldMode?, h.others u hu]
  exact hq

end Deals

/-! ## Carrying a call on

This is a view of a call that leaves files and rows out.  It says what a call of one transaction
does to the locks and to the changed pages of everybody, wherever the call stands. -/

/-- A call of `t` has been carried on from the store `s` as far as `run`. -/
structure Dealt (t : TxnId) (call : Call) (s : Store) (run : Progress × Store) : Prop where
  deals : Deals t s run.2
  fits : ∀ r, Running.of? call run.1 = some r →
    r.call = call ∧ r.pending.Fits anyFile run.2.locks t call
  confers : ∀ reply page, run.1 = .done reply → reply.result = .ok page →
    call.Confers run.2.locks t reply

theorem Dealt.refuse (h : Deals t s m) (e : Error) : Dealt t call s (.refuse e, m) where
  deals := h
  fits r hr := by cases hr
  confers reply page hd hp := by
    cases hd
    cases hp

theorem Dealt.asking (h : Deals t s m) (hf : p.Fits anyFile m.locks t call) :
    Dealt t call s (.asking p, m) where
  deals := h
  fits r hr := by cases hr; exact ⟨rfl, hf⟩
  confers reply page hd := by cases hd

theorem Dealt.waiting (h : Deals t s m) (hf : p.Fits anyFile m.locks t call) :
    Dealt t call s (.waiting p, m) where
  deals := h
  fits r hr := by cases hr; exact ⟨rfl, hf⟩
  confers reply page hd := by cases hd

theorem Dealt.answered (h : Deals t s m) {reply : Reply}
    (hc : ∀ page, reply.result = .ok page → call.Confers m.locks t reply) :
    Dealt t call s (.done reply, m) where
  deals := h
  fits r hr := by cases hr
  confers _ page hd hp := by
    cases hd
    exact hc page hp

theorem Dealt.seek (h : Deals t s m) {table : TableId} {search : SlotSearch}
    (hc : call.Seeks table search.row search.keep) : Dealt t call s (m.seek t search) where
  deals := by
    obtain ⟨disk, he⟩ := (m.seek_rest t search).1
    rw [he]
    exact h.congr rfl rfl
  fits := (Carried.seek (.done m) hc trivial fun h : False => h.elim).fits
  confers reply _ hd := absurd hd ((m.seek_rest t search).2 reply)

/-- Before its first request a call does nothing to locks and changes. -/
theorem dealt_start (hl : s.locks.Consistent) (hc : s.cache.Sound) (call : Call) :
    Dealt t call s (s.start t call) := by
  have h : Deals t s s := .refl hl hc
  have hinsert : ∀ {table file row keep}, call.Seeks table row keep →
      Dealt t call s (s.startInsert t file row keep) := fun {table file row keep} hc => by
    rw [startInsert]
    split
    · exact .refuse h _
    · exact .seek h hc
  have hremove : ∀ {file row keep}, call.Takes row keep →
      Dealt t call s (s.startRemove t file row keep) := fun {file row keep} hc => by
    rw [startRemove]
    split
    · exact .refuse h _
    · split
      · exact .refuse h _
      · exact .asking h (.take hc)
  cases call with
  | fetch p access => exact .asking h (.read rfl)
  | insert table row =>
    rw [start]
    split
    · exact .refuse h _
    · split
      · exact .refuse h _
      · exact hinsert (.insert table row)
  | remove row =>
    rw [start]
    split
    · exact .refuse h _
    · split
      · exact .refuse h _
      · split
        · exact .refuse h _
        · exact hremove (.remove row)
  | insertCopy file row => exact hinsert (.insertCopy file row)
  | removeCopy file row => exact hremove (.removeCopy file row)

/-- If a call is answered before its first request, it is refused. -/
theorem start_refuses {reply : Reply} (h : (s.start t call).1 = .done reply) :
    ∃ e, reply.result = .error e := by
  have hinsert : ∀ {file row keep}, (s.startInsert t file row keep).1 = .done reply →
      ∃ e, reply.result = .error e := fun {file row keep} hd => by
    rw [startInsert] at hd
    split at hd
    · cases hd
      exact ⟨_, rfl⟩
    · exact absurd hd ((s.seek_rest t _).2 reply)
  have hremove : ∀ {file row keep}, (s.startRemove t file row keep).1 = .done reply →
      ∃ e, reply.result = .error e := fun {file row keep} hd => by
    rw [startRemove] at hd
    split at hd
    · cases hd
      exact ⟨_, rfl⟩
    · split at hd
      · cases hd
        exact ⟨_, rfl⟩
      · cases hd
  cases call with
  | fetch p access => cases h
  | insert table row =>
    rw [start] at h
    split at h
    · cases h
      exact ⟨_, rfl⟩
    · split at h
      · cases h
        exact ⟨_, rfl⟩
      · exact hinsert h
  | remove row =>
    rw [start] at h
    split at h
    · cases h
      exact ⟨_, rfl⟩
    · split at h
      · cases h
        exact ⟨_, rfl⟩
      · split at h
        · cases h
          exact ⟨_, rfl⟩
        · exact hremove h
  | insertCopy file row => exact hinsert h
  | removeCopy file row => exact hremove h

/-! ## With the lock

The page that is handed out is locked, and a page that a search passes is given back only if the
call has locked it itself. -/

theorem locks_install (s : Store) (t : TxnId) (copy : Page) :
    (s.install t copy).2.locks = s.locks := by
  rcases s.install_cases t copy with ⟨-, he⟩ | ⟨e, -, -, he⟩ | ⟨m, hm, he⟩
  · rw [he]
  · rw [he]
  · rw [he]
    rcases hm with ⟨rfl, -⟩ | ⟨-, hm⟩
    · rfl
    · rcases s.makeRoom_cases with ⟨-, hr⟩ | ⟨-, -, hr⟩ | ⟨c, -, -, hr⟩
      · rw [hr] at hm
        cases hm
        rfl
      · rw [hr] at hm
        cases hm
      · rw [hr] at hm
        cases hm
        rfl

/-- The page that is installed is the one that is handed out. -/
theorem id_install {copy page : Page} (h : (s.install t copy).1 = .ok page) :
    page.id = copy.id := by
  rcases s.install_cases t copy with ⟨-, he⟩ | ⟨e, -, -, he⟩ | ⟨m, -, he⟩
  · rw [he] at h
    cases h
  · rw [he] at h
    cases h
  · rw [he] at h
    cases h
    rfl

/-- The changed copy of a page is answered, and put into the pool if it is to be kept. -/
theorem Dealt.edit (h : Deals t s m) {keep : Bool} {edit : Except Error (Page × Row)}
    (hc : ∀ copy row page, edit = .ok (copy, row) → page.id = copy.id →
      call.Confers m.locks t { result := .ok page, row := some row }) :
    Dealt t call s (m.finishEdit t keep edit) := by
  cases edit with
  | error e => exact .refuse h e
  | ok edit =>
    obtain ⟨copy, row⟩ := edit
    rw [finishEdit]
    dsimp only
    split
    · refine .answered (h.install copy) fun page hp => ?_
      dsimp only at hp
      rw [locks_install, hp]
      exact hc copy row page rfl (id_install hp)
    · exact .answered h fun page hp => by cases hp; exact hc copy row copy rfl rfl

/-- The record id of a row that has been put into a page names the page. -/
theorem insert_rid {page copy : Page} {row placed : Row}
    (h : page.insert row = .ok (copy, placed)) :
    ∃ r, placed.rid = some r ∧ r.page = page.id := by
  rw [Page.insert] at h
  split at h
  · cases h
  · split at h
    · cases h
    · cases h
      exact ⟨_, rfl, rfl⟩

theorem Dealt.insert (h : Deals t s m) {page : Page} {table : TableId} {row : Row} {keep : Bool}
    (hc : call.Seeks table row keep) (hx : m.locks.heldMode? t page.id = some .exclusive) :
    Dealt t call s (m.finishEdit t keep (page.insert row)) := by
  refine .edit h fun copy placed page' he hid => ?_
  cases hc with
  | insert =>
    obtain ⟨r, hr, hp⟩ := insert_rid he
    exact ⟨r, hr, hp ▸ hx⟩
  | insertCopy => exact fun page hp => by cases hp; rw [hid, Page.insert_id he, hx]

theorem Dealt.remove (h : Deals t s m) {page : Page} {row : Row} {keep : Bool}
    (hc : call.Takes row keep) (hx : m.locks.heldMode? t page.id = some .exclusive) :
    Dealt t call s (m.finishEdit t keep (page.remove row)) := by
  refine .edit h fun copy bare page' he hid => ?_
  cases hc with
  | remove =>
    obtain ⟨r, hr, hp⟩ := remove_rid he
    exact ⟨r, hr, hp ▸ hx⟩
  | removeCopy => exact fun page hp => by cases hp; rw [hid, Page.remove_id he, hx]

/-- A lock is given back only if it was not held before. -/
theorem Dealt.skipFull (h : Deals t s m) (ha : t ∉ s.locks.aborted) {table : TableId}
    {search : SlotSearch} (hc : call.Seeks table search.row search.keep)
    (hn : search.held = false → s.locks.heldMode? t q = none) :
    Dealt t call s (m.skipFull t q search) := by
  rw [Store.skipFull]
  split
  · exact .seek h hc
  · rename_i hh
    rw [releasePage]
    cases hr : m.locks.release t q with
    | error e => exact .refuse h e
    | ok locks => exact .seek (h.release (hn (by simpa using hh)) ha hr) hc

/-- What a call does once its lock has been granted. -/
theorem dealt_resume (h : Deals t s m) (hf : p.Fits anyFile s.locks t call)
    (ha : t ∉ s.locks.aborted) (hc : m.locks.Covered p.request) :
    Dealt t call s (m.resume p) := by
  have href := refreshes_load h.sound t p.request.page
  rw [resume, hf.txn_eq]
  cases hload : m.load t p.request.page with
  | mk result k =>
    rw [hload] at href
    have hk : Deals t s k := h.refresh href
    cases result with
    | error e => exact .refuse hk e
    | ok page =>
      have hid : page.id = p.request.page := href.sound.keyed _ _ (load_ok hload).1
      rw [← href.locks_eq] at hc
      cases hf with
      | read hcall =>
        subst hcall
        exact .answered hk fun _ _ => hc
      | place hcall _ _ hh =>
        dsimp only
        split
        · exact .skipFull hk ha hcall hh
        · exact .insert hk hcall (hid ▸ hc.elim id id)
      | take hcall => exact .remove hk hcall (hid ▸ hc.elim id id)

/-! ## Asking and waiting -/

theorem dealt_answer (hc : s.cache.Sound) (hf : p.Fits anyFile s.locks t call) {a : Answer}
    {l : LockTable} (hm : LockTable.Looked s.locks p.request a l) :
    Dealt t call s ({ s with locks := l }.answer p a) := by
  have hlook : Deals t s { s with locks := l } := .look hc hf.txn_eq hm
  cases a with
  | refused => exact .refuse hlook _
  | waiting =>
    refine .waiting hlook (hf.mono fun q hq => ?_)
    rw [LockTable.heldMode?, hm.ungranted fun he => by cases he]
    exact hq
  | granted =>
    refine dealt_resume hlook hf (fun ha => ?_) ?_
    · have := hm.refused_iff.2 (hf.txn_eq.symm ▸ ha)
      cases this
    · have hgot := hm.granted rfl p.request.page
      rw [if_pos rfl] at hgot
      rw [LockTable.Covered, hgot]
      split
      · exact Or.inr rfl
      · exact Or.inl rfl

theorem dealt_ask (hl : s.locks.Consistent) (hc : s.cache.Sound)
    (hf : p.Fits anyFile s.locks t call) : Dealt t call s (s.ask p) :=
  dealt_answer hc hf (LockTable.looked_ask hl p.request)

theorem dealt_wake (hl : s.locks.Consistent) (hc : s.cache.Sound)
    (hf : p.Fits anyFile s.locks t call) {run : Progress × Store} (hw : s.wake? p = some run) :
    Dealt t call s run := by
  have hm := LockTable.looked_wake hl p.request
  rw [wake?] at hw
  split at hw
  · cases hw
  · rename_i a l _ he
    rw [he] at hm
    cases hw
    exact dealt_answer hc hf hm

/-- When the time of a request is up, the call goes on as after any other look, or the others that
hold locks are struck. -/
theorem dealt_expire (hl : s.locks.Consistent) (hc : s.cache.Sound)
    (hf : p.Fits anyFile s.locks t call) :
    s.strikes p.request = [] ∧ Dealt t call s (s.expire p) ∨
    ∃ l, s.locks.expire p.request = (.deadlock (s.locks.victimsOf t), l) ∧
      LockTable.Deadlocked s.locks p.request l ∧
      s.strikes p.request = [.struck t (s.locks.victimsOf t)] ∧
      s.expire p = (.asking p,
        (s.locks.victimsOf t).foldl rollBack ({ s with locks := l }.bump .deadlocks)) := by
  rw [strikes, expire]
  rcases LockTable.expire_cases hl p.request with ⟨l, he, hm⟩ | ⟨l, he, hm⟩ | ⟨l, he, hm⟩
  · rw [he]
    exact Or.inl ⟨rfl, dealt_answer hc hf hm⟩
  · rw [he]
    exact Or.inl ⟨rfl, dealt_answer hc hf hm⟩
  · rw [he, hf.txn_eq]
    exact Or.inr ⟨l, rfl, hm, rfl, rfl⟩

end Store
end TableStore

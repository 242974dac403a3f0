import TableStore.Proofs.Pool.Dealings

/-!
# Whatever happens to a session

Transactions take steps, locks are given back early, pages are written and dropped by hand, and files
change from outside.  A lock that a transaction holds outlives all of this but its own end, its own
release of the page, and being struck.

## What is here

* `Session.Happening`, `Session.Happens`, `Session.Course` — what can happen, and one thing after
  another.
* `Session.Effect` — what a step does to locks and changes; `Session.Step.effect` — every step is of
  this kind.
* `Session.VictimsCleared` — the lock table is consistent, every call in progress fits, and a victim
  has no locks and no changes once it has been rolled back; `Session.Happens.victimsCleared` — it
  stays so.
* `Session.Happens.covered`, `Session.Course.covered` — a lock is kept.
* `Session.Effect.confers` — and whoever is handed a page has the lock on it.
-/

set_option autoImplicit false
namespace TableStore
namespace Store

variable {s s' : Store} {t u : TxnId}

/-- A transaction has no locks, and no page in memory holds its changes. -/
structure Cleared (s : Store) (t : TxnId) : Prop where
  holdings_eq : s.locks.holdings.get? t = none
  clean : ∀ p page, s.cache.pages.get? p = some page → page.dirtier ≠ some t

theorem Cleared.heldMode?_eq (h : s.Cleared t) (p : PageId) : s.locks.heldMode? t p = none := by
  rw [LockTable.heldMode?, h.holdings_eq]
  rfl

theorem Cleared.dirtyPages_eq (h : s.Cleared t) : s.cache.dirtyPages t = [] := by
  refine List.eq_nil_iff_forall_not_mem.2 fun p hp => ?_
  obtain ⟨page, hg, hd⟩ := Cache.mem_dirtyPages.1 hp
  exact h.clean p page hg hd

/-- Others change nothing for a transaction without locks and changes, nor does a victim itself. -/
theorem Deals.cleared (h : Deals t s s') (hu : s.Cleared u) (ha : u = t → u ∈ s.locks.aborted) :
    s'.Cleared u where
  holdings_eq := by
    by_cases hut : u = t
    · exact (hut ▸ h.victim (hut ▸ ha hut)).trans hu.holdings_eq
    · exact (h.others u hut).trans hu.holdings_eq
  clean p page hp hd := by
    rcases h.dirt p page hp (by simp [hd]) with hp' | ⟨ht, hn⟩
    · exact hu.clean p page hp' hd
    · rw [hd] at ht
      cases ht
      exact hn (ha rfl)

theorem Discarded.cleared {us : List TxnId} (h : Discarded us s s') (hu : s.Cleared u ∨ u ∈ us) :
    s'.Cleared u where
  holdings_eq := by
    rw [h.holdings]
    split
    · rfl
    · rename_i hn
      exact (hu.resolve_right hn).holdings_eq
  clean p page hp hd := by
    obtain ⟨hp', hn⟩ := h.origin p page hp
    exact hu.elim (fun hc => hc.clean p page hp' hd) fun hm => hn u hm hd

/-- Pages are only made clean when they are written. -/
theorem Cleared.flushPages (h : s.Cleared u) (ps : List PageId) : (s.flushPages ps).2.Cleared u := by
  refine flushPages_induction (P := fun m => m.Cleared u) (fun m p m' hm hf => ⟨?_, ?_⟩) ps h
  · rcases flushPage_cases hf with ⟨rfl, -⟩ | ⟨page, file, disk, -, -, -, -, rfl⟩
    · exact hm.holdings_eq
    · exact hm.holdings_eq
  · intro q page hq hd
    rcases dirtier_flushPage hf hq with hc | ⟨-, hq⟩
    · rw [hd] at hc
      cases hc
    · exact hm.clean q page hq hd

theorem Cleared.commit (h : s.Cleared u) (t : TxnId) : (s.commit t).2.Cleared u := by
  have hf := h.flushPages (s.cache.dirtyPages t)
  rcases commit_cases s t with ⟨-, he⟩ | ⟨e, -, -, he⟩ | ⟨-, -, he⟩
  · rw [he]
    exact h
  · rw [he]
    exact hf
  · rw [he]
    refine ⟨(LockTable.get?_holdings_complete _ t u).trans ?_, hf.clean⟩
    rw [hf.holdings_eq, ite_self]

theorem Cleared.releasePage (h : s.Cleared u) (hl : s.locks.Consistent) (t : TxnId) (p : PageId) :
    (s.releasePage t p).2.Cleared u := by
  rw [Store.releasePage]
  cases hr : s.locks.release t p with
  | error e => exact h
  | ok l => exact ⟨hl.get?_release_eq_none hr h.holdings_eq, h.clean⟩

theorem Cleared.manual (h : s.Cleared u) (hm : Session.Manual s s') : s'.Cleared u := by
  cases hm with
  | @flushPage _ p hf =>
    have he : (s.flushPages [p]).2 = s' := by rw [Store.flushPages, hf]; rfl
    exact he ▸ h.flushPages [p]
  | flushTxn t => exact h.flushPages _
  | flushAll => exact h.flushPages _
  | discard p =>
    refine ⟨h.holdings_eq, fun q page hq => h.clean q page ?_⟩
    rw [Store.discard, Cache.get?_drop] at hq
    split at hq
    · cases hq
    · exact hq
  | outside disk catalog pageSize => exact ⟨h.holdings_eq, h.clean⟩

theorem sound_flushPages (hc : s.cache.Sound) (ps : List PageId) :
    (s.flushPages ps).2.cache.Sound := by
  refine flushPages_induction (P := fun m => m.cache.Sound) (fun m p m' hm hf => ?_) ps hc
  rcases flushPage_cases hf with ⟨rfl, -⟩ | ⟨page, file, disk, hp, -, -, -, rfl⟩
  · exact hm
  · exact hm.settle (hm.keyed p page hp)

end Store

theorem Session.Manual.sound {s s' : Store} (hm : Manual s s') (hc : s.cache.Sound) : s'.cache.Sound := by
  cases hm with
  | @flushPage _ p hf =>
    have he : (s.flushPages [p]).2 = s' := by rw [Store.flushPages, hf]; rfl
    exact he ▸ Store.sound_flushPages hc [p]
  | flushTxn t => exact Store.sound_flushPages hc _
  | flushAll => exact Store.sound_flushPages hc _
  | discard p => exact hc.drop p
  | outside => exact hc

namespace Session

variable {σ σ' : Session} {t u : TxnId} {p : PageId} {us : List TxnId}

/-! ## Happenings

Beside the steps of transactions there is what is done by hand, by anybody and at any time.  A lock
that is given back by hand is kept apart, since it is the only thing of this kind that touches
locks. -/

/-- What happens to a session. -/
inductive Happening where
  /-- A transaction takes a step, of which these events are seen. -/
  | step (t : TxnId) (es : List Event)
  /-- A lock is given back before the end. -/
  | release (t : TxnId) (p : PageId)
  /-- Pages are written or dropped by hand, or changes come from outside. -/
  | manual

inductive Happens (σ : Session) : Happening → Session → Prop where
  | step {t : TxnId} {a : Action} {es : List Event} {σ' : Session} (hs : Step t a σ es σ') :
      Happens σ (.step t es) σ'
  | release (t : TxnId) (p : PageId) :
      Happens σ (.release t p) { σ with store := (σ.store.releasePage t p).2 }
  | manual {s : Store} (hm : Manual σ.store s) : Happens σ .manual { σ with store := s }

/-- One thing happens after the other. -/
inductive Course (σ : Session) : List Happening → Session → Prop where
  | start : Course σ [] σ
  | next {ks : List Happening} {k : Happening} {σ' σ'' : Session} (h : Course σ ks σ')
      (hk : Happens σ' k σ'') : Course σ (ks ++ [k]) σ''

/-- The transaction commits, aborts or is struck, or gives back the lock on the page. -/
def Happening.Ends (t : TxnId) (p : PageId) : Happening → Prop
  | .step _ es => .committed t ∈ es ∨ .aborted t ∈ es ∨ ∃ u us, .struck u us ∈ es ∧ t ∈ us
  | .release u q => u = t ∧ q = p
  | .manual => False

/-! ## What a step does -/

/-- What a step of `t` does. -/
inductive Effect (t : TxnId) (σ : Session) (es : List Event) (σ' : Session) : Prop where
  /-- A call goes on. -/
  | dealt {call : Call} {run : Progress × Store} (hd : Store.Dealt t call σ.store run)
      (hes : es = σ.store.outcomes t call run.1) (hs : σ' = σ.carry t call run)
      (hc : σ.running t = none ∧ run = σ.store.start t call ∨
        ∃ p asleep, σ.running t = some ⟨call, p, asleep⟩)
  /-- The others that hold locks are struck. -/
  | struck {call : Call} {p : Pending} {l : LockTable}
      (hr : σ.running t = some ⟨call, p, true⟩)
      (hl : σ.store.locks.expire p.request = (.deadlock (σ.store.locks.victimsOf t), l))
      (hd : LockTable.Deadlocked σ.store.locks p.request l) (ht : p.request.txn = t)
      (hes : es = [.struck t (σ.store.locks.victimsOf t)])
      (hs : σ' = σ.carry t call (.asking p, (σ.store.locks.victimsOf t).foldl Store.rollBack
        ({ σ.store with locks := l }.bump .deadlocks)))
  | committed (hn : σ.running t = none) (hes : es = [σ.store.commitEvent t])
      (hs : σ' = { σ with store := (σ.store.commit t).2 })
  | aborted (hn : σ.running t = none) (hes : es = [.aborted t])
      (hs : σ' = { σ with store := σ.store.abort t })

/-- The lock table and the cache make sense, the calls in progress fit, and a victim has neither
locks nor changes, unless it is one of those that have not been rolled back yet. -/
structure VictimsCleared (us : List TxnId) (σ : Session) : Prop where
  consistent : σ.store.locks.Consistent
  sound : σ.store.cache.Sound
  fits : ∀ t r, σ.running t = some r → r.pending.Fits anyFile σ.store.locks t r.call
  cleared : ∀ t, t ∈ σ.store.locks.aborted → t ∉ us → σ.store.Cleared t

theorem VictimsCleared.idle {s : Store} (h : s.Fresh) : (idle s).VictimsCleared us where
  consistent := h.changesLocked.consistent
  sound := h.changesLocked.sound
  fits _ _ hr := by cases hr
  cleared t ht := by
    have : t ∈ s.locks.aborted := ht
    rw [h.locks_eq] at this
    exact absurd this (Distinct.not_mem_empty t)

theorem Step.effect {a : Action} {es : List Event} (hs : Step t a σ es σ')
    (h : σ.VictimsCleared us) : Effect t σ es σ' := by
  cases hs with
  | begin call hn =>
    exact .dealt (Store.dealt_start h.consistent h.sound call) rfl rfl (.inl ⟨hn, rfl⟩)
  | ask hr =>
    exact .dealt (Store.dealt_ask h.consistent h.sound (h.fits _ _ hr)) rfl rfl
      (.inr ⟨_, _, hr⟩)
  | wake hr hw =>
    exact .dealt (Store.dealt_wake h.consistent h.sound (h.fits _ _ hr) hw) rfl rfl
      (.inr ⟨_, _, hr⟩)
  | @expire _ call p hr =>
    have hf := h.fits _ _ hr
    rcases Store.dealt_expire h.consistent h.sound hf with ⟨he, hd⟩ | ⟨l, hl, hd, he, hrun⟩
    · exact .dealt hd (by rw [he, List.nil_append]) rfl (.inr ⟨_, _, hr⟩)
    · exact .struck hr hl hd hf.txn_eq (by rw [he, hrun]; rfl) (by rw [hrun])
  | commit hn => exact .committed hn rfl rfl
  | abort hn => exact .aborted hn rfl rfl

/-! ## Victims stay cleared -/

namespace VictimsCleared

/-- A session in which no call goes on. -/
theorem stay (h : σ.VictimsCleared us) {s : Store} (hl : s.locks.Consistent) (hc : s.cache.Sound)
    (hheld : ∀ u q, σ.store.locks.heldMode? u q = none → s.locks.heldMode? u q = none)
    (hcl : ∀ u, u ∈ s.locks.aborted → u ∉ us → s.Cleared u) :
    { σ with store := s }.VictimsCleared us where
  consistent := hl
  sound := hc
  fits t r hr := (h.fits t r hr).mono (hheld t)
  cleared := hcl

theorem dealt (h : σ.VictimsCleared us) {call : Call} {run : Progress × Store}
    (hd : Store.Dealt t call σ.store run) : (σ.carry t call run).VictimsCleared us where
  consistent := hd.deals.consistent
  sound := hd.deals.sound
  fits := fits_carry h.fits (fun _ hu => hd.deals.heldMode?_none hu) hd.fits
  cleared u ha hu := by
    have ha' : u ∈ σ.store.locks.aborted := hd.deals.aborted_eq ▸ ha
    exact hd.deals.cleared (h.cleared u ha' hu) fun _ => ha'

/-- Transactions lose their changes and locks, and become victims. -/
theorem discarded (h : σ.VictimsCleared us) {vs : List TxnId} {m s : Store}
    (hd : Store.Discarded vs m s) (hc : m.cache = σ.store.cache)
    (hl : ∀ u, m.locks.holdings.get? u = σ.store.locks.holdings.get? u)
    (ha : ∀ u, u ∈ s.locks.aborted → u ∈ σ.store.locks.aborted ∨ u ∈ vs) :
    (∀ u, u ∈ s.locks.aborted → u ∉ us → s.Cleared u) ∧
    ∀ u q, σ.store.locks.heldMode? u q = none → s.locks.heldMode? u q = none := by
  refine ⟨fun u hu hn => hd.cleared ((ha u hu).imp_left fun ha => ?_), fun u q hq => ?_⟩
  · have hcl := h.cleared u ha hn
    exact ⟨(hl u).trans hcl.holdings_eq, fun p page hp => hcl.clean p page (hc ▸ hp)⟩
  · rw [hd.heldMode?_eq, LockTable.heldMode?, hl]
    split
    · rfl
    · exact hq

/-- The others that hold locks are struck, and have been rolled back. -/
theorem struck (h : σ.VictimsCleared us) {call : Call} {p : Pending} {l : LockTable}
    (hf : p.Fits anyFile σ.store.locks t call) (hd : LockTable.Deadlocked σ.store.locks p.request l)
    (ht : p.request.txn = t) :
    (σ.carry t call (.asking p, (σ.store.locks.victimsOf t).foldl Store.rollBack
      ({ σ.store with locks := l }.bump .deadlocks))).VictimsCleared us := by
  have hr := Store.discarded_foldl_rollBack (s := { σ.store with locks := l }.bump .deadlocks)
    (hd.same.consistent h.consistent) h.sound (σ.store.locks.victimsOf t)
  obtain ⟨hcl, hheld⟩ := h.discarded hr rfl hd.same.holdings_eq fun u hu => by
    rw [Store.aborted_foldl_rollBack] at hu
    exact ht ▸ (hd.mem_aborted u).1 hu
  refine ⟨hr.consistent, hr.sound, fits_carry h.fits (fun u _ => hheld u) fun r hr => ?_, hcl⟩
  cases hr
  exact ⟨rfl, hf.mono (hheld t)⟩

theorem commit (h : σ.VictimsCleared us) (t : TxnId) :
    { σ with store := (σ.store.commit t).2 }.VictimsCleared us := by
  have hl := Store.locks_flushPages σ.store (σ.store.cache.dirtyPages t)
  have hs := Store.sound_flushPages h.sound (σ.store.cache.dirtyPages t)
  have hcl : ∀ u, u ∈ σ.store.locks.aborted → u ∉ us → (σ.store.commit t).2.Cleared u :=
    fun u hu hn => (h.cleared u hu hn).commit t
  rcases Store.commit_cases σ.store t with ⟨-, he⟩ | ⟨e, -, -, he⟩ | ⟨-, -, he⟩
  · rw [he]
    exact h
  · rw [he] at hcl ⊢
    exact h.stay (hl ▸ h.consistent) hs (fun u q hq => hl.symm ▸ hq) fun u hu => hcl u (hl ▸ hu)
  · rw [he] at hcl ⊢
    refine h.stay (hl.symm ▸ h.consistent.complete t) hs (fun u q hq => ?_) fun u hu => hcl u ?_
    · refine (LockTable.heldMode?_complete _ t u q).trans ?_
      rw [hl, hq, ite_self]
    · exact hl ▸ (LockTable.mem_aborted_complete.1 hu).2

theorem abort (h : σ.VictimsCleared us) (t : TxnId) :
    { σ with store := σ.store.abort t }.VictimsCleared us := by
  have hd := Store.discarded_abort h.consistent h.sound t
  obtain ⟨hcl, hheld⟩ := h.discarded hd rfl (fun _ => rfl) fun u hu => Or.inl (hd.aborted u hu)
  exact h.stay hd.consistent hd.sound hheld hcl

end VictimsCleared

theorem Step.victimsCleared {a : Action} {es : List Event} (hs : Step t a σ es σ')
    (h : σ.VictimsCleared us) : σ'.VictimsCleared us := by
  cases hs.effect h with
  | dealt hd _ hs =>
    rw [hs]
    exact h.dealt hd
  | struck hr _ hd ht _ hs =>
    rw [hs]
    exact h.struck (h.fits _ _ hr) hd ht
  | committed _ _ hs =>
    rw [hs]
    exact h.commit t
  | aborted _ _ hs =>
    rw [hs]
    exact h.abort t

theorem VictimsCleared.releasePage (h : σ.VictimsCleared us) (t : TxnId) (p : PageId) :
    { σ with store := (σ.store.releasePage t p).2 }.VictimsCleared us := by
  have hcl : ∀ u, u ∈ σ.store.locks.aborted → u ∉ us → (σ.store.releasePage t p).2.Cleared u :=
    fun u hu hn => (h.cleared u hu hn).releasePage h.consistent t p
  rw [Store.releasePage] at hcl ⊢
  cases hr : σ.store.locks.release t p with
  | error e => exact h
  | ok l =>
    rw [hr] at hcl
    refine h.stay (h.consistent.release hr) h.sound (fun u q hq => ?_)
      fun u hu => hcl u (LockTable.aborted_release hr ▸ hu)
    refine (LockTable.heldMode?_release hr u q).trans ?_
    rw [hq, ite_self]

theorem Manual.victimsCleared {s : Store} (hm : Manual σ.store s) (h : σ.VictimsCleared us) :
    { σ with store := s }.VictimsCleared us := by
  have hl := hm.locks_eq
  exact h.stay (hl.symm ▸ h.consistent) (hm.sound h.sound) (fun u q hq => hl.symm ▸ hq)
    fun u hu hn => (h.cleared u (hl ▸ hu) hn).manual hm

theorem Happens.victimsCleared {k : Happening} (hk : Happens σ k σ') (h : σ.VictimsCleared us) :
    σ'.VictimsCleared us := by
  cases hk with
  | step hs => exact hs.victimsCleared h
  | release t p => exact h.releasePage t p
  | manual hm => exact hm.victimsCleared h

theorem Course.victimsCleared {ks : List Happening} (hc : Course σ ks σ')
    (h : σ.VictimsCleared us) : σ'.VictimsCleared us := by
  induction hc with
  | start => exact h
  | next _ hk ih => exact hk.victimsCleared ih

/-! ## What keeps its lock

A lock may be given back on the way, when an insert passes a full page.  It was not held before
then, so no lock that is held at the beginning of a call is lost in it. -/

/-- A step of `u` takes no lock from `t` but by the end of `t`, or by striking it. -/
theorem Step.covered {a : Action} {es : List Event} (hs : Step u a σ es σ')
    (h : σ.VictimsCleared us)
    {m : Mode} (hn : ¬ (Happening.step u es).Ends t p) (hc : σ.store.locks.Covered ⟨t, p, m⟩) :
    σ'.store.locks.Covered ⟨t, p, m⟩ := by
  cases hs.effect h with
  | dealt hd _ hs =>
    rw [hs]
    by_cases hut : t = u
    · subst hut
      exact hd.deals.kept p m hc
    · exact hc.congr (by rw [Session.carry, LockTable.heldMode?, hd.deals.others t hut]; rfl)
  | @struck call q l _ _ hd _ hes hs =>
    rw [hs]
    have hr := Store.discarded_foldl_rollBack (s := { σ.store with locks := l }.bump .deadlocks)
      (hd.same.consistent h.consistent) h.sound (σ.store.locks.victimsOf u)
    refine hc.congr ((hr.heldMode?_eq t p).trans ?_)
    rw [if_neg fun hv => hn (Or.inr (Or.inr ⟨u, _, hes ▸ List.mem_singleton_self _, hv⟩))]
    exact hd.same.heldMode?_eq t p
  | committed _ hes hs =>
    rw [hs]
    have hf := Store.locks_flushPages σ.store (σ.store.cache.dirtyPages u)
    rcases Store.commit_cases σ.store u with ⟨-, he⟩ | ⟨e, -, -, he⟩ | ⟨-, -, he⟩
    · rw [he]
      exact hc
    · rw [he, hf]
      exact hc
    · have hut : t ≠ u := fun hut => hn (Or.inl (by
        rw [hes, Store.commitEvent, he, hut]
        exact List.mem_singleton_self _))
      rw [he]
      refine hc.congr ((LockTable.heldMode?_complete _ u t p).trans ?_)
      rw [if_neg hut, hf]
  | aborted _ hes hs =>
    rw [hs]
    have hut : t ≠ u := fun hut => hn (Or.inr (Or.inl (by
      rw [hes, hut]
      exact List.mem_singleton_self _)))
    refine hc.congr (((Store.discarded_abort h.consistent h.sound u).heldMode?_eq t p).trans ?_)
    rw [if_neg (mt List.mem_singleton.1 hut)]

/-- A lock is kept by everything that does not end the transaction, strike it, or give the lock
back. -/
theorem Happens.covered {k : Happening} (hk : Happens σ k σ') (h : σ.VictimsCleared us) {m : Mode}
    (hn : ¬ k.Ends t p) (hc : σ.store.locks.Covered ⟨t, p, m⟩) :
    σ'.store.locks.Covered ⟨t, p, m⟩ := by
  cases hk with
  | @step u a es _ hs => exact hs.covered h hn hc
  | release u q =>
    rw [Store.releasePage]
    cases hr : σ.store.locks.release u q with
    | error e => exact hc
    | ok l =>
      refine hc.congr ((LockTable.heldMode?_release hr t p).trans (if_neg fun he => hn ?_))
      exact ⟨he.1.symm, he.2.symm⟩
  | manual hm =>
    rw [hm.locks_eq]
    exact hc

theorem Course.covered {ks : List Happening} (hc : Course σ ks σ') (h : σ.VictimsCleared us)
    {m : Mode} (hn : ∀ k ∈ ks, ¬ k.Ends t p) (hcov : σ.store.locks.Covered ⟨t, p, m⟩) :
    σ'.store.locks.Covered ⟨t, p, m⟩ := by
  induction hc with
  | start => exact hcov
  | next hc hk ih =>
    have hn' := List.forall_mem_append.1 hn
    exact hk.covered (hc.victimsCleared h) (hn'.2 _ (List.mem_singleton_self _)) (ih hn'.1)

/-! ## Who has a lock -/

/-- Tells of a page that has been handed out or changed. -/
def reports : Event → Bool
  | .read _ _ _ => true
  | .inserted _ _ _ => true
  | .removed _ _ => true
  | .copied _ _ => true
  | _ => false

/-- What tells of a page is the answer to a call in progress, and the call has the lock on the
page. -/
theorem Effect.answered {es : List Event} (he : Effect t σ es σ') {e : Event} (hm : e ∈ es)
    (hp : reports e = true) :
    ∃ call pending asleep reply page, σ.running t = some ⟨call, pending, asleep⟩ ∧
      reply.result = .ok page ∧ e = σ.store.outcome t call reply ∧
      call.Confers σ'.store.locks t reply := by
  cases he with
  | @dealt call run hd hes hσ hcall =>
    rw [hes] at hm
    cases hrun : run.1 with
    | asking p => rw [hrun] at hm; cases hm
    | waiting p => rw [hrun] at hm; cases hm
    | endless => rw [hrun] at hm; cases hm
    | done reply =>
      rw [hrun] at hm
      have he := List.mem_singleton.1 hm
      cases hres : reply.result with
      | error v =>
        rw [he, Store.outcome, hres] at hp
        cases hp
      | ok page =>
        rcases hcall with ⟨-, rfl⟩ | ⟨p, asleep, hp⟩
        · obtain ⟨v, hv⟩ := Store.start_refuses hrun
          rw [hv] at hres
          cases hres
        · exact ⟨call, p, asleep, reply, page, hp, hres, he,
            hσ ▸ hd.confers reply page hrun hres⟩
  | struck _ _ _ _ hes _ =>
    rw [hes] at hm
    rw [List.mem_singleton.1 hm] at hp
    cases hp
  | committed _ hes _ =>
    rw [hes] at hm
    rw [List.mem_singleton.1 hm, Store.commitEvent] at hp
    split at hp <;> cases hp
  | aborted _ hes _ =>
    rw [hes] at hm
    rw [List.mem_singleton.1 hm] at hp
    cases hp

/-- **Whoever is handed a page has the lock on it**, and so has whoever has put a row into a page or
taken one away. -/
theorem Effect.confers {es : List Event} (he : Effect t σ es σ') :
    (∀ p page, .read t p page ∈ es → ∃ access pending asleep,
      σ.running t = some ⟨.fetch p access, pending, asleep⟩ ∧
      σ'.store.locks.Covered ⟨t, p, access.mode⟩) ∧
    (∀ table row, .inserted t table row ∈ es →
      ∃ r, row.rid = some r ∧ σ'.store.locks.heldMode? t r.page = some .exclusive) ∧
    (∀ row, .removed t row ∈ es → ∃ gone pending asleep r,
      σ.running t = some ⟨.remove gone, pending, asleep⟩ ∧ gone.rid = some r ∧
      σ'.store.locks.heldMode? t r.page = some .exclusive) ∧
    (∀ page, .copied t page ∈ es → σ'.store.locks.heldMode? t page.id = some .exclusive) := by
  refine ⟨fun p page hm => ?_, fun table row hm => ?_, fun row hm => ?_, fun page hm => ?_⟩
  · obtain ⟨call, pending, asleep, reply, page', hr, hres, he, hc⟩ := he.answered hm rfl
    rw [Store.outcome, hres] at he
    cases call <;> cases he
    exact ⟨_, _, _, hr, hc⟩
  · obtain ⟨call, pending, asleep, reply, page', hr, hres, he, hc⟩ := he.answered hm rfl
    rw [Store.outcome, hres] at he
    cases call <;> cases he
    exact hc
  · obtain ⟨call, pending, asleep, reply, page', hr, hres, he, hc⟩ := he.answered hm rfl
    rw [Store.outcome, hres] at he
    cases call <;> cases he
    obtain ⟨r, hrid, hx⟩ := hc
    exact ⟨_, _, _, r, hr, hrid, hx⟩
  · obtain ⟨call, pending, asleep, reply, page', hr, hres, he, hc⟩ := he.answered hm rfl
    rw [Store.outcome, hres] at he
    cases call <;> cases he
    · exact hc page hres
    · exact hc page hres

end Session
end TableStore

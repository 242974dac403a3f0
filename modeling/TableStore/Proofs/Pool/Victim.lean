import TableStore.Proofs.Pool.Course
import TableStore.Proofs.Pool.Eviction

/-!
# What a victim can do

A transaction that has been struck is marked until it is aborted.  The mark is looked at in several
places: before a file is looked up, when a request is looked at, when a page is loaded and when one is
installed.  This file shows that nothing slips through: whatever a victim calls is refused and leaves
no trace, and whatever others do leaves it a victim without locks and changes.

## What is here

* `Session.Scene` — a session together with the victims that have not been rolled back yet;
  `Session.Scene.Next` and `Session.Scene.Path` — what happens when the rollback of each victim is a
  step of its own, so that others come between the mark and the rollback.
* `Session.Scene.Barred` — a victim that has been rolled back.
* `Store.Absent` — no part of the store mentions a transaction.
* `Store.perform_of_aborted`, `Session.Step.barred` — what becomes of the calls of a victim.
* `Session.victim_locked_out` — a victim is locked out until it aborts.
-/

set_option autoImplicit false
namespace TableStore

/-- A call that is made to the pool, and not to a file beside it. -/
def Call.toPool : Call → Bool
  | .fetch _ _ => true
  | .insert _ _ => true
  | .remove _ => true
  | .insertCopy _ _ => false
  | .removeCopy _ _ => false

theorem LockTable.releaseAll_of_none {l : LockTable} {t : TxnId} (h : l.holdings.get? t = none) :
    l.releaseAll t = l := by
  rw [releaseAll, h]

namespace Store

variable {s s' : Store} {t u : TxnId} {call : Call} {p : Pending}

/-! ## Calls of a victim -/

theorem ask_of_aborted (ha : p.request.txn ∈ s.locks.aborted) :
    s.ask p = (.refuse (.aborted p.request.txn), s) := by
  rw [ask, LockTable.ask_of_aborted ha]
  rfl

/-- Before its first request, a call of a victim is refused or does nothing. -/
theorem start_of_aborted (ha : t ∈ s.locks.aborted) (hc : call.toPool = true) :
    s.start t call = (.refuse (.aborted t), s) ∨
    ∃ q access, call = .fetch q access ∧
      s.start t call = (.asking ⟨⟨t, q, access.mode⟩, .read⟩, s) := by
  have hv : s.locks.isAborted t = true := by simpa [LockTable.isAborted] using ha
  cases call with
  | fetch q access => exact Or.inr ⟨q, access, rfl, rfl⟩
  | insert table row => exact Or.inl (by rw [start, if_pos hv])
  | remove row => exact Or.inl (by rw [start, if_pos hv])
  | insertCopy file row => cases hc
  | removeCopy file row => cases hc

/-- **A call of a victim is refused, and nothing comes of it**, whatever it is about. -/
theorem perform_of_aborted (ha : t ∈ s.locks.aborted) (hc : call.toPool = true) :
    s.perform t call = some ({ result := .error (.aborted t) }, s) := by
  rcases start_of_aborted ha hc with he | ⟨q, access, -, he⟩
  · exact perform_of_refused he
  · have hle : 1 ≤ s.turns := Nat.le_trans (by decide) (three_le_turns s)
    refine perform_of_finish he hle fun i => ?_
    rw [finish, ask_of_aborted (p := ⟨⟨t, q, access.mode⟩, .read⟩) ha, Progress.refuse, finish]

/-- There is nothing to write for a transaction without changes. -/
theorem Cleared.flushTxn (h : s.Cleared t) : s.flushTxn t = (.ok 0, s) := by
  rw [Store.flushTxn, h.dirtyPages_eq]
  rfl

/-! ## The end of a victim

A victim that has been rolled back is mentioned in one place only, the set of marks.  Its abort
takes it from there. -/

/-- No part of the store mentions the transaction. -/
structure Absent (s : Store) (t : TxnId) : Prop where
  cleared : s.Cleared t
  unmarked : t ∉ s.locks.aborted
  unlocked : ∀ p k, s.locks.pages.get? p = some k → t ∉ k.readers ∧ k.writer ≠ some t

/-- Whoever has no entry is no reader and no writer. -/
theorem Cleared.unlocked (h : s.Cleared t) (hl : s.locks.Consistent) {q : PageId} {k : PageLock}
    (hk : s.locks.pages.get? q = some k) : t ∉ k.readers ∧ k.writer ≠ some t := by
  refine ⟨fun hr => ?_, fun hw => ?_⟩
  · rw [← LockTable.readers_of_get? hk, ← hl.heldMode?_shared_iff, h.heldMode?_eq] at hr
    cases hr
  · rw [← LockTable.writer?_of_get? hk, ← hl.heldMode?_exclusive_iff, h.heldMode?_eq] at hw
    cases hw

theorem Cleared.absent (h : s.Cleared t) (hl : s.locks.Consistent) (ha : t ∉ s.locks.aborted) :
    s.Absent t :=
  ⟨h, ha, fun _ _ hk => h.unlocked hl hk⟩

/-- Nobody is mentioned by a store with an empty pool. -/
theorem Fresh.absent (h : s.Fresh) (t : TxnId) : s.Absent t where
  cleared := ⟨by rw [h.locks_eq]; rfl, fun p page hp => by rw [h.cache_eq] at hp; cases hp⟩
  unmarked ha := by
    rw [h.locks_eq] at ha
    exact Distinct.not_mem_empty t ha
  unlocked p k hk := by
    rw [h.locks_eq] at hk
    cases hk

/-- The abort of a victim takes its mark away, is counted, and does nothing else. -/
theorem Cleared.abort (h : s.Cleared t) (ha : t ∈ s.locks.aborted) :
    s.abort t = { s with locks := s.locks.unmark t }.bump .aborts := by
  have hheld : s.locks.pagesHeld t = [] := by
    rw [LockTable.pagesHeld, h.holdings_eq]
    rfl
  have hcount : (s.locks.isAborted t || !(s.locks.pagesHeld t).isEmpty) = true := by
    rw [LockTable.isAborted, decide_eq_true ha, Bool.true_or]
  rw [Store.abort, if_pos hcount, hheld, h.dirtyPages_eq, LockTable.complete,
    LockTable.releaseAll_of_none h.holdings_eq]
  rfl

end Store

namespace Session

variable {σ σ' : Session} {t u : TxnId} {us : List TxnId}

/-! ## Steps of a victim -/

/-- What a victim does but abort is refused.  Only a request that was waiting leaves a trace: it waits
no more. -/
theorem Step.barred {a : Action} {es : List Event} (hs : Step t a σ es σ') (h : σ.VictimsCleared us)
    (hv : t ∈ σ.store.locks.aborted) (ha : a ≠ .abort)
    (hc : ∀ call, a = .begin call → call.toPool = true) :
    (∀ e ∈ es, e = .refused t (.aborted t)) ∧
    ((∀ r, σ.running t = some r → r.asleep = false) → σ'.store = σ.store ∧
      (es = [] → ∃ q access, a = .begin (.fetch q access))) := by
  cases hs with
  | begin call hn =>
    rcases Store.start_of_aborted hv (hc call rfl) with he | ⟨q, access, rfl, he⟩
    · rw [he]
      exact ⟨fun e he => List.mem_singleton.1 he, fun _ => ⟨rfl, fun hes => by cases hes⟩⟩
    · rw [he]
      exact ⟨fun e he => (by cases he), fun _ => ⟨rfl, fun _ => ⟨q, access, rfl⟩⟩⟩
  | @ask _ call p hr =>
    have ht : p.request.txn = t := (h.fits _ _ hr).txn_eq
    subst ht
    rw [Store.ask_of_aborted hv]
    exact ⟨fun e he => List.mem_singleton.1 he, fun _ => ⟨rfl, fun hes => by cases hes⟩⟩
  | @wake _ call p run hr hw =>
    have ht : p.request.txn = t := (h.fits _ _ hr).txn_eq
    subst ht
    rw [Store.wake?, LockTable.wake_of_aborted hv] at hw
    cases hw
    exact ⟨fun e he => List.mem_singleton.1 he, fun hn => absurd (hn _ hr) Bool.noConfusion⟩
  | @expire _ call p hr =>
    have ht : p.request.txn = t := (h.fits _ _ hr).txn_eq
    subst ht
    rw [Store.strikes, Store.expire, LockTable.expire_of_aborted hv]
    exact ⟨fun e he => List.mem_singleton.1 he, fun hn => absurd (hn _ hr) Bool.noConfusion⟩
  | commit hn =>
    rw [Store.commitEvent, Store.commit_of_aborted hv]
    exact ⟨fun e he => List.mem_singleton.1 he, fun _ => ⟨rfl, fun hes => by cases hes⟩⟩
  | abort hn => exact absurd rfl ha

/-! ## Marks stay -/

/-- The events that are seen of what happens. -/
def Happening.events : Happening → List Event
  | .step _ es => es
  | .release _ _ => []
  | .manual => []

/-- The transaction that takes a step. -/
def Happening.stepper? : Happening → Option TxnId
  | .step t _ => some t
  | .release _ _ => none
  | .manual => none

/-- A victim stays one until it aborts. -/
theorem Happens.marked {k : Happening} (hk : Happens σ k σ') (h : σ.VictimsCleared us)
    (ha : t ∈ σ.store.locks.aborted) (hn : .aborted t ∉ k.events) :
    t ∈ σ'.store.locks.aborted := by
  cases hk with
  | @step u a es _ hs =>
    cases hs.effect h with
    | dealt hd _ hs =>
      rw [hs]
      exact hd.deals.aborted_eq.symm ▸ ha
    | struck _ _ hd _ _ hs =>
      rw [hs]
      refine (Store.aborted_foldl_rollBack _ _).symm ▸ ?_
      exact (hd.mem_aborted t).2 (Or.inl ha)
    | committed _ _ hs =>
      rw [hs]
      exact Store.mem_aborted_commit.2 ha
    | aborted _ hes hs =>
      rw [hs]
      refine Store.locks_abort σ.store u ▸ LockTable.mem_aborted_complete.2 ⟨fun htu => hn ?_, ha⟩
      rw [htu, Happening.events, hes]
      exact List.mem_singleton_self _
  | release u q =>
    rw [Store.releasePage]
    cases hr : σ.store.locks.release u q with
    | error e => exact ha
    | ok l => exact (LockTable.aborted_release hr).symm ▸ ha
  | manual hm => exact hm.locks_eq.symm ▸ ha

/-! ## Whoever is not there -/

/-- Nothing that others do mentions a transaction that the store does not mention. -/
theorem Happens.absent {k : Happening} (hk : Happens σ k σ') (h : σ.VictimsCleared us)
    (ha : σ.store.Absent t) (hn : k.stepper? ≠ some t) : σ'.store.Absent t := by
  have hl := (hk.victimsCleared h).consistent
  cases hk with
  | @step u a es _ hs =>
    have htu : t ≠ u := fun he => hn (congrArg some he.symm)
    cases hs.effect h with
    | dealt hd _ hs =>
      rw [hs] at hl ⊢
      refine (hd.deals.cleared ha.cleared fun he => absurd he htu).absent hl fun hm => ?_
      exact ha.unmarked (hd.deals.aborted_eq ▸ hm)
    | @struck call q l _ _ hd hq _ hs =>
      rw [hs] at hl ⊢
      have hr := Store.discarded_foldl_rollBack (s := { σ.store with locks := l }.bump .deadlocks)
        (hd.same.consistent h.consistent) h.sound (σ.store.locks.victimsOf u)
      -- a transaction without locks is no victim
      have hv : t ∉ σ.store.locks.victimsOf u := fun hv =>
        (LockTable.mem_victimsOf.1 hv).2.2 ha.cleared.holdings_eq
      refine (hr.cleared (Or.inl ⟨?_, ha.cleared.clean⟩)).absent hl fun hm => ?_
      · exact (hd.same.holdings_eq t).trans ha.cleared.holdings_eq
      · have hm' := (Store.aborted_foldl_rollBack _ _) ▸ hm
        exact ((hd.mem_aborted t).1 hm').elim ha.unmarked (hq ▸ hv)
    | committed _ _ hs =>
      rw [hs] at hl ⊢
      exact (ha.cleared.commit u).absent hl fun hm =>
        ha.unmarked (Store.mem_aborted_commit.1 hm)
    | aborted _ _ hs =>
      rw [hs] at hl ⊢
      have hd := Store.discarded_abort h.consistent h.sound u
      exact (hd.cleared (Or.inl ha.cleared)).absent hl fun hm => ha.unmarked (hd.aborted t hm)
  | release u q =>
    refine (ha.cleared.releasePage h.consistent u q).absent hl fun hm => ha.unmarked ?_
    rw [Store.releasePage] at hm
    cases hr : σ.store.locks.release u q with
    | error e => rwa [hr] at hm
    | ok l =>
      rw [hr] at hm
      exact LockTable.aborted_release hr ▸ hm
  | manual hm =>
    exact (ha.cleared.manual hm).absent hl fun hv => ha.unmarked (hm.locks_eq ▸ hv)

theorem Course.of_used {s₀ : Store} {log : List PageId} (h : Used s₀ log σ) :
    ∃ ks, Course (idle s₀) ks σ := by
  induction h with
  | start => exact ⟨[], .start⟩
  | step _ hs ih =>
    obtain ⟨ks, hc⟩ := ih
    exact ⟨_, hc.next (.step hs)⟩
  | manual _ hm ih =>
    obtain ⟨ks, hc⟩ := ih
    exact ⟨_, hc.next (.manual hm)⟩
  | release _ t p ih =>
    obtain ⟨ks, hc⟩ := ih
    exact ⟨_, hc.next (.release t p)⟩

/-! ## Rollbacks as steps of their own

Whoever declares a deadlock rolls its victims back one by one, and lets go of the lock table in
between.  So there are moments in which a victim still has its locks, and others may do something
then. -/

/-- A session, and the victims that have not been rolled back yet. -/
structure Scene where
  session : Session
  doomed : List TxnId := []

namespace Scene

variable {x y : Scene} {k : Happening} {ks : List Happening}

/-- Beside all that happens to a session, a deadlock may mark its victims only, and each is rolled
back later by another transaction. -/
inductive Next (x : Scene) : Happening → Scene → Prop where
  | whole {k : Happening} {σ : Session} (hk : Happens x.session k σ) : Next x k ⟨σ, x.doomed⟩
  | strike {t : TxnId} {call : Call} {p : Pending} {vs : List TxnId} {l : LockTable}
      (hr : x.session.running t = some ⟨call, p, true⟩)
      (hl : x.session.store.locks.expire p.request = (.deadlock vs, l)) :
      Next x (.step t [.struck t vs])
        ⟨x.session.carry t call
          (.asking p, { x.session.store with locks := l }.bump .deadlocks), x.doomed ++ vs⟩
  | rollBack {u v : TxnId} (hu : u ≠ v) (hv : v ∈ x.doomed) :
      Next x (.step u [])
        ⟨{ x.session with store := x.session.store.rollBack v }, x.doomed.erase v⟩

/-- One thing happens after the other. -/
inductive Path (x : Scene) : List Happening → Scene → Prop where
  | start : Path x [] x
  | next {ks : List Happening} {k : Happening} {y z : Scene} (h : Path x ks y) (hk : y.Next k z) :
      Path x (ks ++ [k]) z

/-- A victim that has been rolled back. -/
def Barred (x : Scene) (t : TxnId) : Prop :=
  t ∈ x.session.store.locks.aborted ∧ t ∉ x.doomed

/-- What a deadlock does that only marks its victims. -/
theorem deadlocked (h : x.session.VictimsCleared x.doomed) {p : Pending} {vs : List TxnId}
    {l : LockTable} (hl : x.session.store.locks.expire p.request = (.deadlock vs, l)) :
    vs = x.session.store.locks.victimsOf p.request.txn ∧
      LockTable.Deadlocked x.session.store.locks p.request l := by
  rcases LockTable.expire_cases h.consistent p.request with ⟨m, he, -⟩ | ⟨m, he, -⟩ | ⟨m, he, hd⟩
  · rw [he] at hl
    cases hl
  · rw [he] at hl
    cases hl
  · rw [he] at hl
    cases hl
    exact ⟨rfl, hd⟩

theorem Next.victimsCleared (hk : x.Next k y) (h : x.session.VictimsCleared x.doomed) :
    y.session.VictimsCleared y.doomed := by
  cases hk with
  | whole hk => exact hk.victimsCleared h
  | @strike t call p vs l hr hl =>
    obtain ⟨rfl, hd⟩ := deadlocked h hl
    have hf := h.fits _ _ hr
    have hheld : ∀ u q, x.session.store.locks.heldMode? u q = none → l.heldMode? u q = none :=
      fun u q hq => (hd.same.heldMode?_eq u q).trans hq
    refine ⟨hd.same.consistent h.consistent, h.sound, fits_carry h.fits (fun u _ => hheld u)
      fun r hr => ?_, fun u hu hn => ?_⟩
    · cases hr
      exact ⟨rfl, hf.mono (hheld t)⟩
    · rw [List.mem_append, not_or] at hn
      have hcl := h.cleared u (((hd.mem_aborted u).1 hu).resolve_right hn.2) hn.1
      exact ⟨(hd.same.holdings_eq u).trans hcl.holdings_eq, hcl.clean⟩
  | @rollBack u v _ hv =>
    have hd := Store.discarded_rollBack h.consistent h.sound v
    refine ⟨hd.consistent, hd.sound, fun t r hr => (h.fits t r hr).mono fun q hq => ?_,
      fun t ht hn => hd.cleared ?_⟩
    · rw [hd.heldMode?_eq, hq, ite_self]
    · by_cases htv : t = v
      · exact Or.inr (List.mem_singleton.2 htv)
      · exact Or.inl (h.cleared t (hd.aborted t ht) fun hm => hn ((List.mem_erase_of_ne htv).2 hm))

theorem Next.barred (hk : x.Next k y) (h : x.session.VictimsCleared x.doomed) (hb : x.Barred t)
    (hn : .aborted t ∉ k.events) : y.Barred t := by
  obtain ⟨ha, hd⟩ := hb
  cases hk with
  | whole hk => exact ⟨hk.marked h ha hn, hd⟩
  | strike hr hl =>
    obtain ⟨rfl, hdead⟩ := deadlocked h hl
    refine ⟨(hdead.mem_aborted t).2 (Or.inl ha), fun hm => ?_⟩
    -- who is a victim already is not struck again
    exact (List.mem_append.1 hm).elim hd fun hv => (LockTable.mem_victimsOf.1 hv).2.1 ha
  | rollBack hu hv =>
    exact ⟨(LockTable.aborted_releaseAll _ _).symm ▸ ha, fun hm => hd (List.mem_of_mem_erase hm)⟩

theorem Next.absent (hk : x.Next k y) (h : x.session.VictimsCleared x.doomed)
    (ha : x.session.store.Absent t) (hn : k.stepper? ≠ some t) : y.session.store.Absent t := by
  have hl := (hk.victimsCleared h).consistent
  cases hk with
  | whole hk => exact hk.absent h ha hn
  | strike hr hl' =>
    obtain ⟨rfl, hd⟩ := deadlocked h hl'
    refine Store.Cleared.absent ⟨(hd.same.holdings_eq t).trans ha.cleared.holdings_eq,
      ha.cleared.clean⟩ hl fun hm => ?_
    exact ((hd.mem_aborted t).1 hm).elim ha.unmarked fun hv =>
      (LockTable.mem_victimsOf.1 hv).2.2 ha.cleared.holdings_eq
  | @rollBack u v _ hv =>
    have hd := Store.discarded_rollBack h.consistent h.sound v
    exact (hd.cleared (Or.inl ha.cleared)).absent hl fun hm => ha.unmarked (hd.aborted t hm)

theorem Path.victimsCleared (hp : Path x ks y) (h : x.session.VictimsCleared x.doomed) :
    y.session.VictimsCleared y.doomed := by
  induction hp with
  | start => exact h
  | next _ hk ih => exact hk.victimsCleared ih

theorem Path.barred (hp : Path x ks y) (h : x.session.VictimsCleared x.doomed) (hb : x.Barred t)
    (hn : ∀ k ∈ ks, .aborted t ∉ k.events) : y.Barred t := by
  induction hp with
  | start => exact hb
  | next hp hk ih =>
    obtain ⟨hinit, hlast⟩ := List.forall_mem_append.1 hn
    exact hk.barred (hp.victimsCleared h) (ih hinit) (hlast _ (List.mem_singleton_self _))

theorem Path.absent (hp : Path x ks y) (h : x.session.VictimsCleared x.doomed)
    (ha : x.session.store.Absent t) (hn : ∀ k ∈ ks, k.stepper? ≠ some t) :
    y.session.store.Absent t := by
  induction hp with
  | start => exact ha
  | next hp hk ih =>
    obtain ⟨hinit, hlast⟩ := List.forall_mem_append.1 hn
    exact hk.absent (hp.victimsCleared h) (ih hinit) (hlast _ (List.mem_singleton_self _))

theorem Path.of_course {σ σ' : Session} (hc : Course σ ks σ') (us : List TxnId) :
    Path ⟨σ, us⟩ ks ⟨σ', us⟩ := by
  induction hc with
  | start => exact .start
  | next _ hk ih => exact ih.next (.whole hk)

/-- **What a single thread does to a store is covered** as well. -/
theorem Path.after {s₀ s : Store} {ds : List Deed} (h : Store.After s₀ ds s) :
    ∃ ks, Path { session := idle s₀ } ks { session := idle s } := by
  obtain ⟨log, hu⟩ := Used.after h
  obtain ⟨ks, hc⟩ := Course.of_used hu
  exact ⟨ks, .of_course hc []⟩

end Scene

/-- **A victim is locked out until it aborts.**  Take any order of steps in which the rollback of each
victim may be a step of its own, with pages written and dropped and locks given back by hand, and a
victim `t` that has been rolled back.

1. It holds no lock, and no page in memory holds changes of it.
2. Whatever it calls, the call is refused and leaves the store as it was, with no record id for the
   row; so is a commit, and there is nothing to write for it.
3. So it is if others come between the steps of the call.  A request that was waiting when `t` was
   struck is refused as well.
4. Nothing that happens takes away the mark, or gives `t` a lock or a change, but an abort of `t`.
5. The abort takes the mark away, is counted, and changes nothing else.  Then no part of the store
   mentions `t`, just as none mentions a transaction that has not taken a step. -/
theorem victim_locked_out {s₀ : Store} (h₀ : s₀.Fresh) {ks : List Happening} {x : Scene}
    (hx : Scene.Path { session := idle s₀ } ks x) {t : TxnId} (ht : x.Barred t) :
    (x.session.store.Cleared t ∧ ∀ p, x.session.store.locks.heldMode? t p = none) ∧
    ((∀ call : Call, call.toPool = true →
        x.session.store.perform t call =
          some ({ result := .error (.aborted t), row := none }, x.session.store)) ∧
      x.session.store.commit t = (.error (.aborted t), x.session.store) ∧
      x.session.store.flushTxn t = (.ok 0, x.session.store)) ∧
    (∀ a es σ, Step t a x.session es σ → a ≠ .abort →
      (∀ call, a = .begin call → call.toPool = true) →
      (∀ e ∈ es, e = .refused t (.aborted t)) ∧
      ((∀ r, x.session.running t = some r → r.asleep = false) → σ.store = x.session.store ∧
        (es = [] → ∃ p access, a = .begin (.fetch p access)))) ∧
    (∀ ks' y, Scene.Path x ks' y → (∀ k ∈ ks', .aborted t ∉ k.events) →
      y.Barred t ∧ y.session.store.Cleared t) ∧
    (x.session.store.abort t =
        { x.session.store with locks := x.session.store.locks.unmark t }.bump .aborts ∧
      (x.session.store.abort t).Absent t ∧
      ∀ u, (∀ k ∈ ks, k.stepper? ≠ some u) → x.session.store.Absent u) := by
  have hidle : (idle s₀).VictimsCleared [] := .idle h₀
  have hl := hx.victimsCleared hidle
  have hcl : x.session.store.Cleared t := hl.cleared t ht.1 ht.2
  refine ⟨⟨hcl, hcl.heldMode?_eq⟩, ⟨fun call hc => Store.perform_of_aborted ht.1 hc,
    Store.commit_of_aborted ht.1, hcl.flushTxn⟩,
    fun a es σ hs ha hc => hs.barred hl ht.1 ha hc, fun ks' y hy hn => ?_, hcl.abort ht.1, ?_,
    fun u hu => hx.absent hidle (h₀.absent u) hu⟩
  · have hb := hy.barred hl ht hn
    exact ⟨hb, (hy.victimsCleared hl).cleared t hb.1 hb.2⟩
  · have hd := Store.discarded_abort hl.consistent hl.sound t
    refine (hd.cleared (Or.inl hcl)).absent hd.consistent fun hm => ?_
    rw [Store.locks_abort] at hm
    exact (LockTable.mem_aborted_complete.1 hm).1 rfl

end Session

/-! ## A small store -/

/-- A transaction has put a row into the first page, and another one has read the page since. -/
def Store.overtaken : Option Store :=
  entered.bind fun run =>
    (finish 3 (run.2.start ⟨2⟩ (.fetch (TableFile.numbers.page 0) .readOnly))).map Prod.snd

/-- The first transaction is a victim, and cannot read the page any more. -/
theorem Session.victim_locked_out_overtaken :
    Store.numbers.Fresh ∧ ∃ ks s, Scene.Path { session := idle .numbers } ks { session := idle s } ∧
      Scene.Barred { session := idle s } ⟨1⟩ ∧
      s.perform ⟨1⟩ (.fetch (TableFile.numbers.page 0) .readOnly) =
        some ({ result := .error (.aborted ⟨1⟩), row := none }, s) := by
  have hf : Store.numbers.Fresh := ⟨rfl, rfl⟩
  have hs : Store.overtaken.map (fun s => decide (⟨1⟩ ∈ s.locks.aborted)) = some true := by
    decide +kernel
  obtain ⟨s, hs, ha⟩ := Option.map_eq_some_iff.1 hs
  obtain ⟨⟨reply, m⟩, he, hs⟩ := Option.bind_eq_some_iff.1 hs
  obtain ⟨⟨reply', s'⟩, hp, rfl⟩ := Option.map_eq_some_iff.1 hs
  obtain ⟨ks, hx⟩ := Scene.Path.after (.deed (.deed .start (.call he)) (.call hp))
  have hb : Scene.Barred { session := idle s' } ⟨1⟩ :=
    ⟨of_decide_eq_true ha, List.not_mem_nil⟩
  exact ⟨hf, ks, s', hx, hb, (victim_locked_out hf hx hb).2.1.1 _ rfl⟩

end TableStore

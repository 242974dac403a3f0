import TableStore.Pool.Scan
import TableStore.Proofs.Pool.Balance
import TableStore.Proofs.Pool.Eviction

/-!
# The counters account for every page

In every run from an empty pool, the counters agree with what has happened to its pages.  The run is
that of a single thread, or of transactions beside each other; what is asked of it is only that
nobody resets the counters.

## What is here

* `Store.callIncidents`, `Deed.incidents` — the incidents of a call and of other deeds.
* `Store.Logged` — what a single thread does, with the list of all incidents.
* `Session.Watched` — the same for transactions that run beside each other, of which the runs of a
  single thread are a case (`Session.Watched.logged`).
* `Store.Accounted` — what the counters say, and `Session.counters_account` that they say so in every
  run.
-/

set_option autoImplicit false
namespace TableStore

namespace Session

/-- The incidents of a step that ends with the store `s`.  Pages that go when a call has been granted
its lock have made room.  Those that go with an abort, or when a wait has run out of time, have been
dropped. -/
def incidents (σ : Session) (t : TxnId) (a : Action) (s : Store) : List Incident :=
  match σ.granted? t a with
  | some (p, m) =>
    .request p.request.page (m.cache.pages.contains p.request.page)
        (m.load p.request.txn p.request.page).1.isOk ::
      (σ.store.lost s).map .evicted
  | none =>
    match a with
    | .abort => (σ.store.lost s).map .dropped
    | .expire => (σ.store.lost s).map .dropped
    | _ => []

end Session

/-! ## The runs of a single thread -/

namespace Deed

def isCall : Deed → Bool
  | call _ _ _ => true
  | _ => false

/-- The deed is done by hand: it is neither a call nor the end of a transaction. -/
def byHand : Deed → Bool
  | call _ _ _ => false
  | commit _ _ => false
  | abort _ => false
  | _ => true

/-- The incidents of a deed that is no call: pages go only if a transaction is aborted or a page is
discarded. -/
def incidents (d : Deed) (s s' : Store) : List Incident :=
  match d with
  | abort _ => (s.lost s').map .dropped
  | discard _ => (s.lost s').map .dropped
  | _ => []

end Deed

namespace Store

/-- The incidents of a call that is carried to its answer as by `Store.finish`. -/
def callIncidents (t : TxnId) (call : Call) : Nat → Progress × Store → List Incident
  | _, (.done _, _) => []
  | _, (.endless, _) => []
  | 0, _ => []
  | n + 1, (.asking p, s) =>
    ((Session.idle s).carry t call (.asking p, s)).incidents t .ask (s.ask p).2 ++
      callIncidents t call n (s.ask p)
  | n + 1, (.waiting p, s) =>
    ((Session.idle s).carry t call (.waiting p, s)).incidents t .expire (s.expire p).2 ++
      callIncidents t call n (s.expire p)

/-- What a deed makes of a store, with its incidents. -/
inductive Logs : Deed → Store → List Incident → Store → Prop where
  | call {s s' : Store} {t : TxnId} {call : Call} {reply : Reply} {n : Nat}
      (h : finish n (s.start t call) = some (reply, s')) :
      Logs (.call t call reply) s (callIncidents t call n (s.start t call)) s'
  | other {s s' : Store} {d : Deed} (hd : Does d s s') (hn : d.isCall = false) :
      Logs d s (d.incidents s s') s'

/-- The stores after some deeds, each with the list of all incidents. -/
inductive Logged (s₀ : Store) : List Deed → List Incident → Store → Prop where
  | start : Logged s₀ [] [] s₀
  | deed {ds : List Deed} {log new : List Incident} {d : Deed} {s s' : Store}
      (h : Logged s₀ ds log s) (hd : Logs d s new s') :
      Logged s₀ (ds ++ [d]) (log ++ new) s'

variable {s₀ s s' : Store} {d : Deed} {ds : List Deed}

theorem Does.logs (hd : Does d s s') : ∃ new, Logs d s new s' := by
  have hdoes := hd
  cases hd with
  | call h => exact ⟨_, .call h⟩
  | _ => exact ⟨_, .other hdoes rfl⟩

/-- The incidents of a single thread can always be told. -/
theorem After.logged (h : After s₀ ds s) : ∃ log, Logged s₀ ds log s := by
  induction h with
  | start => exact ⟨[], .start⟩
  | deed _ hd ih =>
    obtain ⟨log, ih⟩ := ih
    obtain ⟨new, hnew⟩ := hd.logs
    exact ⟨log ++ new, ih.deed hnew⟩

/-- A scan carries out calls. -/
theorem After.next {scan scan' : Scan} {item : Option (Except Error Row)} (h : After s₀ ds s)
    (hn : s.next scan = some (item, scan', s')) : ∃ ds', After s₀ ds' s' := by
  have hcall : ∀ {s m : Store} {t : TxnId} {call : Call} {reply : Reply},
      s.perform t call = some (reply, m) → Does (.call t call reply) s m :=
    fun {s _ t call _} hp => .call (n := (s.start t call).2.turns) hp
  fun_induction Store.next s scan generalizing ds with
  | case1 =>
    cases hn
    exact ⟨ds, h⟩
  | case2 =>
    cases hn
    exact ⟨ds, h⟩
  | case3 => cases hn
  | case4 s scan p hstep reply m hperform e he =>
    cases hn
    exact ⟨_, h.deed (hcall hperform)⟩
  | case5 s scan p hstep reply m hperform page hpage ih => exact ih (h.deed (hcall hperform)) hn

end Store

/-! ## All orders of steps

The incidents of a step are read off the stores before and after it.  They are put together to one
list, in the order of the steps, whoever takes them. -/

namespace Session

variable {n : Nat} {log : List Incident} {s₀ s : Store} {σ σ' : Session} {t : TxnId} {a : Action}
  {es : List Event} {d : Deed}

/-- The sessions that come about from a store in which no call is in progress, each with the list of
all incidents. -/
inductive Watched (s₀ : Store) : List Incident → Session → Prop where
  | start : Watched s₀ [] (idle s₀)
  | step {log : List Incident} {σ σ' : Session} {t : TxnId} {a : Action} {es : List Event}
      (h : Watched s₀ log σ) (hs : Step t a σ es σ') :
      Watched s₀ (log ++ σ.incidents t a σ'.store) σ'
  | deed {log : List Incident} {σ : Session} {d : Deed} {s : Store} (h : Watched s₀ log σ)
      (hd : Store.Does d σ.store s) (hn : d.byHand = true) :
      Watched s₀ (log ++ d.incidents σ.store s) { σ with store := s }

theorem incidents_begin (σ : Session) (t : TxnId) (call : Call) (s : Store) :
    σ.incidents t (.begin call) s = [] := rfl

/-- The balance after a step. -/
theorem Step.balanced (hs : Step t a σ es σ') (hsound : σ.store.cache.Sound)
    (h : σ.store.Balanced log) : σ'.store.Balanced (log ++ σ.incidents t a σ'.store) := by
  have hlooked : ∀ locks, { σ.store with locks }.Balanced log := fun _ =>
    ⟨h.traffic_eq, h.pages, h.evictions_le, h.served⟩
  unfold incidents
  cases hs with
  | begin call hn =>
    show (σ.store.start t call).2.Balanced (log ++ [])
    rw [List.append_nil]
    exact h.quiet (σ.store.quiet_start t call)
  | @ask _ call p hr =>
    simp only [granted?, hr, carry]
    rw [Store.ask]
    cases hl : σ.store.locks.ask p.request with
    | mk look locks =>
      cases look with
      | granted => exact (hlooked locks).resume hsound (LockTable.not_mem_aborted_of_ask hl)
      | refused => exact (List.append_nil log).symm ▸ hlooked locks
      | waiting => exact (List.append_nil log).symm ▸ hlooked locks
  | @wake _ call p run hr hw =>
    simp only [granted?, hr, carry]
    rw [Store.wake?] at hw
    cases hl : σ.store.locks.wake p.request with
    | mk look locks =>
      rw [hl] at hw
      cases look with
      | granted =>
        cases hw
        exact (hlooked locks).resume hsound (LockTable.not_mem_aborted_of_wake hl)
      | refused =>
        cases hw
        exact (List.append_nil log).symm ▸ hlooked locks
      | waiting => cases hw
  | @expire _ call p hr =>
    simp only [granted?, hr, carry]
    rw [Store.expire]
    cases hl : σ.store.locks.expire p.request with
    | mk verdict locks =>
      cases verdict with
      | granted => exact (hlooked locks).resume hsound (LockTable.not_mem_aborted_of_expire hl)
      | refused => exact h.sheds ⟨fun _ hp => hp, rfl⟩
      | deadlock us =>
        have hsheds := Store.sheds_rollBack ({ σ.store with locks }.bump .deadlocks) us
        exact h.sheds ⟨hsheds.keys, hsheds.traffic_eq⟩
  | commit hn =>
    show (σ.store.commit t).2.Balanced (log ++ [])
    rw [List.append_nil]
    exact h.quiet (σ.store.quiet_commit t)
  | abort hn => exact h.sheds (σ.store.sheds_abort t)

/-- The balance after what is done by hand. -/
theorem balanced_byHand (hd : Store.Does d s₀ s) (hn : d.byHand = true)
    (h : s₀.Balanced log) : s.Balanced (log ++ d.incidents s₀ s) := by
  have hquiet : ∀ {m}, s₀.Quiet m → m.Balanced (log ++ []) := fun hq => by
    rw [List.append_nil]
    exact h.quiet hq
  cases hd with
  | call _ => cases hn
  | commit _ _ => cases hn
  | abort _ _ => cases hn
  | release _ t p => exact hquiet (s₀.quiet_releasePage t p)
  | flushPage hf => exact hquiet (Store.quiet_flushPage hf)
  | flushTxn _ t => exact hquiet (s₀.quiet_flushPages _)
  | flushAll => exact hquiet (s₀.quiet_flushPages _)
  | discard _ p => exact h.sheds (s₀.sheds_discard p)
  | register => exact hquiet ⟨rfl, rfl⟩
  | outside => exact hquiet ⟨rfl, rfl⟩

/-- What comes about has come about with a list of accesses as well. -/
theorem Watched.used (h : Watched s₀ log σ) : ∃ uses, Used s₀ uses σ := by
  induction h with
  | start => exact ⟨[], .start⟩
  | step _ hs ih =>
    obtain ⟨uses, ih⟩ := ih
    exact ⟨_, ih.step hs⟩
  | deed _ hd hn ih =>
    obtain ⟨uses, ih⟩ := ih
    cases hd with
    | call _ => cases hn
    | commit _ _ => cases hn
    | abort _ _ => cases hn
    | release _ t p => exact ⟨uses, ih.release t p⟩
    | flushPage hf => exact ⟨uses, ih.manual (.flushPage hf)⟩
    | flushTxn _ t => exact ⟨uses, ih.manual (.flushTxn _ t)⟩
    | flushAll => exact ⟨uses, ih.manual (.flushAll _)⟩
    | discard _ p => exact ⟨uses, ih.manual (.discard _ p)⟩
    | register _ catalog => exact ⟨uses, ih.manual (.outside _ _ catalog _)⟩
    | outside _ disk size => exact ⟨uses, ih.manual (.outside _ disk _ size)⟩

/-- The balance holds throughout. -/
theorem Watched.balanced (h₀ : s₀.Fresh) (hz : s₀.stats = {}) (h : Watched s₀ log σ) :
    σ.store.Balanced log := by
  induction h with
  | start =>
    refine ⟨?_, ?_, Nat.le_refl 0, fun p hp => by cases hp⟩
    · show s₀.traffic = _
      rw [Store.traffic, hz]
      rfl
    · show List.Perm [] ([] ++ s₀.cache.pages.keys)
      rw [h₀.cache_eq]
      exact .refl []
  | step h hs ih =>
    obtain ⟨uses, hu⟩ := h.used
    exact hs.balanced (hu.stocked h₀).kept.sound ih
  | deed _ hd hn ih => exact balanced_byHand hd hn ih

/-! ### Calls that are carried out one after the other -/

/-- A call that is carried to its answer is a run with the incidents of the call. -/
theorem Watched.finish {call : Call} {m : Store} {run : Progress × Store} {reply : Reply}
    (h : Watched s₀ log ((idle m).carry t call run))
    (hp : Store.finish n run = some (reply, s)) :
    Watched s₀ (log ++ Store.callIncidents t call n run) (idle s) := by
  fun_induction Store.finish n run generalizing log m with
  | case1 =>
    cases hp
    rw [carry_done] at h
    rw [Store.callIncidents, List.append_nil]
    exact h
  | case2 => cases hp
  | case3 => cases hp
  | case4 n p s ih =>
    have hask := h.step (.ask running_carry_self (Store.ends_of_finish hp))
    rw [carry_carry] at hask
    rw [Store.callIncidents, ← List.append_assoc]
    exact ih hask hp
  | case5 n p s ih =>
    have hexpire := h.step (.expire running_carry_self (Store.ends_of_finish hp))
    rw [carry_carry] at hexpire
    rw [Store.callIncidents, ← List.append_assoc]
    exact ih hexpire hp

/-- What a single thread does is a run with the same incidents. -/
theorem Watched.logged {ds : List Deed} (h : Store.Logged s₀ ds log s) :
    Watched s₀ log (idle s) := by
  induction h with
  | start => exact .start
  | deed _ hd ih =>
    cases hd with
    | @call _ _ t call _ _ hf =>
      have hbegun := ih.step (.begin (t := t) call rfl (Store.ends_of_finish hf))
      rw [incidents_begin, List.append_nil] at hbegun
      exact hbegun.finish hf
    | other hd hn =>
      have hdoes := hd
      cases hd with
      | call _ => cases hn
      | commit _ t => exact ih.step (.commit rfl)
      | abort _ t => exact ih.step (.abort rfl)
      | _ => exact ih.deed hdoes rfl

end Session

/-! ## What the counters say -/

/-- The counters of a store agree with a list of incidents, and what has happened accounts for every
page. -/
structure Store.Accounted (log : List Incident) (s : Store) : Prop where
  /-- The counters show what has happened, up to multiples of `2 ^ 64`. -/
  hits_eq : s.stats.hits = .ofNat (tally log).hits
  misses_eq : s.stats.misses = .ofNat (tally log).misses
  evictions_eq : s.stats.evictions = .ofNat (tally log).evictions
  reads_eq : s.stats.reads = .ofNat (tally log).reads
  /-- Every request is a hit or a miss. -/
  requests : (tally log).hits + (tally log).misses = (tally log).requests
  /-- Every miss reads a page or fails, and nothing else fails. -/
  failures : (tally log).misses = (tally log).reads + (tally log).failures
  /-- The pages that were read are in memory, have made room or have been dropped. -/
  pages : s.cache.size + (tally log).evictions + (tally log).drops = (tally log).reads
  evictions_le : (tally log).evictions ≤ (tally log).misses
  /-- So it is with each page. -/
  page : ∀ p, log.count (.request p false true) = log.count (.evicted p) + log.count (.dropped p) +
    if p ∈ s.cache.pages.keys then 1 else 0
  /-- Every page in memory has been read by a miss. -/
  read : ∀ p ∈ s.cache.pages.keys, Incident.request p false true ∈ log
  /-- As long as they have not wrapped around, this is what the counters themselves say. -/
  counters : (tally log).requests < UInt64.size →
    s.stats.hits.toNat + s.stats.misses.toNat = (tally log).requests ∧
      s.stats.misses.toNat = s.stats.reads.toNat + (tally log).failures ∧
      s.cache.size + s.stats.evictions.toNat + (tally log).drops = s.stats.reads.toNat ∧
      s.stats.evictions.toNat ≤ s.stats.misses.toNat

namespace Store.Balanced

variable {log : List Incident} {s : Store}

theorem page (h : s.Balanced log) (p : PageId) : log.count (.request p false true) =
    log.count (.evicted p) + log.count (.dropped p) +
      if p ∈ s.cache.pages.keys then 1 else 0 := by
  have hcount := h.pages.count_eq p
  rw [count_brought, List.count_append, count_gone] at hcount
  rw [hcount]
  split
  · rename_i hp
    rw [List.count_eq_one_of_mem s.cache.pages.nodup_keys hp]
  · rename_i hp
    rw [List.count_eq_zero_of_not_mem hp]

theorem size_add (h : s.Balanced log) :
    s.cache.size + (tally log).evictions + (tally log).drops = (tally log).reads := by
  have hlen := h.pages.length_eq
  rw [length_brought, List.length_append, length_gone, Assoc.length_keys] at hlen
  rw [Cache.size]
  omega

theorem accounted (h : s.Balanced log) : s.Accounted log where
  hits_eq := congrArg Traffic.hits h.traffic_eq
  misses_eq := congrArg Traffic.misses h.traffic_eq
  evictions_eq := congrArg Traffic.evictions h.traffic_eq
  reads_eq := congrArg Traffic.reads h.traffic_eq
  requests := hits_add_misses log
  failures := TableStore.misses_eq h.served
  pages := h.size_add
  evictions_le := h.evictions_le
  page := h.page
  read p hp := by
    have hpage := h.page p
    rw [if_pos hp] at hpage
    exact List.count_pos_iff.1 (by omega)
  counters hlt := by
    have hrequests := hits_add_misses log
    have hfailures := TableStore.misses_eq h.served
    have hpages := h.size_add
    have hle := h.evictions_le
    have hword : ∀ n, n ≤ (tally log).requests → (UInt64.ofNat n).toNat = n := fun n hn =>
      UInt64.toNat_ofNat_of_lt' (Nat.lt_of_le_of_lt hn hlt)
    have hhits : s.stats.hits.toNat = (tally log).hits :=
      (congrArg (·.hits.toNat) h.traffic_eq).trans (hword _ (by omega))
    have hmisses : s.stats.misses.toNat = (tally log).misses :=
      (congrArg (·.misses.toNat) h.traffic_eq).trans (hword _ (by omega))
    have hevictions : s.stats.evictions.toNat = (tally log).evictions :=
      (congrArg (·.evictions.toNat) h.traffic_eq).trans (hword _ (by omega))
    have hreads : s.stats.reads.toNat = (tally log).reads :=
      (congrArg (·.reads.toNat) h.traffic_eq).trans (hword _ (by omega))
    omega

end Store.Balanced

namespace Session

/-- **The counters account for every page.**  Whatever a single thread does to an empty pool whose
counters are zero, hits and misses together are the requests whose lock was granted, the misses that
read no page are the requests that failed, and the pages that were read are those that are in memory,
that have made room and that have been dropped.  So every page in memory has been read from its file
by a miss, also one that a call has changed.  All that a single thread can do is covered, scans too,
and it is no different for transactions that run beside each other. -/
theorem counters_account {s₀ : Store} (h₀ : s₀.Fresh) (hz : s₀.stats = {}) :
    (∀ ds log s, Store.Logged s₀ ds log s → s.Accounted log) ∧
      (∀ ds s, Store.After s₀ ds s → ∃ log, Store.Logged s₀ ds log s) ∧
      (∀ ds s scan item scan' s', Store.After s₀ ds s → s.next scan = some (item, scan', s') →
        ∃ ds', Store.After s₀ ds' s') ∧
      ∀ log σ, Watched s₀ log σ → σ.store.Accounted log := by
  have haccounted : ∀ log σ, Watched s₀ log σ → σ.store.Accounted log :=
    fun _ _ h => (h.balanced h₀ hz).accounted
  exact ⟨fun ds log s h => haccounted log (idle s) (.logged h), fun _ _ h => h.logged,
    fun _ _ _ _ _ _ h hn => h.next hn, haccounted⟩

/-- A page that a call has put a row into has been read. -/
theorem counters_account_entered :
    Store.numbers.Fresh ∧ Store.numbers.stats = {} ∧ ∃ ds log reply s,
      Store.entered = some (reply, s) ∧ Store.Logged .numbers ds log s ∧
        Incident.request (TableFile.numbers.page 0) false true ∈ log := by
  have hfresh : Store.numbers.Fresh := ⟨rfl, rfl⟩
  obtain ⟨haccounted, hrecorded, -⟩ := counters_account hfresh rfl
  have hin : Store.entered.map (fun r => decide (TableFile.numbers.page 0 ∈ r.2.cache.pages.keys)) =
      some true := by decide +kernel
  obtain ⟨⟨reply, s⟩, hs, hp⟩ := Option.map_eq_some_iff.1 hin
  obtain ⟨log, hlog⟩ := hrecorded _ s (.deed .start (.call hs))
  exact ⟨hfresh, rfl, _, log, reply, s, hs, hlog,
    (haccounted _ log s hlog).read _ (of_decide_eq_true hp)⟩

end Session
end TableStore

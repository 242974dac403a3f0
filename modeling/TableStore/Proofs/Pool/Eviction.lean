import TableStore.Proofs.Pool.Deed
import TableStore.Proofs.Pool.Room

/-!
# What is evicted, and when the pool is full

Transactions run beside each other, pages are written and dropped by hand, locks are given back early
and calls fail.  None of this asks for any discipline of the callers: the cache never outgrows the
pool, an eviction takes the clean page whose last access is the oldest, and a page that is asked for
is refused for want of room only if every page in memory is dirty.

## What is here

* `Session.granted?` — the call whose lock is granted in a step.  `Session.Turn` says what a step does
  to the pool in this case and in all others, and `Session.uses` which accesses there are in it.
* `Session.Used` — the sessions that come about, each with the list of all accesses.  It covers calls
  that are carried out one after the other (`Session.Used.after`).
* `Session.eviction_safe` — what holds of all of them.
-/

set_option autoImplicit false
namespace TableStore

variable {n : Nat} {log : List PageId} {t : TxnId} {p : Pending} {q : PageId}

/-! ## Steps

What a step does to the pool is told by the pages that it uses.  A step has at most two accesses:
the page that is handed out, and the changed copy of it. -/

namespace Session

variable {σ σ' : Session} {a : Action} {es : List Event} {m : Store}

/-- The call of `t` whose lock is granted in a step, and the store with this lock. -/
def granted? (σ : Session) (t : TxnId) : Action → Option (Pending × Store)
  | .ask =>
    match σ.running t with
    | some ⟨_, p, false⟩ =>
      match σ.store.locks.ask p.request with
      | (.granted, locks) => some (p, { σ.store with locks })
      | _ => none
    | _ => none
  | .wake =>
    match σ.running t with
    | some ⟨_, p, true⟩ =>
      match σ.store.locks.wake p.request with
      | (.granted, locks) => some (p, { σ.store with locks })
      | _ => none
    | _ => none
  | .expire =>
    match σ.running t with
    | some ⟨_, p, true⟩ =>
      match σ.store.locks.expire p.request with
      | (.granted, locks) => some (p, { σ.store with locks })
      | _ => none
    | _ => none
  | _ => none

/-- The accesses of a step: the page that is handed out once its lock is granted, and the changed
copy that is installed. -/
def uses (σ : Session) (t : TxnId) (a : Action) : List PageId :=
  match σ.granted? t a with
  | none => []
  | some (p, m) => m.resumeUses p

/-- Nobody is granted a lock who is a victim. -/
theorem of_granted? (h : σ.granted? t a = some (p, m)) :
    ∃ call asleep locks, σ.running t = some ⟨call, p, asleep⟩ ∧
      m = { σ.store with locks } ∧ p.request.txn ∉ locks.aborted := by
  unfold granted? at h
  split at h
  · split at h
    · rename_i call p' hr
      split at h
      · rename_i locks hl
        cases h
        exact ⟨call, false, locks, hr, rfl, LockTable.not_mem_aborted_of_ask hl⟩
      · cases h
    · cases h
  · split at h
    · rename_i call p' hr
      split at h
      · rename_i locks hl
        cases h
        exact ⟨call, true, locks, hr, rfl, LockTable.not_mem_aborted_of_wake hl⟩
      · cases h
    · cases h
  · split at h
    · rename_i call p' hr
      split at h
      · rename_i locks hl
        cases h
        exact ⟨call, true, locks, hr, rfl, LockTable.not_mem_aborted_of_expire hl⟩
      · cases h
    · cases h
  · cases h

/-- What a step does to the pool. -/
inductive Turn (t : TxnId) (a : Action) (σ : Session) (es : List Event) (s' : Store) : Prop where
  /-- A call goes on with its lock. -/
  | granted {call : Call} {p : Pending} {asleep : Bool} {m : Store}
      (hr : σ.running t = some ⟨call, p, asleep⟩) (hg : σ.granted? t a = some (p, m))
      (hs : s' = (m.resume p).2) (hes : es = σ.store.outcomes t call (m.resume p).1)
  /-- A call begins, waits, or is refused because the transaction is a victim. -/
  | still (hg : σ.granted? t a = none) (hc : s'.cache = σ.store.cache)
      (hk : s'.capacity = σ.store.capacity)
      (hes : σ.running t = none ∨ ∀ e ∈ es, ∃ u, e = .refused t (.aborted u))
  | committed (hg : σ.granted? t a = none) (hr : σ.running t = none)
      (hs : s' = (σ.store.commit t).2)
  | aborted (hg : σ.granted? t a = none) (ha : a = .abort) (hr : σ.running t = none)
      (hs : s' = σ.store.abort t)
  /-- A deadlock is declared, and the victims are rolled back. -/
  | struck {u : TxnId} {us : List TxnId} {m : Store} (hg : σ.granted? t a = none)
      (hes : es = [.struck u us]) (hc : m.cache = σ.store.cache)
      (hk : m.capacity = σ.store.capacity) (hs : s' = us.foldl Store.rollBack m)

theorem refused_victim (s m : Store) (p : Pending) (call : Call) :
    ∀ e ∈ s.outcomes t call (m.answer p .refused).1, ∃ u, e = .refused t (.aborted u) := by
  intro e he
  exact ⟨p.request.txn, List.mem_singleton.1 he⟩

theorem Step.turn (hs : Step t a σ es σ') : Turn t a σ es σ'.store := by
  cases hs with
  | begin call hn =>
    obtain ⟨hc, hk⟩ := σ.store.start_rest t call
    exact .still rfl hc hk (.inl hn)
  | @ask _ call p hr =>
    rw [Store.ask]
    cases hl : σ.store.locks.ask p.request with
    | mk look locks =>
      cases look with
      | granted => exact .granted hr (by simp only [granted?, hr, hl]) rfl rfl
      | refused =>
        exact .still (by simp only [granted?, hr, hl]) rfl rfl (.inr (refused_victim _ _ p call))
      | waiting =>
        exact .still (by simp only [granted?, hr, hl]) rfl rfl (.inr fun e he => by cases he)
  | @wake _ call p run hr hw =>
    rw [Store.wake?] at hw
    cases hl : σ.store.locks.wake p.request with
    | mk look locks =>
      rw [hl] at hw
      cases look with
      | granted =>
        cases hw
        exact .granted hr (by simp only [granted?, hr, hl]) rfl rfl
      | refused =>
        cases hw
        exact .still (by simp only [granted?, hr, hl]) rfl rfl (.inr (refused_victim _ _ p call))
      | waiting => cases hw
  | @expire _ call p hr =>
    rw [Store.expire, Store.strikes]
    cases hl : σ.store.locks.expire p.request with
    | mk verdict locks =>
      cases verdict with
      | granted => exact .granted hr (by simp only [granted?, hr, hl]) rfl rfl
      | refused =>
        exact .still (by simp only [granted?, hr, hl]) rfl rfl
          (.inr (refused_victim σ.store { σ.store with locks } p call))
      | deadlock us =>
        exact .struck (m := { σ.store with locks }.bump .deadlocks)
          (by simp only [granted?, hr, hl]) rfl rfl rfl rfl
  | commit hn => exact .committed rfl hn rfl
  | abort hn => exact .aborted rfl rfl hn rfl

/-! ## All orders of steps -/

variable {s₀ : Store}

/-- The sessions that come about from a store in which no call is in progress, each with the list of
all accesses. -/
inductive Used (s₀ : Store) : List PageId → Session → Prop where
  | start : Used s₀ [] (idle s₀)
  | step {log : List PageId} {σ σ' : Session} {t : TxnId} {a : Action} {es : List Event}
      (h : Used s₀ log σ) (hs : Step t a σ es σ') : Used s₀ (log ++ σ.uses t a) σ'
  | manual {log : List PageId} {σ : Session} {s : Store} (h : Used s₀ log σ)
      (hm : Manual σ.store s) : Used s₀ log { σ with store := s }
  | release {log : List PageId} {σ : Session} (h : Used s₀ log σ) (t : TxnId) (p : PageId) :
      Used s₀ log { σ with store := (σ.store.releasePage t p).2 }

theorem Manual.stocked {s s' : Store} (hm : Manual s s') (h : s.Stocked n log) :
    s'.Stocked n log := by
  cases hm with
  | flushPage hf => exact h.flushPage hf
  | flushTxn t => exact h.flushPages _
  | flushAll => exact h.flushPages _
  | discard q =>
    exact ⟨h.kept.drop q, h.capacity_eq, Nat.le_trans (Assoc.size_erase_le _ _) h.size_le⟩
  | outside disk catalog pageSize => exact ⟨h.kept, h.capacity_eq, h.size_le⟩

theorem Step.stocked (hs : Step t a σ es σ') (h : σ.store.Stocked n log) :
    σ'.store.Stocked n (log ++ σ.uses t a) := by
  rw [uses]
  cases hs.turn with
  | @granted _ p _ m hr hg hm =>
    obtain ⟨call, asleep, locks, -, rfl, -⟩ := of_granted? hg
    have hl : { σ.store with locks }.Stocked n log := h.congr rfl rfl
    rw [hg, hm]
    exact hl.resume p
  | still hg hc hk =>
    rw [hg, List.append_nil]
    exact h.congr hc hk
  | committed hg _ hm =>
    rw [hg, hm, List.append_nil]
    exact h.commit t
  | aborted hg _ _ hm =>
    rw [hg, hm, List.append_nil]
    exact h.abort t
  | struck hg _ hc hk hm =>
    rw [hg, hm, List.append_nil]
    exact (h.congr hc hk).rollBack _

theorem Used.stocked (h₀ : s₀.Fresh) (h : Used s₀ log σ) : σ.store.Stocked s₀.capacity log := by
  induction h with
  | start => exact ⟨h₀.cache_eq ▸ .empty, rfl, h₀.cache_eq ▸ Nat.zero_le _⟩
  | step _ hs ih => exact hs.stocked ih
  | manual _ hm ih => exact hm.stocked ih
  | release _ t p ih =>
    refine ih.congr ?_ ?_ <;>
    · dsimp only
      rw [Store.releasePage]
      split <;> rfl

/-! ### Calls that fetch a page -/

/-- The calls in progress that fetch a page ask for the lock on this page. -/
def Fetching (σ : Session) : Prop :=
  ∀ t q access p asleep, σ.running t = some ⟨.fetch q access, p, asleep⟩ →
    p = ⟨⟨t, q, access.mode⟩, .read⟩

/-- A call that only reads its page is answered once it has the lock. -/
theorem pending_answer {s : Store} {look : Answer} {call : Call} {r : Running}
    (hp : p.goal = .read) (hr : Running.of? call (s.answer p look).1 = some r) :
    r.pending = p := by
  cases look with
  | refused => cases hr
  | waiting =>
    cases hr
    rfl
  | granted =>
    simp only [Store.answer, Store.resume, hp] at hr
    split at hr <;> cases hr

theorem Fetching.carry (h : σ.Fetching) {call : Call} {run : Progress × Store}
    (hrun : ∀ q access, call = .fetch q access → ∀ r, Running.of? call run.1 = some r →
      r.pending = ⟨⟨t, q, access.mode⟩, .read⟩) :
    (σ.carry t call run).Fetching := by
  intro u q access p asleep hu
  by_cases hut : u = t
  · rw [hut, running_carry_self] at hu
    have hcall : call = .fetch q access := by
      cases hprog : run.1 <;> rw [hprog] at hu <;> cases hu <;> rfl
    rw [hut]
    exact hrun q access hcall _ hu
  · rw [running_carry_of_ne hut] at hu
    exact h u q access p asleep hu

theorem Step.fetching (hs : Step t a σ es σ') (h : σ.Fetching) : σ'.Fetching := by
  cases hs with
  | begin call hn =>
    refine h.carry fun q access hc r hr => ?_
    subst hc
    cases hr
    rfl
  | @ask _ call p hr =>
    refine h.carry fun q access hc r hr' => ?_
    subst hc
    obtain rfl := h t q access p false hr
    exact pending_answer rfl hr'
  | @wake _ call p run hr hw =>
    refine h.carry fun q access hc r hr' => ?_
    subst hc
    obtain rfl := h t q access p true hr
    rw [Store.wake?] at hw
    split at hw
    · cases hw
    · cases hw
      exact pending_answer rfl hr'
  | @expire _ call p hr =>
    refine h.carry fun q access hc r hr' => ?_
    subst hc
    obtain rfl := h t q access p true hr
    rw [Store.expire] at hr'
    split at hr'
    · exact pending_answer rfl hr'
    · exact pending_answer rfl hr'
    · cases hr'
      rfl
  | commit => exact h
  | abort => exact h

theorem Used.fetching (h : Used s₀ log σ) : σ.Fetching := by
  induction h with
  | start => exact fun _ _ _ _ _ hr => by cases hr
  | step _ hs ih => exact hs.fetching ih
  | manual _ _ ih => exact ih
  | release _ _ _ ih => exact ih

/-! ### Calls that are carried out one after the other -/

theorem Used.finish {call : Call} {m : Store} {n : Nat} {run : Progress × Store} {reply : Reply}
    {s : Store} (h : Used s₀ log ((idle m).carry t call run))
    (hp : Store.finish n run = some (reply, s)) : ∃ log', Used s₀ log' (idle s) := by
  fun_induction Store.finish n run generalizing log m with
  | case1 =>
    cases hp
    rw [carry_done] at h
    exact ⟨log, h⟩
  | case2 => cases hp
  | case3 => cases hp
  | case4 n p s ih =>
    have hask := h.step (.ask running_carry_self (Store.ends_of_finish hp))
    rw [carry_carry] at hask
    exact ih hask hp
  | case5 n p s ih =>
    have hexpire := h.step (.expire running_carry_self (Store.ends_of_finish hp))
    rw [carry_carry] at hexpire
    exact ih hexpire hp

/-- **What a single thread does to a store is covered**: calls, ends of transactions, and all that is
done by hand. -/
theorem Used.after {ds : List Deed} {s : Store} (h : Store.After s₀ ds s) :
    ∃ log, Used s₀ log (idle s) := by
  induction h with
  | start => exact ⟨[], .start⟩
  | deed _ hd ih =>
    obtain ⟨log, ih⟩ := ih
    cases hd with
    | call hf => exact (ih.step (.begin _ rfl (Store.ends_of_finish hf))).finish hf
    | commit _ t => exact ⟨_, ih.step (.commit rfl)⟩
    | abort _ t => exact ⟨_, ih.step (.abort rfl)⟩
    | release _ t p => exact ⟨log, ih.release t p⟩
    | flushPage hf => exact ⟨log, ih.manual (.flushPage hf)⟩
    | flushTxn _ t => exact ⟨log, ih.manual (.flushTxn _ t)⟩
    | flushAll => exact ⟨log, ih.manual (.flushAll _)⟩
    | discard _ p => exact ⟨log, ih.manual (.discard _ p)⟩
    | register _ catalog => exact ⟨log, ih.manual (.outside _ _ catalog _)⟩
    | outside _ disk size => exact ⟨log, ih.manual (.outside _ disk _ size)⟩

/-! ## What is evicted

A page that has gone may have been evicted, or dropped by an abort or a rollback.  A step that is
neither of these drops pages by eviction alone. -/

/-- A page that goes in a step, other than by an abort or a rollback, has been evicted. -/
theorem Step.gone (hs : Step t a σ es σ') (h : σ.store.Stocked n log) (ha : a ≠ .abort)
    (hes : ∀ u us, .struck u us ∉ es) (hq : q ∈ σ.store.cache.pages.keys)
    (hn : q ∉ σ'.store.cache.pages.keys) :
    σ.store.cache.size = n ∧ σ.store.cache.Stalest log q := by
  cases hs.turn with
  | granted hr hg hm =>
    obtain ⟨call, asleep, locks, -, rfl, -⟩ := of_granted? hg
    have hl : { σ.store with locks }.Stocked n log := h.congr rfl rfl
    exact hl.gone_resume hq (hm ▸ hn)
  | still _ hc =>
    rw [hc] at hn
    exact absurd hq hn
  | committed _ _ hm =>
    rw [hm] at hn
    exact absurd (Store.mem_keys_commit t hq) hn
  | aborted _ ha' => exact absurd ha' ha
  | struck _ he =>
    rw [he] at hes
    exact absurd (List.mem_singleton_self _) (hes _ _)

theorem refused_fetch_iff (s m : Store) (q : PageId) (access : Access) (e : Error) :
    .refused t e ∈ s.outcomes t (.fetch q access) (m.resume ⟨⟨t, q, access.mode⟩, .read⟩).1 ↔
      (m.load t q).1 = .error e := by
  rw [Store.resume]
  dsimp only
  cases hload : m.load t q with
  | mk result m' =>
    cases result with
    | error e' => simp [Progress.refuse, Store.outcomes, Store.outcome, eq_comm]
    | ok page => simp [Store.outcomes, Store.outcome]

/-- A page that is asked for is refused for want of room once its lock is granted, if the page is not
in memory, the pool is full and every page in memory is dirty, and only then. -/
theorem Step.refused_poolFull_iff (hs : Step t a σ es σ') (h : σ.store.Stocked n log)
    (hf : σ.Fetching) {access : Access} {asleep : Bool} {k : Nat}
    (hr : σ.running t = some ⟨.fetch q access, p, asleep⟩) :
    .refused t (.poolFull k) ∈ es ↔ (σ.granted? t a).isSome = true ∧ k = n ∧
      q ∉ σ.store.cache.pages.keys ∧ σ.store.cache.size = n ∧
      ∀ r page, σ.store.cache.pages.get? r = some page → page.dirtier ≠ none := by
  obtain rfl := hf t q access p asleep hr
  cases hs.turn with
  | granted hr' hg _ hes =>
    rw [hr] at hr'
    cases hr'
    obtain ⟨call, asleep, locks, -, rfl, ha⟩ := of_granted? hg
    have hl : { σ.store with locks }.Stocked n log := h.congr rfl rfl
    rw [hes, hg, refused_fetch_iff, hl.load_poolFull_iff ha]
    exact (and_iff_right rfl).symm
  | still hg _ _ hes =>
    rw [hg]
    refine iff_of_false (fun hmem => ?_) fun hgr => Bool.false_ne_true hgr.1
    rcases hes with hn | hes
    · rw [hr] at hn
      cases hn
    · obtain ⟨u, he⟩ := hes _ hmem
      cases he
  | committed _ hn =>
    rw [hr] at hn
    cases hn
  | aborted _ _ hn =>
    rw [hr] at hn
    cases hn
  | struck hg hes =>
    rw [hg, hes]
    exact iff_of_false (fun hmem => by cases List.mem_singleton.1 hmem) fun hgr =>
      Bool.false_ne_true hgr.1

/-- **The cache is never larger than the pool, and what is evicted is clean and the longest
unused.**  The record of accesses tracks exactly the pages in memory, each of which stands under its
own name, and those that may be evicted are exactly the clean ones.  So an eviction drops the clean
page whose last access is the oldest, and there is none only if every page is dirty.  A page that goes
in a step, other than by an abort or a rollback, has been evicted from a full pool.  A call that
fetches a page is refused for want of room if its lock has been granted, the page is not in memory,
the pool is full and every page in it is dirty, and only then. -/
theorem eviction_safe (h₀ : s₀.Fresh) (h : Used s₀ log σ) :
    σ.store.capacity = s₀.capacity ∧ σ.store.cache.size ≤ s₀.capacity ∧
    (∀ p page, σ.store.cache.pages.get? p = some page → page.id = p) ∧
    (σ.store.cache.recency.order.Nodup ∧
      ∀ p, (p ∈ σ.store.cache.recency.order ↔ p ∈ σ.store.cache.pages.keys) ∧
        (p ∈ σ.store.cache.recency.stamps.keys ↔ p ∈ σ.store.cache.pages.keys) ∧
        (p ∈ σ.store.cache.recency.evictable ↔ σ.store.cache.isClean p = true)) ∧
    (∀ c, σ.store.cache.evict? = some c →
      ∃ p, c = σ.store.cache.drop p ∧ σ.store.cache.Stalest log p) ∧
    (σ.store.cache.evict? = none ↔
      ∀ p page, σ.store.cache.pages.get? p = some page → page.dirtier ≠ none) ∧
    (∀ t a es σ', Step t a σ es σ' →
      (a ≠ .abort → (∀ u us, .struck u us ∉ es) → ∀ p ∈ σ.store.cache.pages.keys,
        p ∉ σ'.store.cache.pages.keys →
          σ.store.cache.size = s₀.capacity ∧ σ.store.cache.Stalest log p) ∧
      (∀ p access pending asleep, σ.running t = some ⟨.fetch p access, pending, asleep⟩ →
        ∀ k, .refused t (.poolFull k) ∈ es ↔
          (σ.granted? t a).isSome = true ∧ k = s₀.capacity ∧
          p ∉ σ.store.cache.pages.keys ∧ σ.store.cache.size = s₀.capacity ∧
          ∀ q page, σ.store.cache.pages.get? q = some page → page.dirtier ≠ none)) := by
  have hs := h.stocked h₀
  have hk := hs.kept
  refine ⟨hs.capacity_eq, hs.size_le, hk.keyed,
    ⟨hk.formed.nodup_order, fun p => ⟨hk.tracked p, hk.stamped, hk.evictable p⟩⟩,
    fun c hc => hk.evict? hc, hk.evict?_eq_none_iff, fun t a es σ' hstep => ⟨?_, ?_⟩⟩
  · intro ha hes p hp hn
    exact hstep.gone hs ha hes hp hn
  · intro p access pending asleep hr k
    exact hstep.refused_poolFull_iff hs h.fetching hr

end Session

/-! ## A small pool -/

/-- The store with one table of numbers, and a pool of one page. -/
def Store.narrow : Store := { Store.numbers with capacity := 1, capacity_pos := Nat.one_pos }

/-- A transaction has read the first page. -/
def Store.crowded : Store :=
  (narrow.ask ⟨⟨⟨1⟩, TableFile.numbers.page 0, .shared⟩, .read⟩).2

namespace Session

/-- Another transaction is about to ask for the second page. -/
def crowding : Session :=
  let call : Call := .fetch (TableFile.numbers.page 1) .readOnly
  (idle .crowded).carry ⟨2⟩ call (Store.crowded.start ⟨2⟩ call)

theorem used_crowding : ∃ log, Used .narrow log crowding := by
  let call : Call := .fetch (TableFile.numbers.page 0) .readOnly
  have hs : (Store.finish 1 (Store.narrow.start ⟨1⟩ call)).map Prod.snd = some .crowded := by
    decide +kernel
  obtain ⟨⟨reply, s⟩, hs, rfl⟩ := Option.map_eq_some_iff.1 hs
  obtain ⟨log, hu⟩ := Used.after (.deed .start (.call hs))
  exact ⟨_, hu.step (.begin _ rfl rfl)⟩

/-- The first page is the one that goes. -/
theorem eviction_safe_crowding :
    Store.narrow.Fresh ∧ ∃ log, Used .narrow log crowding ∧
      crowding.store.cache.Stalest log (TableFile.numbers.page 0) := by
  have hf : Store.narrow.Fresh := ⟨rfl, rfl⟩
  obtain ⟨log, hu⟩ := used_crowding
  refine ⟨hf, log, hu, ?_⟩
  have hstep := Step.ask (σ := crowding) (t := ⟨2⟩) rfl (by decide +kernel)
  have hin : TableFile.numbers.page 0 ∈ crowding.store.cache.pages.keys := by decide +kernel
  have hout : TableFile.numbers.page 0 ∉ (crowding.store.ask
      ⟨⟨⟨2⟩, TableFile.numbers.page 1, .shared⟩, .read⟩).2.cache.pages.keys := by decide +kernel
  obtain ⟨-, -, -, -, -, -, hgone⟩ := eviction_safe hf hu
  have hes := not_struck_outcomes crowding.store ⟨2⟩ (.fetch (TableFile.numbers.page 1) .readOnly)
  exact ((hgone _ _ _ _ hstep).1 (fun ha => by cases ha) (hes _) _ hin hout).2

end Session
end TableStore

import TableStore.Proofs.Pool.Deed

/-!
# Deadlocks where nobody else runs

A request whose time is up strikes all other transactions that hold locks, and asks again.  Nobody
holds a lock then but the one who asks, so the second request is granted.

## What is here

* `Store.lock` — takes a lock, with at most a given number of requests.
* `Store.finish_asking` — a call that needs a lock goes on with the store in which it has been taken.
* `Store.Granted`, `Store.Spared` — what is left of a store when the first request is granted, and
  when the second one is.
* `Store.lock_spares_waiter` — there is no third one.
-/

set_option autoImplicit false
namespace TableStore
namespace Store

/-- Takes a lock where nobody else runs, with at most `n` requests.  The victims of a deadlock are
rolled back before the next one. -/
def lock : Nat → Store → Request → Option (Except Error Unit × Store)
  | 0, _, _ => none
  | n + 1, s, r =>
    match s.locks.acquire r with
    | (.granted, locks) => some (.ok (), { s with locks })
    | (.refused, locks) => some (.error (.aborted r.txn), { s with locks })
    | (.deadlock us, locks) => lock n (us.foldl rollBack ({ s with locks }.bump .deadlocks)) r

variable {s₀ s s' : Store} {r : Request} {us : List TxnId} {l m : LockTable} {t u : TxnId}
  {p : PageId} {ds : List Deed}

theorem lock_of_granted (h : s.locks.acquire r = (.granted, l)) (n : Nat) :
    s.lock (n + 1) r = some (.ok (), { s with locks := l }) := by
  rw [lock, h]

theorem lock_of_deadlock (h : s.locks.acquire r = (.deadlock us, l)) (n : Nat) :
    s.lock (n + 1) r = (us.foldl rollBack ({ s with locks := l }.bump .deadlocks)).lock n r := by
  rw [lock, h]

/-! ## Calls take locks in this way

A call asks for its lock as soon as it knows its page.  If the request ends in a deadlock, the
victims are rolled back and the call asks again, so this is a loop of requests. -/

/-- A call asks for its lock in one or two pieces. -/
theorem finish_acquire (s : Store) (p : Pending) : ∃ k, 0 < k ∧ k ≤ 2 ∧ ∀ i,
    finish (i + k) (.asking p, s) = match s.locks.acquire p.request with
      | (.granted, locks) => finish i ({ s with locks }.answer p .granted)
      | (.refused, locks) => finish i ({ s with locks }.answer p .refused)
      | (.deadlock us, locks) =>
        finish i (.asking p, us.foldl rollBack ({ s with locks }.bump .deadlocks)) := by
  rw [LockTable.acquire]
  cases ha : s.locks.ask p.request with
  | mk a l =>
    cases a with
    | granted => exact ⟨1, by decide, by decide, fun i => by rw [finish, ask, ha]⟩
    | refused => exact ⟨1, by decide, by decide, fun i => by rw [finish, ask, ha]⟩
    | waiting =>
      refine ⟨2, by decide, by decide, fun i => ?_⟩
      have hask : s.ask p = (.waiting p, { s with locks := l }) := by
        rw [ask, ha]
        rfl
      rw [finish, hask, finish, expire]
      dsimp only
      cases he : l.expire p.request with
      | mk v m =>
        cases v with
        | granted => rfl
        | refused => rfl
        | deadlock us => rfl

/-- **A call that needs a lock goes on from the store in which the lock has been taken.**  Each
request takes two looks at most. -/
theorem finish_asking {n : Nat} {p : Pending} (h : s.lock n p.request = some (.ok (), s')) :
    ∃ k, k ≤ 2 * n ∧ ∀ i, finish (i + k) (.asking p, s) = finish i (s'.resume p) := by
  induction n generalizing s with
  | zero => cases h
  | succ n ih =>
    obtain ⟨k, -, hk, hfin⟩ := finish_acquire s p
    rw [lock] at h
    split at h
    · rename_i l ha
      cases h
      refine ⟨k, by omega, fun i => ?_⟩
      rw [hfin, ha]
      rfl
    · cases h
    · rename_i us l ha
      obtain ⟨k', hk', hrest⟩ := ih h
      refine ⟨k' + k, by omega, fun i => ?_⟩
      rw [← Nat.add_assoc, hfin, ha]
      exact hrest i

/-! ## After a deadlock

All others that held locks are victims then, and have none any more.  So the second request finds
nobody in its way. -/

/-- The first request is granted: nothing changes but the lock that is asked for. -/
structure Granted (s : Store) (r : Request) (s' : Store) : Prop where
  rest : s' = { s with locks := s'.locks }
  others : ∀ u p, u ≠ r.txn → s'.locks.heldMode? u p = s.locks.heldMode? u p
  aborted_eq : s'.locks.aborted = s.locks.aborted
  own : ∀ p, s'.locks.heldMode? r.txn p =
    if p = r.page then
      some (if s.locks.heldMode? r.txn r.page = some .exclusive then .exclusive else r.mode)
    else s.locks.heldMode? r.txn p

/-- The first request has timed out: all others that held locks are victims and have lost their locks
and their changes, nobody else is struck, and whoever has asked keeps all locks and changes. -/
structure Spared (s : Store) (r : Request) (s' : Store) : Prop where
  victims : ∀ u, u ≠ r.txn → (∃ p, s.holds u p = true) →
    u ∈ s'.locks.aborted ∧ (∀ p, s'.holds u p = false) ∧ s'.cache.dirtyPages u = []
  bystanders : ∀ u, (∀ p, s.holds u p = false) → (u ∈ s'.locks.aborted ↔ u ∈ s.locks.aborted)
  active : r.txn ∉ s'.locks.aborted
  own : ∀ p, s'.locks.heldMode? r.txn p =
    if p = r.page then
      some (if s.locks.heldMode? r.txn r.page = some .exclusive then .exclusive else r.mode)
    else s.locks.heldMode? r.txn p
  dirty : ∀ p page, page.dirtier = some r.txn →
    (s'.cache.pages.get? p = some page ↔ s.cache.pages.get? p = some page)
  stats_eq : s'.stats = s.stats.bump .deadlocks

theorem granted_of_looked (h : LockTable.Looked s.locks r .granted l) :
    Granted s r { s with locks := l } :=
  ⟨rfl, fun _ p hu => h.heldMode?_of_ne hu p, h.aborted_eq, h.granted rfl⟩

theorem stats_foldl_rollBack (s : Store) (us : List TxnId) :
    (us.foldl rollBack s).stats = s.stats := by
  refine List.foldlRecOn us rollBack (motive := fun m => m.stats = s.stats) rfl fun m hm u _ => ?_
  exact hm

/-- Nobody else holds a lock once the victims of a deadlock have been rolled back. -/
theorem NobodyWaits.alone (h : s.NobodyWaits) (hs : LockTable.Struck s.locks r us l)
    (hu : u ≠ r.txn) :
    (us.foldl rollBack ({ s with locks := l }.bump .deadlocks)).locks.holdings.get? u = none := by
  rw [(discarded_strike h hs).holdings]
  split
  · rfl
  · rename_i hn
    refine (hs.holdings_eq u).trans (Decidable.byContradiction fun hheld => hn ?_)
    -- whoever holds a lock and is not struck now would have been a victim before
    exact (hs.mem_iff u).2 ⟨hu, fun ha => hheld (h.locks.marked u ha), hheld⟩

theorem spared_of_struck (h : s.NobodyWaits) (hs : LockTable.Struck s.locks r us l)
    (hl : LockTable.Looked (us.foldl rollBack ({ s with locks := l }.bump .deadlocks)).locks r
      .granted m) :
    Spared s r { us.foldl rollBack ({ s with locks := l }.bump .deadlocks) with locks := m } := by
  have hd := discarded_strike h hs
  have halone := fun u hu => h.alone (u := u) hs hu
  generalize hw : us.foldl rollBack ({ s with locks := l }.bump .deadlocks) = w at hl hd halone
  have haborted : ∀ u, u ∈ m.aborted ↔ u ∈ s.locks.aborted ∨ u ∈ us := fun u => by
    rw [hl.aborted_eq, ← hw, aborted_foldl_rollBack]
    exact hs.mem_aborted u
  have hself : r.txn ∉ us := fun hm => ((hs.mem_iff _).1 hm).1 rfl
  have hheld : ∀ p, w.locks.heldMode? r.txn p = s.locks.heldMode? r.txn p := fun p => by
    rw [LockTable.heldMode?, LockTable.heldMode?, hd.holdings, if_neg hself]
    exact congrArg (Option.bind · _) (hs.holdings_eq r.txn)
  have hholds := fun u => h.locks.consistent.get?_ne_none_iff (u := u)
  refine ⟨fun u hu hp => ?_, fun u hn => ?_, fun ha => ?_, fun p => ?_, fun p page hp => ?_, ?_⟩
  · have hheld := (hholds u).2 hp
    have hmem := (hs.mem_iff u).2 ⟨hu, fun ha => hheld (h.locks.marked u ha), hheld⟩
    refine ⟨(haborted u).2 (Or.inr hmem), fun p => ?_, ?_⟩
    · rw [Store.holds, LockTable.holds, hl.heldMode?_of_ne hu, LockTable.heldMode?, halone u hu]
      rfl
    · refine List.eq_nil_iff_forall_not_mem.2 fun p hp => ?_
      obtain ⟨page, hpage, hdirty⟩ := Cache.mem_dirtyPages.1 hp
      exact (hd.origin p page hpage).2 u hmem hdirty
  · rw [haborted]
    refine ⟨fun ha => ha.resolve_right fun hm => ?_, Or.inl⟩
    obtain ⟨p, hp⟩ := (hholds u).1 ((hs.mem_iff u).1 hm).2.2
    exact absurd hp (Bool.eq_false_iff.1 (hn p))
  · exact ((haborted _).1 ha).elim hs.active hself
  · refine (hl.granted rfl p).trans ?_
    rw [hheld, hheld]
  · refine ⟨fun hq => (hd.origin p page hq).1, fun hq => ?_⟩
    refine hd.kept p page hq (by simp [hp]) fun v hv he => hself ?_
    rw [hp] at he
    cases he
    exact hv
  · have := stats_foldl_rollBack ({ s with locks := l }.bump .deadlocks) us
    rw [hw] at this
    exact this

/-- The first request is granted, or it times out and the second one finds nobody else in the
way. -/
theorem NobodyWaits.lock_cases (h : s.NobodyWaits) (hr : r.txn ∉ s.locks.aborted) :
    (∃ l, s.locks.acquire r = (.granted, l) ∧ LockTable.Looked s.locks r .granted l ∧
      s.lock 2 r = some (.ok (), { s with locks := l })) ∨
    ∃ us l m, s.locks.acquire r = (.deadlock us, l) ∧ LockTable.Struck s.locks r us l ∧
      LockTable.Looked (us.foldl rollBack ({ s with locks := l }.bump .deadlocks)).locks r
        .granted m ∧
      s.lock 2 r = some (.ok (),
        { us.foldl rollBack ({ s with locks := l }.bump .deadlocks) with locks := m }) := by
  rcases h.locks.consistent.acquire_cases r with ⟨l, -, hl, -⟩ | ⟨l, he, hl, -⟩ | ⟨us, l, he, hs, hw⟩
  · exact absurd (hl.refused_iff.1 rfl) hr
  · exact Or.inl ⟨l, he, hl, lock_of_granted he 1⟩
  · have hstrike : Change r.txn (fun _ => False) s _ := .strike rfl hs hw
    have hquiet := hstrike.nobodyWaits h
    have hactive : r.txn ∉
        (us.foldl rollBack ({ s with locks := l }.bump .deadlocks)).locks.aborted := by
      rw [aborted_foldl_rollBack]
      exact fun ha => ((hs.mem_aborted _).1 ha).elim hs.active fun hm => ((hs.mem_iff _).1 hm).1 rfl
    obtain ⟨m, hm, hlook, -⟩ := hquiet.locks.acquire_alone hactive fun u hu => h.alone hs hu
    exact Or.inr ⟨us, l, m, he, hs, hlook, (lock_of_deadlock he 1).trans (lock_of_granted hm 0)⟩

/-- **A lock is taken with two requests at most, and whoever asks is spared.**  Between any deeds, a
transaction that is no victim gets every lock that it asks for.  If the first request is granted,
nothing else changes.  If it times out, then all others that hold locks become victims and lose
their locks and their changes, nobody else becomes a victim, the one who asks keeps its locks and
its changes, and one more deadlock is counted.  A call that needs the lock goes on from there. -/
theorem lock_spares_waiter (h₀ : s₀.Fresh) (h : After s₀ ds s) (hr : r.txn ∉ s.locks.aborted) :
    ∃ s', s.lock 2 r = some (.ok (), s') ∧
      ((s.locks.acquire r).1 = .granted ∧ s.lock 1 r = some (.ok (), s') ∧ Granted s r s' ∨
        (∃ us, (s.locks.acquire r).1 = .deadlock us) ∧ Spared s r s') ∧
      ∀ p : Pending, p.request = r →
        ∃ k, k ≤ 4 ∧ ∀ i, finish (i + k) (.asking p, s) = finish i (s'.resume p) := by
  have hc := h.nobodyWaits h₀.nobodyWaits
  have hgo : ∀ s', s.lock 2 r = some (.ok (), s') → ∀ p : Pending, p.request = r →
      ∃ k, k ≤ 4 ∧ ∀ i, finish (i + k) (.asking p, s) = finish i (s'.resume p) := by
    rintro s' hs' p rfl
    exact finish_asking hs'
  rcases hc.lock_cases hr with ⟨l, he, hl, h₂⟩ | ⟨us, l, m, he, hs, hlook, h₂⟩
  · exact ⟨_, h₂, Or.inl ⟨by rw [he], lock_of_granted he 0, granted_of_looked hl⟩, hgo _ h₂⟩
  · exact ⟨_, h₂, Or.inr ⟨⟨us, by rw [he]⟩, spared_of_struck hc hs hlook⟩, hgo _ h₂⟩

/-- Another transaction reads the page that holds a row which is not committed yet. -/
theorem lock_spares_waiter_contested :
    numbers.Fresh ∧ ∃ ds s s', After numbers ds s ∧ ⟨2⟩ ∉ s.locks.aborted ∧
      s.lock 2 ⟨⟨2⟩, TableFile.numbers.page 0, .shared⟩ = some (.ok (), s') ∧
      ⟨1⟩ ∈ s'.locks.aborted ∧ s'.cache.dirtyPages ⟨1⟩ = [] := by
  have hf : numbers.Fresh := ⟨rfl, rfl⟩
  have hd : entered.map (fun x => decide (⟨2⟩ ∉ x.2.locks.aborted ∧
      x.2.holds ⟨1⟩ (TableFile.numbers.page 0) = true ∧
      (x.2.locks.acquire ⟨⟨2⟩, TableFile.numbers.page 0, .shared⟩).1 ≠ .granted)) = some true := by
    decide +kernel
  obtain ⟨⟨reply, s⟩, hs, hd⟩ := Option.map_eq_some_iff.1 hd
  obtain ⟨ha, hheld, hn⟩ := of_decide_eq_true hd
  have h : After numbers [.call ⟨1⟩ _ reply] s := After.start.deed (.call hs)
  obtain ⟨s', hlock, hor, -⟩ :=
    lock_spares_waiter (r := ⟨⟨2⟩, TableFile.numbers.page 0, .shared⟩) hf h ha
  have hspared := (hor.resolve_left fun hg => hn hg.1).2
  obtain ⟨hmark, -, hclean⟩ := hspared.victims ⟨1⟩ (by decide) ⟨_, hheld⟩
  exact ⟨hf, _, s, s', h, ha, hlock, hmark, hclean⟩

end Store
end TableStore

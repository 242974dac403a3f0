import TableStore.Proofs.Pool.Alone
import TableStore.Proofs.Serial.Record

/-!
# Calls where nobody else runs

Where only one transaction has locks, its requests are granted, and the pool has room for its copies.
So what a call comes to on the ledger, it comes to in the store.

## What is here

* `Store.Alone` — only one transaction has locks, and nobody waits.
* `Store.Heading`, `Store.Answered` — a call that has come as far as a page, and one that has been
  answered.
* `Store.Heading.getsOn` — the file can have the pages before the one at which the call ends.
* `Store.Heading.ask` — a look at a page; `Store.Heading.finish` — all of them.
* `Store.Works.finish` — what a call comes to on the ledger, it comes to in the store.
-/

set_option autoImplicit false
namespace TableStore
namespace Store

variable {s₀ s m : Store} {t : TxnId} {call : Call} {p : PageId} {o : Outcome} {L L' : Ledger}

/-- Only `t` has locks, and nobody waits. -/
structure Alone (t : TxnId) (s : Store) : Prop where
  nobodyWaits : s.NobodyWaits
  others : ∀ u, u ≠ t → s.locks.holdings.get? u = none

/-- Only `t` has changed pages. -/
theorem Alone.dirtier_eq (h : s.Alone t) (hg : s.ChangesLocked) {q : PageId} {page : Page}
    {u : TxnId} (hp : s.cache.pages.get? q = some page) (hd : page.dirtier = some u) : u = t := by
  by_contra hu
  have hx := hg.owned u q page hp hd
  rw [LockTable.heldMode?, h.others u hu] at hx
  cases hx

/-! ## Calls -/

/-- A call of `t` that was begun in `m` heads for a page that it reaches on the ledger `L`. -/
structure Heading (s₀ m : Store) (t : TxnId) (L : Ledger) (call : Call) (q : Pending)
    (s : Store) : Prop where
  victimFree : ((Session.idle m).carry t call (.asking q, s)).VictimFree s₀
  reached : ∃ grows keeps, Reached t grows keeps m (.asking q, s)
  others : ∀ u, u ≠ t → s.locks.holdings.get? u = none
  ledger_eq : s.ledger = L
  reaches : s₀.Reaches t L call q.request.page

theorem Heading.nobodyWaits {q : Pending} (h : s₀.Heading m t L call q s) (hm : m.NobodyWaits) :
    s.NobodyWaits := by
  obtain ⟨grows, keeps, hreached⟩ := h.reached
  exact hreached.1.nobodyWaits hm

/-- A call of `t` has been answered, and the answer tells what it has come to. -/
structure Answered (s₀ : Store) (t : TxnId) (o : Outcome) (L' : Ledger) (reply : Reply)
    (s : Store) : Prop where
  tells : reply.Tells o
  ledger_eq : s.ledger = L'
  victimFree : (Session.idle s).VictimFree s₀
  alone : s.Alone t

/-- An insert is not stuck at a page before the one at which it ends. -/
theorem Heading.getsOn {q : Pending} (h : s₀.Heading m t L call q s) (hp : s₀.Reaches t L call p)
    (hlt : q.request.page.number < p.number) : q.GetsOn s := fun search hgoal => by
  obtain ⟨grows, keeps, -, -, -, hcount⟩ := h.reached
  obtain ⟨hheads, -⟩ := h.victimFree.heads t _ Session.running_carry_self
  cases hheads with
  | fetch => cases hgoal
  | remove => cases hgoal
  | insert hf _ _ hn _ =>
    cases hgoal
    have hcan := (hp.canHave (h.victimFree.faults.catalog_eq ▸ hf)).mono hlt
    have hcan' := (h.victimFree.faults.canHave_iff search.file _).2 hcan
    exact (hcount search rfl).getsOn (hn ▸ hcan')

/-- The lock on a page is granted where nobody else has one. -/
theorem Heading.granted {q : Pending} (h : s₀.Heading m t L call q s) (hm : m.NobodyWaits) :
    ∃ s' : Store, s'.cache = s.cache ∧ s'.ledger = L ∧
      Resumed (¬ q.GetsOn s) s₀ s' t call q.request.page (s.ask q) := by
  obtain ⟨grows, keeps, hreached⟩ := h.reached
  have hlocks := (hreached.1.nobodyWaits hm).locks
  have hrun : ((Session.idle m).carry t call (.asking q, s)).running t = some ⟨call, q, false⟩ :=
    Session.running_carry_self
  have hlook := LockTable.looked_ask hlocks.consistent q.request
  have hgranted : (s.locks.ask q.request).1 = .granted :=
    hlocks.ask_alone (hreached.2.1.symm ▸ h.victimFree.active t) (hreached.2.1.symm ▸ h.others)
  rw [hgranted] at hlook
  have hask : s.ask q = { s with locks := (s.locks.ask q.request).2 }.resume q := by
    rw [Store.ask]
    exact congrArg (answer _ q) hgranted
  refine ⟨{ s with locks := (s.locks.ask q.request).2 }, rfl,
    (ledger_relock hlook.aborted_eq).trans h.ledger_eq, ?_⟩
  rw [hask]
  exact (h.victimFree.granted hrun hlook).mono fun _ hstuck hgets =>
    hstuck fun search hgoal => (hgets search hgoal).congr rfl rfl

/-- What is kept up where the call comes to an end with the page. -/
theorem Heading.carried {q : Pending} (h : s₀.Heading m t L call q s) (hm : m.NobodyWaits)
    (he : (s.ask q).1.ends = true) :
    ((Session.idle s).carry t call (s.ask q)).VictimFree s₀ ∧
    (∃ grows keeps, Reached t grows keeps m (s.ask q)) ∧
    ∀ u, u ≠ t → (s.ask q).2.locks.holdings.get? u = none := by
  obtain ⟨grows, keeps, hreached⟩ := h.reached
  have hrun : ((Session.idle m).carry t call (.asking q, s)).running t = some ⟨call, q, false⟩ :=
    Session.running_carry_self
  have hc : Session.CarriesOn t _ call _ (s.ask q) := .ask hrun he
  have hfree := h.victimFree.carry hc
  rw [Session.carry_carry] at hfree
  exact ⟨hfree, ⟨grows, keeps, reached_ask hm hreached⟩,
    fun u hu => ((hc.dealt h.victimFree.victimsCleared).deals.others u hu).trans (h.others u hu)⟩

/-- **A look at a page where nobody else runs**: the call is answered as it is on the ledger, or it
goes on to the next page. -/
theorem Heading.ask {q : Pending} (h : s₀.Heading m t L call q s) (hm : m.NobodyWaits)
    (hp : s₀.Reaches t L call p) (he : s₀.Ends t L p call o L') :
    (∃ reply s', s.ask q = (.done reply, s') ∧ s₀.Answered t o L' reply s') ∨
    ∃ q' s', s.ask q = (.asking q', s') ∧ s₀.Heading m t L call q' s' ∧
      q.request.page.number < p.number ∧
      q'.request.page.number = q.request.page.number + 1 := by
  have halone : s.Alone t := ⟨h.nobodyWaits hm, h.others⟩
  have hlast := he.last hp h.reaches
  obtain ⟨s₁, hcache, hledger, hres⟩ := h.granted hm
  have hcarried := h.carried hm
  have hgets := h.getsOn hp
  -- an insert that goes on from the page has not come to its end
  have hbefore : ∀ {table row}, call = .insert table row → s₀.Passes t L q.request.page →
      q.request.page.number < p.number := fun hcall hpass => by
    subst hcall
    rcases hlast with hq | ⟨-, hlt⟩
    · exact absurd (hq ▸ hpass) he.not_passes
    · exact hlt
  generalize s.ask q = run at *
  cases hres with
  | crowded hq hd hu =>
    rw [hcache] at hq
    exact absurd (halone.dirtier_eq h.victimFree.changesLocked hq hd) hu
  | endless hcall hpass hstuck => exact absurd (hgets (hbefore hcall (hledger ▸ hpass))) hstuck
  | @done reply o' s' ht heq hlock =>
    obtain ⟨hfree, ⟨grows, keeps, hreached⟩, hothers⟩ := hcarried rfl
    rw [hledger] at heq
    -- a call that ends at both pages would have gone on from the first of them
    have hq : q.request.page = p := by
      rcases hlast with hq | ⟨-, hlt⟩
      · exact hq
      · rcases heq.last h.reaches hp with hq | ⟨-, hgt⟩
        · exact hq.symm
        · omega
    rw [hq] at heq
    obtain ⟨rfl, hl⟩ := he.unique heq
    obtain ⟨m', hchanges, hended⟩ := hreached
    exact Or.inl ⟨reply, s', rfl, ht, hl.symm, Session.carry_done s s' t call reply ▸ hfree,
      hended.nobodyWaits (hchanges.nobodyWaits hm), hothers⟩
  | @passed table row file n q' s' hcall hfile hpage hpass hq' hnext hn hl =>
    obtain ⟨hfree, ⟨grows, keeps, hreached⟩, hothers⟩ := hcarried rfl
    rw [hledger] at hpass hl
    have hlt := hbefore hcall hpass
    subst hcall
    have hreaches := h.reaches
    rw [hpage] at hreaches hpass
    refine Or.inr ⟨q', s', rfl, ⟨hfree, ⟨grows, keeps, hreached⟩, hothers, hl,
      hnext ▸ hreaches.next hfile hn hpass⟩, hlt, ?_⟩
    rw [hnext, hpage]
    rfl

/-- A call that heads for a page where nobody else runs is answered as it is on the ledger.  The
induction is on the pages that are left. -/
theorem Heading.finish {q : Pending} (h : s₀.Heading m t L call q s) (hm : m.NobodyWaits)
    (hp : s₀.Reaches t L call p) (he : s₀.Ends t L p call o L') (k : Nat)
    (hk : p.number ≤ q.request.page.number + k) :
    ∃ n reply s', Store.finish n (.asking q, s) = some (reply, s') ∧
      s₀.Answered t o L' reply s' := by
  induction k generalizing q s with
  | zero =>
    rcases h.ask hm hp he with ⟨reply, s', hs, ha⟩ | ⟨q', s', -, -, hlt, -⟩
    · exact ⟨1, reply, s', congrArg (Store.finish 0) hs, ha⟩
    · omega
  | succ k ih =>
    rcases h.ask hm hp he with ⟨reply, s', hs, ha⟩ | ⟨q', s', hs, h', -, hq'⟩
    · exact ⟨1, reply, s', congrArg (Store.finish 0) hs, ha⟩
    · obtain ⟨n, reply, s'', hf, ha⟩ := ih h' (by omega)
      exact ⟨n + 1, reply, s'', (congrArg (Store.finish n) hs).trans hf, ha⟩

/-- **What a call comes to on the ledger, it comes to in the store** where nobody else runs. -/
theorem Works.finish (h : s₀.Works t m.ledger call o L') (hc : call.Plain)
    (hreg : (Session.idle m).VictimFree s₀) (ha : m.Alone t) :
    ∃ n reply s', Store.finish n (m.start t call) = some (reply, s') ∧
      s₀.Answered t o L' reply s' := by
  rcases start_cases (s := m) hreg.matchesFiles.indexed hreg.faults (hreg.active t) hc with
    ⟨e, he, hstart⟩ | ⟨hn, ⟨q, s, hstart, hq, hreach, hl⟩ | ⟨hnowhere, -⟩⟩
  · cases h with
    | refused he' =>
      cases he.symm.trans he'
      exact ⟨0, _, m, by rw [hstart]; rfl, .failed e, rfl, hreg, ha⟩
    | done hn' =>
      rw [he] at hn'
      cases hn'
  · cases h with
    | refused he =>
      rw [hn] at he
      cases he
    | done _ hp he =>
      have hcarries : Session.CarriesOn t (Session.idle m) call none (m.start t call) :=
        .begin rfl hc (congrArg (Progress.ends ∘ Prod.fst) hstart)
      have hfree := hreg.carry hcarries
      have hreached := reached_start m t call
      have hothers : ∀ u, u ≠ t → (m.start t call).2.locks.holdings.get? u = none := fun u hu =>
        ((hcarries.dealt hreg.victimsCleared).deals.others u hu).trans (ha.others u hu)
      rw [hstart] at hfree hreached hothers ⊢
      have hheading : s₀.Heading m t m.ledger call q s :=
        ⟨hfree, ⟨_, _, hreached⟩, hothers, hl, hreach _⟩
      exact hheading.finish ha.nobodyWaits hp he _ (Nat.le_add_left _ _)
  · cases h with
    | refused he =>
      rw [hn] at he
      cases he
    | done _ hp => exact absurd hp (hnowhere _ _)

end Store
end TableStore

import Mathlib.Data.List.Nodup
import Mathlib.Logic.Function.Basic
import TableStore.Proofs.Lock.Protocol

/-!
# No signal is missing

A blocked request sleeps until somebody signals.  Not every critical section does: a grant never
needs to, and the end of a wait does so only when it was the last writer that left the page.  So it
has to be shown that a request which could go on, or has to leave, is always woken.

## What is here

* `LockState.Section` — one critical section, with the transaction that acts in it.
* `LockState.Ready` — a request need not sleep: it may be granted, or its transaction is a victim.
* `LockState.Unmoved` — what a section leaves alone if it does not signal.  It makes nobody else's
  request ready.
* `LockState.Watch` — the lock table with the number of signals that each transaction had seen when
  it looked last, and `LockState.Watch.Reachable`, the runs with at most one request in progress for
  each transaction.
* `LockState.no_lost_wakeup` — no section makes another transaction's request ready in silence, and
  so nobody sleeps on who could go on.
-/

set_option autoImplicit false
namespace TableStore

/-! ## Which operations signal

A signal wakes everybody who sleeps, whatever page it was sent for.  So it is enough that there are
signals where somebody has to look again. -/

namespace LockTable

variable {l m : LockTable} {r : Request} {t : TxnId} {p : PageId}

@[simp] theorem signals_enter (l : LockTable) (p : PageId) : (l.enter p).signals = l.signals := by
  rw [enter]
  split <;> rfl

@[simp] theorem signals_grant (l : LockTable) (t : TxnId) (p : PageId) (m : Mode) :
    (l.grant t p m).signals = l.signals := by
  rw [grant]
  split
  · rfl
  · cases m with
    | shared =>
      dsimp only
      split <;> rfl
    | exclusive => rfl

@[simp] theorem signals_startWaiting (l : LockTable) (r : Request) :
    (l.startWaiting r).signals = l.signals := by
  rw [startWaiting]
  cases r.mode with
  | shared => rfl
  | exclusive => rfl

/-- The end of a wait signals if it was for an exclusive lock and nobody else waits for one. -/
theorem signals_stopWaiting (l : LockTable) (r : Request) :
    (l.stopWaiting r).signals =
      if r.mode = .exclusive ∧ (l.stopWaiting r).waiting? r.page = some 0 then l.signals + 1
      else l.signals := by
  rw [waiting?_stopWaiting, Request.weight, stopWaiting]
  cases hm : r.mode with
  | shared => simp
  | exclusive =>
    cases hk : l.pages.get? r.page with
    | none => simp [waiting?, hk]
    | some k =>
      dsimp only
      split
      · rename_i hz
        simp [waiting?, hk, hz, signal]
      · rename_i hz
        simp [waiting?, hk, hz]

theorem signals_le_stopWaiting (l : LockTable) (r : Request) :
    l.signals ≤ (l.stopWaiting r).signals := by
  rw [signals_stopWaiting]
  split <;> omega

theorem signals_ask (l : LockTable) (r : Request) : (l.ask r).2.signals = l.signals := by
  rw [ask]
  split
  · rfl
  · dsimp only
    split
    · rw [signals_grant, signals_enter]
    · rw [signals_startWaiting, signals_enter]

theorem signals_release (h : l.release t p = .ok m) : m.signals = l.signals + 1 := by
  rw [release] at h
  split at h
  · cases h
    rw [signal, dropHolding, dropHolder]
    dsimp only
    split
    · rfl
    · split <;> rfl
  · cases h

theorem signals_foldl_dropHolder (l : LockTable) (t : TxnId) (ps : List PageId) :
    (ps.foldl (fun l p => l.dropHolder t p) l).signals = l.signals := by
  induction ps generalizing l with
  | nil => rfl
  | cons p ps ih => rw [List.foldl_cons, ih]; rfl

/-- Who has an entry and gives everything back signals; who has none changes nothing. -/
theorem releaseAll_cases (l : LockTable) (t : TxnId) :
    l.releaseAll t = l ∨ (l.releaseAll t).signals = l.signals + 1 := by
  rw [releaseAll]
  cases l.holdings.get? t with
  | none => exact Or.inl rfl
  | some held =>
    refine Or.inr ?_
    dsimp only [signal]
    rw [signals_foldl_dropHolder]

/-- A look that ends a wait without a deadlock signals as the end of the wait does. -/
theorem signals_wake (h : (l.wake r).1 ≠ .waiting) :
    (l.wake r).2.signals = (l.stopWaiting r).signals := by
  by_cases hr : r.txn ∈ l.aborted
  · rw [wake_of_aborted hr]
  · cases ha : l.admits r with
    | true => rw [wake_of_admits hr ha, signals_grant]
    | false => exact absurd (congrArg Prod.fst (wake_of_not_admits hr ha)) h

theorem signals_le_wake (l : LockTable) (r : Request) : l.signals ≤ (l.wake r).2.signals := by
  by_cases hw : (l.wake r).1 = .waiting
  · exact Nat.le_of_eq (congrArg signals (wake_of_waiting hw)).symm
  · rw [signals_wake hw]
    exact signals_le_stopWaiting l r

/-- The time that is up makes a difference only to a request that would sleep on. -/
theorem expire_eq_wake (h : (l.wake r).1 ≠ .waiting) : (l.expire r).2 = (l.wake r).2 := by
  by_cases hr : r.txn ∈ l.aborted
  · rw [expire_of_aborted hr, wake_of_aborted hr]
  · cases ha : l.admits r with
    | true => rw [expire_of_admits hr ha, wake_of_admits hr ha]
    | false => exact absurd (congrArg Prod.fst (wake_of_not_admits hr ha)) h

/-- A request that would sleep on declares a deadlock, which is always signalled. -/
theorem signals_lt_expire (h : (l.wake r).1 = .waiting) :
    l.signals < (l.expire r).2.signals := by
  by_cases hr : r.txn ∈ l.aborted
  · rw [wake_of_aborted hr] at h
    cases h
  · cases ha : l.admits r with
    | true =>
      rw [wake_of_admits hr ha] at h
      cases h
    | false =>
      rw [expire_of_not_admits hr ha]
      exact Nat.lt_succ_of_le (signals_le_stopWaiting l r)

/-- One critical section in which no request is looked at. -/
inductive Frees : LockTable → LockTable → Prop where
  | release {l m : LockTable} {t : TxnId} {p : PageId} (h : l.release t p = .ok m) : Frees l m
  | releaseAll (l : LockTable) (t : TxnId) : Frees l (l.releaseAll t)
  | unmark (l : LockTable) (t : TxnId) : Frees l (l.unmark t)

/-- Such a section signals, or takes at most a mark away. -/
theorem Frees.cases (h : Frees l m) :
    m.signals = l.signals + 1 ∨ m = l ∨ ∃ t, m = l.unmark t := by
  cases h with
  | release hr => exact Or.inl (signals_release hr)
  | releaseAll t => exact (releaseAll_cases l t).elim (fun h => Or.inr (Or.inl h)) Or.inl
  | unmark t => exact Or.inr (Or.inr ⟨t, rfl⟩)

theorem Frees.signals_le (h : Frees l m) : l.signals ≤ m.signals := by
  rcases h.cases with hs | rfl | ⟨t, rfl⟩
  · omega
  · exact Nat.le_refl _
  · exact Nat.le_refl _

end LockTable

namespace LockState

variable {s s' : LockState} {r q : Request} {t : TxnId}

/-! ## Sections -/

/-- One critical section, and the transaction that acts in it.  Whoever acts may free the locks of
others, as the one who has declared a deadlock does with its victims. -/
inductive Section (s : LockState) : TxnId → LockState → Prop where
  | ask (r : Request) : Section s r.txn (s.ask r)
  | wake {r : Request} (h : r ∈ s.blocked) : Section s r.txn (s.wake r)
  | expire {r : Request} (h : r ∈ s.blocked) : Section s r.txn (s.expire r)
  | free {table : LockTable} (t : TxnId) (h : s.table.Frees table) : Section s t { s with table }

theorem Section.step {t : TxnId} (h : Section s t s') : Step s s' := by
  cases h with
  | ask r => exact .ask s r
  | wake hr => exact .wake hr
  | expire hr => exact .expire hr
  | free _ hf =>
    cases hf with
    | release hr => exact .release hr
    | releaseAll u => exact .releaseAll s u
    | unmark u => exact .unmark s u

/-- Nobody's request ends but by a look of his own. -/
theorem Section.mem_blocked (h : Section s t s') (hr : r ∈ s.blocked) (ht : r.txn ≠ t) :
    r ∈ s'.blocked := by
  have herase : ∀ q : Request, r.txn ≠ q.txn → r ∈ s.blocked.erase q := fun q hq =>
    (List.mem_erase_of_ne fun he => hq (congrArg Request.txn he)).2 hr
  cases h with
  | ask q =>
    rw [LockState.ask]
    dsimp only
    split
    · exact List.mem_append_left _ hr
    · exact hr
  | @wake q hq =>
    rw [LockState.wake]
    dsimp only
    split
    · exact hr
    · exact herase q ht
  | @expire q hq => exact herase q ht
  | free _ hf => exact hr

/-- The end of a transaction is two sections. -/
theorem complete_sections (s : LockState) (t : TxnId) :
    ∃ k, Section s t k ∧ Section k t { s with table := s.table.complete t } :=
  ⟨{ s with table := s.table.releaseAll t }, .free t (.releaseAll s.table t),
    .free t (.unmark (s.table.releaseAll t) t)⟩

/-- A request need not sleep: it may be granted, or it has to leave. -/
def Ready (s : LockState) (r : Request) : Prop := s.Grantable r ∨ r.txn ∈ s.table.aborted

/-- Just then its next look does not leave it asleep. -/
theorem Counted.ready_iff (h : Counted s) (hc : s.table.Consistent) (hr : r ∈ s.blocked) :
    s.Ready r ↔ (s.table.wake r).1 ≠ .waiting := by
  rw [Ready, ← h.admits_iff hc hr]
  by_cases hv : r.txn ∈ s.table.aborted
  · simp [LockTable.wake_of_aborted hv, hv]
  · cases ha : s.table.admits r with
    | true => simp [LockTable.wake_of_admits hv ha]
    | false => simp [LockTable.wake_of_not_admits hv ha, hv]

/-! ## What keeps a request asleep

Something stands in the way of a request that cannot be granted: a lock of somebody else, or a
writer that waits.  As long as all of it stays, there is nothing to look at. -/

/-- What stands in the way of a request is not less than before: nobody else has given a lock back,
the requester has not got the page, and there still is a writer on a page if one was waiting.  No
transaction has become a victim. -/
structure Unmoved (s s' : LockState) (r : Request) : Prop where
  others : ∀ u, u ≠ r.txn → ∀ m, s.table.heldMode? u r.page = some m →
    ∃ n, s'.table.heldMode? u r.page = some n ∧ (m = .exclusive → n = .exclusive)
  own : s.table.heldMode? r.txn r.page = none → s'.table.heldMode? r.txn r.page = none
  writers : r.mode = .shared → s'.exclusiveOn r.page = 0 → s.exclusiveOn r.page = 0
  marks : r.txn ∈ s'.table.aborted → r.txn ∈ s.table.aborted

/-- Then it may be granted only if it could be before. -/
theorem Unmoved.grantable (h : Unmoved s s' r) (hg : s'.Grantable r) : s.Grantable r := by
  rw [Grantable, LockTable.Allows] at hg ⊢
  cases hm : r.mode with
  | exclusive =>
    rw [hm] at hg
    intro u hu
    cases hheld : s.table.heldMode? u r.page with
    | none => rfl
    | some m =>
      obtain ⟨n, hn, -⟩ := h.others u hu m hheld
      exact absurd (hg u hu) (hn ▸ Option.some_ne_none n)
  | shared =>
    rw [hm] at hg
    refine ⟨fun u hu hx => ?_, fun hn => h.writers hm (hg.2 (h.own hn))⟩
    obtain ⟨n, hn, hx'⟩ := h.others u hu _ hx
    exact hg.1 u hu (hx' rfl ▸ hn)

theorem Unmoved.ready (h : Unmoved s s' r) (hg : s'.Ready r) : s.Ready r :=
  hg.imp h.grantable h.marks

/-- A look at the request of somebody else takes no lock from anybody. -/
theorem Unmoved.of_looked {a : Answer} {table : LockTable} {blocked : List Request}
    (hl : LockTable.Looked s.table q a table) (hq : r.txn ≠ q.txn)
    (hw : r.mode = .shared → exclusiveOn { table, blocked } r.page = 0 →
      s.exclusiveOn r.page = 0) :
    Unmoved s { table, blocked } r where
  others u hu m hm := by
    by_cases hut : u = q.txn
    · subst hut
      by_cases ha : a = .granted
      · rw [hl.granted ha]
        split
        · refine ⟨_, rfl, fun hx => ?_⟩
          rw [← ‹r.page = q.page›, hm, hx, if_pos rfl]
        · exact ⟨m, hm, id⟩
      · exact ⟨m, by rw [LockTable.heldMode?, hl.ungranted ha]; exact hm, id⟩
    · exact ⟨m, (hl.heldMode?_of_ne hut r.page).trans hm, id⟩
  own hn := (hl.heldMode?_of_ne hq r.page).trans hn
  writers := hw
  marks hm := hl.aborted_eq ▸ hm

/-! ## Sections that do not signal -/

/-- A request that is made can only add to the writers that wait. -/
theorem unmoved_ask (hc : s.table.Consistent) (hq : r.txn ≠ q.txn) :
    Unmoved s (s.ask q) r := by
  refine .of_looked (LockTable.looked_ask hc q) hq fun _ hz => ?_
  by_cases hw : (s.table.ask q).1 = .waiting
  · rw [if_pos hw] at hz
    exact Nat.eq_zero_of_add_eq_zero_right ((exclusiveOn_append s q r.page).symm.trans hz)
  · rw [if_neg hw] at hz
    exact hz

/-- When a request leaves in silence, there was no writer to wait for, or there still is one. -/
theorem Counted.writers_of_leave (h : Counted s) (hr : r ∈ s.blocked) (hq : q ∈ s.blocked)
    (hs : (s.table.stopWaiting q).signals = s.table.signals) {table : LockTable}
    (hz : exclusiveOn { table, blocked := s.blocked.erase q } r.page = 0) :
    s.exclusiveOn r.page = 0 := by
  have he : s.exclusiveOn r.page - q.weight r.page = 0 :=
    (exclusiveOn_erase s hq r.page).symm.trans hz
  by_cases hw : q.page = r.page ∧ q.mode = .exclusive
  · -- the page of a blocked request counts what is blocked on it, and now there is nothing left
    obtain ⟨n, hn⟩ := Option.ne_none_iff_exists'.1 (h.entered r hr)
    have hzero : (s.table.stopWaiting q).waiting? q.page = some 0 := by
      rw [LockTable.waiting?_stopWaiting, hw.1, hn, h.count _ _ hn, Option.map_some, he]
    rw [LockTable.signals_stopWaiting, if_pos ⟨hw.2, hzero⟩] at hs
    omega
  · rwa [Request.weight, if_neg hw] at he

theorem Counted.unmoved_wake (h : Counted s) (hc : s.table.Consistent) (hr : r ∈ s.blocked)
    (hq : q ∈ s.blocked) (hne : r.txn ≠ q.txn)
    (hs : (s.wake q).table.signals = s.table.signals) : Unmoved s (s.wake q) r := by
  refine .of_looked (LockTable.looked_wake hc q) hne fun _ hz => ?_
  by_cases hw : (s.table.wake q).1 = .waiting
  · rw [if_pos hw] at hz
    exact hz
  · rw [if_neg hw] at hz
    exact h.writers_of_leave hr hq ((LockTable.signals_wake hw).symm.trans hs) hz

theorem Counted.unmoved_expire (h : Counted s) (hc : s.table.Consistent) (hr : r ∈ s.blocked)
    (hq : q ∈ s.blocked) (hne : r.txn ≠ q.txn)
    (hs : (s.expire q).table.signals = s.table.signals) : Unmoved s (s.expire q) r := by
  by_cases hw : (s.table.wake q).1 = .waiting
  · exact absurd hs (Nat.ne_of_gt (LockTable.signals_lt_expire hw))
  · -- otherwise it is a look like any other
    have he : s.expire q = s.wake q := by
      rw [LockState.expire, LockState.wake, if_neg hw, LockTable.expire_eq_wake hw]
    rw [he] at hs ⊢
    exact h.unmoved_wake hc hr hq hne hs

theorem unmoved_free {table : LockTable} (hf : s.table.Frees table)
    (hs : table.signals = s.table.signals) : Unmoved s { s with table } r := by
  rcases hf.cases with hn | rfl | ⟨t, rfl⟩
  · omega
  · exact ⟨fun u _ m hm => ⟨m, hm, id⟩, id, fun _ => id, id⟩
  · exact ⟨fun u _ m hm => ⟨m, hm, id⟩, id, fun _ => id, fun hm => (Distinct.mem_erase.1 hm).2⟩

/-- A section without a signal leaves the blocked requests of others as they are. -/
theorem Section.unmoved (h : Section s t s') (hc : s.table.Consistent) (hw : Counted s)
    (hr : r ∈ s.blocked) (ht : r.txn ≠ t) (hs : s'.table.signals = s.table.signals) :
    Unmoved s s' r := by
  cases h with
  | ask q => exact unmoved_ask hc ht
  | wake hq => exact hw.unmoved_wake hc hr hq ht hs
  | expire hq => exact hw.unmoved_expire hc hr hq ht hs
  | free _ hf => exact unmoved_free hf hs

theorem Section.signals_le (h : Section s t s') : s.table.signals ≤ s'.table.signals := by
  cases h with
  | ask q => exact Nat.le_of_eq (LockTable.signals_ask s.table q).symm
  | @wake q hq => exact LockTable.signals_le_wake s.table q
  | @expire q hq =>
    by_cases hw : (s.table.wake q).1 = .waiting
    · exact Nat.le_of_lt (LockTable.signals_lt_expire hw)
    · rw [LockState.expire, LockTable.expire_eq_wake hw]
      exact LockTable.signals_le_wake s.table q
  | free _ hf => exact hf.signals_le

/-- **A section that makes somebody else's request ready signals.** -/
theorem Section.signals_lt (h : Section s t s') (hc : s.table.Consistent) (hw : Counted s)
    (hr : r ∈ s.blocked) (ht : r.txn ≠ t) (hn : ¬ s.Ready r) (hg : s'.Ready r) :
    s.table.signals < s'.table.signals := by
  refine Nat.lt_of_le_of_ne h.signals_le fun he => hn ?_
  exact (h.unmoved hc hw hr ht he.symm).ready hg

/-! ## Asleep

Whoever falls asleep does so in the step in which it has looked, so that no signal can come in
between.  It is enough to know which signals there had been by then. -/

/-- A request that has just been left waiting could not be granted. -/
theorem Counted.not_ready_of_ask (h : Counted s) (hc : s.table.Consistent)
    (hw : (s.table.ask r).1 = .waiting) : ¬ (s.ask r).Ready r := by
  have hv : r.txn ∉ s.table.aborted := fun hv => by
    rw [LockTable.ask_of_aborted hv] at hw
    cases hw
  have hg : ¬ s.Grantable r := fun hg => by
    rw [(h.ask_eq_granted_iff hc).2 ⟨hv, hg⟩] at hw
    cases hw
  have hl := LockTable.looked_ask hc r
  have hheld : ∀ u, (s.ask r).table.heldMode? u r.page = s.table.heldMode? u r.page := fun u => by
    rw [LockTable.heldMode?, LockTable.heldMode?, LockState.ask, hl.ungranted (by simp [hw])]
  have hu : Unmoved s (s.ask r) r := by
    refine ⟨fun u _ m hm => ⟨m, (hheld u).trans hm, id⟩, fun hn => (hheld _).trans hn,
      fun _ hz => ?_, fun hm => hl.aborted_eq ▸ hm⟩
    rw [LockState.ask, if_pos hw] at hz
    exact Nat.eq_zero_of_add_eq_zero_right ((exclusiveOn_append s r r.page).symm.trans hz)
  exact fun hready => (hu.ready hready).elim hg hv

/-- A lock table in use, and what everybody knows of it. -/
structure Watch where
  state : LockState := {}
  /-- How many signals there had been when a transaction looked last. -/
  seen : TxnId → Nat := fun _ => 0

namespace Watch

variable {w w' : Watch}

/-- A transaction that looks has seen all signals. -/
def looked (w : Watch) (t : TxnId) (s : LockState) : Watch :=
  ⟨s, Function.update w.seen t s.table.signals⟩

@[simp] theorem seen_looked_self (w : Watch) (t : TxnId) (s : LockState) :
    (w.looked t s).seen t = s.table.signals := Function.update_self t _ _

theorem seen_looked_of_ne (w : Watch) {t u : TxnId} (hu : u ≠ t) (s : LockState) :
    (w.looked t s).seen u = w.seen u := Function.update_of_ne hu _ _

/-- A transaction is asleep in a request if nobody has signalled since it looked last. -/
def Asleep (w : Watch) (r : Request) : Prop :=
  r ∈ w.state.blocked ∧ w.seen r.txn = w.state.table.signals

/-- One critical section.  A transaction makes a request only when none of its own is blocked. -/
inductive Step (w : Watch) : Watch → Prop where
  | ask {r : Request} (h : ∀ q ∈ w.state.blocked, q.txn ≠ r.txn) :
      Step w (w.looked r.txn (w.state.ask r))
  | wake {r : Request} (h : r ∈ w.state.blocked) : Step w (w.looked r.txn (w.state.wake r))
  | expire {r : Request} (h : r ∈ w.state.blocked) : Step w (w.looked r.txn (w.state.expire r))
  | free {table : LockTable} (h : w.state.table.Frees table) :
      Step w { w with state := { w.state with table } }

/-- What comes about from an empty table. -/
inductive Reachable : Watch → Prop where
  | start : Reachable {}
  | step {w w' : Watch} (h : Reachable w) (hs : Step w w') : Reachable w'

/-- No transaction has two requests blocked, nobody knows of signals that were not sent, and whoever
is asleep could not go on. -/
structure Still (w : Watch) : Prop where
  single : (w.state.blocked.map Request.txn).Nodup
  seen_le : ∀ t, w.seen t ≤ w.state.table.signals
  asleep : ∀ r, w.Asleep r → ¬ w.state.Ready r

theorem Step.section {w w' : Watch} (hs : Step w w') : ∃ t, Section w.state t w'.state := by
  cases hs with
  | @ask r _ => exact ⟨_, .ask r⟩
  | wake hr => exact ⟨_, .wake hr⟩
  | expire hr => exact ⟨_, .expire hr⟩
  | free hf => exact ⟨⟨0⟩, .free _ hf⟩

theorem Reachable.reachable (h : Reachable w) : LockState.Reachable w.state := by
  induction h with
  | start => exact .start
  | step _ hs ih =>
    obtain ⟨t, ht⟩ := hs.section
    exact .step ih ht.step

theorem Still.start : Still {} where
  single := List.nodup_nil
  seen_le _ := Nat.le_refl _
  asleep _ hr := absurd hr.1 List.not_mem_nil

namespace Still

theorem eq_of_txn (h : Still w) (hr : r ∈ w.state.blocked) (hq : q ∈ w.state.blocked)
    (ht : q.txn = r.txn) : q = r :=
  List.inj_on_of_nodup_map h.single hq hr ht

/-- The request of a transaction that leaves was its only one. -/
theorem not_mem_erase (h : Still w) (hr : r ∈ w.state.blocked) (hq : q ∈ w.state.blocked.erase r) :
    q.txn ≠ r.txn := by
  have hp := ((List.perm_cons_erase hr).map Request.txn).nodup_iff.1 h.single
  rw [List.map_cons, List.nodup_cons] at hp
  exact fun ht => hp.1 (ht ▸ List.mem_map_of_mem hq)

/-- Whoever has slept through a section sleeps on for a reason. -/
theorem sleeps_on (h : Still w) (hr : r ∈ w.state.blocked) {s : LockState}
    (hle : w.state.table.signals ≤ s.table.signals)
    (hu : s.table.signals = w.state.table.signals → Unmoved w.state s r)
    (hs : w.seen r.txn = s.table.signals) : ¬ s.Ready r := by
  have hseen := h.seen_le r.txn
  have he : s.table.signals = w.state.table.signals := by omega
  exact fun hg => h.asleep r ⟨hr, hs.trans he⟩ ((hu he).ready hg)

/-- It is enough to look at the requests of the transaction that acts. -/
theorem looked (h : Still w) (hc : w.state.table.Consistent) (hw : Counted w.state)
    {s : LockState} (hs : Section w.state t s) (hn : (s.blocked.map Request.txn).Nodup)
    (hb : ∀ r ∈ s.blocked, r.txn ≠ t → r ∈ w.state.blocked)
    (hown : ∀ r ∈ s.blocked, r.txn = t → ¬ s.Ready r) : Still (w.looked t s) where
  single := hn
  seen_le u := by
    by_cases hu : u = t
    · subst hu
      exact Nat.le_of_eq (seen_looked_self w u s)
    · rw [seen_looked_of_ne w hu]
      exact Nat.le_trans (h.seen_le u) hs.signals_le
  asleep r hr := by
    obtain ⟨hr, hseen⟩ := hr
    by_cases ht : r.txn = t
    · exact hown r hr ht
    · have hold := hb r hr ht
      rw [seen_looked_of_ne w ht] at hseen
      exact h.sleeps_on hold hs.signals_le (hs.unmoved hc hw hold ht) hseen

theorem ask (h : Still w) (hc : w.state.table.Consistent) (hw : Counted w.state)
    (hr : ∀ q ∈ w.state.blocked, q.txn ≠ r.txn) : Still (w.looked r.txn (w.state.ask r)) := by
  have hs : Section w.state r.txn (w.state.ask r) := .ask r
  by_cases hwait : (w.state.table.ask r).1 = .waiting
  · have hb : (w.state.ask r).blocked = w.state.blocked ++ [r] := if_pos hwait
    refine h.looked hc hw hs ?_ (fun q hq ht => ?_) fun q hq ht => ?_
    · rw [hb, List.map_append, List.nodup_append]
      refine ⟨h.single, List.pairwise_singleton _ _, fun t ht u hu => ?_⟩
      obtain ⟨q, hq, rfl⟩ := List.mem_map.1 ht
      exact (List.mem_singleton.1 hu) ▸ hr q hq
    · rw [hb, List.mem_append, List.mem_singleton] at hq
      exact hq.resolve_right fun he => ht (congrArg _ he)
    · rw [hb, List.mem_append, List.mem_singleton] at hq
      rw [hq.resolve_left fun hq => hr q hq ht]
      exact hw.not_ready_of_ask hc hwait
  · have hb : (w.state.ask r).blocked = w.state.blocked := if_neg hwait
    refine h.looked hc hw hs (hb ▸ h.single) (fun q hq _ => hb ▸ hq) fun q hq ht => ?_
    exact absurd ht (hr q (hb ▸ hq))

/-- After the request of `t` has left, there is none of `t`. -/
theorem leave (h : Still w) (hc : w.state.table.Consistent) (hw : Counted w.state)
    (hr : r ∈ w.state.blocked) {s : LockState} (hs : Section w.state r.txn s)
    (hb : s.blocked = w.state.blocked.erase r) : Still (w.looked r.txn s) := by
  refine h.looked hc hw hs ?_ (fun q hq _ => ?_) fun q hq ht => ?_
  · rw [hb]
    exact h.single.sublist (List.erase_sublist.map _)
  · exact List.mem_of_mem_erase (hb ▸ hq)
  · exact absurd ht (h.not_mem_erase hr (hb ▸ hq))

theorem wake (h : Still w) (hc : w.state.table.Consistent) (hw : Counted w.state)
    (hr : r ∈ w.state.blocked) : Still (w.looked r.txn (w.state.wake r)) := by
  by_cases hwait : (w.state.table.wake r).1 = .waiting
  · have hs : w.state.wake r = w.state := by
      rw [LockState.wake, if_pos hwait, LockTable.wake_of_waiting hwait]
    have hsec : Section w.state r.txn (w.state.wake r) := .wake hr
    rw [hs] at hsec ⊢
    refine h.looked hc hw hsec h.single (fun q hq _ => hq) fun q hq ht => ?_
    rw [h.eq_of_txn hr hq ht, hw.ready_iff hc hr]
    exact fun hn => hn hwait
  · exact h.leave hc hw hr (.wake hr) (if_neg hwait)

end Still

theorem Step.still (hs : Step w w') (hc : w.state.table.Consistent) (hw : Counted w.state)
    (h : Still w) : Still w' := by
  cases hs with
  | ask hr => exact h.ask hc hw hr
  | wake hr => exact h.wake hc hw hr
  | expire hr => exact h.leave hc hw hr (.expire hr) rfl
  | free hf =>
    refine ⟨h.single, fun t => Nat.le_trans (h.seen_le t) hf.signals_le, fun r hr => ?_⟩
    exact h.sleeps_on hr.1 hf.signals_le (unmoved_free hf) hr.2

theorem Reachable.still (h : Reachable w) : Still w := by
  induction h with
  | start => exact .start
  | step h hs ih => exact hs.still h.reachable.consistent h.reachable.counted ih

end Watch

/-- **No wake-up is lost.**

1. In every reachable state, the next look at a blocked request ends its wait just if the request is
   ready: it may be granted, or its transaction is a victim.
2. If a critical section makes a blocked request of another transaction ready that was not, the
   section wakes all sleepers.
3. In every run in which no transaction makes a request while one of its own is blocked, a request
   that nobody has woken since it was looked at last is not ready: there is no moment at which it
   sleeps on although it could go on or has to leave. -/
theorem no_lost_wakeup :
    (∀ s, Reachable s → ∀ r ∈ s.blocked, (s.table.wake r).1 ≠ .waiting ↔ s.Ready r) ∧
    (∀ s, Reachable s → ∀ t s', Section s t s' → ∀ r ∈ s.blocked, r.txn ≠ t →
      ¬ s.Ready r → s'.Ready r → r ∈ s'.blocked ∧ s.table.signals < s'.table.signals) ∧
    ∀ w, Watch.Reachable w → ∀ r, w.Asleep r → ¬ w.state.Ready r := by
  refine ⟨fun s h r hr => (h.counted.ready_iff h.consistent hr).symm,
    fun s h t s' hs r hr ht hn hg => ⟨?_, hs.signals_lt h.consistent h.counted hr ht hn hg⟩,
    fun w h r hr => h.still.asleep r hr⟩
  exact hs.mem_blocked hr ht

/-- The two readers of `upgrading`, and the signals that they know of. -/
def Watch.upgrading : Watch :=
  let r : TxnId → Mode → Request := fun t m => ⟨t, ⟨⟨7⟩, 0⟩, m⟩
  let w := ({} : Watch).looked ⟨1⟩ (({} : LockState).ask (r ⟨1⟩ .shared))
  let w := w.looked ⟨2⟩ (w.state.ask (r ⟨2⟩ .shared))
  w.looked ⟨1⟩ (w.state.ask (r ⟨1⟩ .exclusive))

/-- The upgrade sleeps for as long as the other one reads, and is woken when it stops. -/
theorem no_lost_wakeup_upgrading :
    let r : Request := ⟨⟨1⟩, ⟨⟨7⟩, 0⟩, .exclusive⟩
    let s : LockState := { upgrading with table := upgrading.table.releaseAll ⟨2⟩ }
    Watch.upgrading.state = upgrading ∧ Watch.upgrading.Asleep r ∧ ¬ upgrading.Ready r ∧
      s.Ready r ∧ upgrading.table.signals < s.table.signals := by
  intro r s
  obtain ⟨hiff, hsection, hasleep⟩ := no_lost_wakeup
  have hw : Watch.Reachable Watch.upgrading :=
    .step (.step (.step .start (.ask (by decide))) (.ask (by decide))) (.ask (by decide))
  have hr : Watch.upgrading.Asleep r := ⟨by decide, by decide⟩
  have hn : ¬ upgrading.Ready r := hasleep _ hw r hr
  have hs : Section upgrading ⟨2⟩ s := .free _ (.releaseAll _ _)
  have hg : s.Ready r := (hiff s (.step hw.reachable hs.step) r (by decide)).1 (by decide)
  exact ⟨rfl, hr, hn, hg, (hsection _ hw.reachable _ _ hs r (by decide) (by decide) hn hg).2⟩

end LockState
end TableStore

import TableStore.Proofs.Lock.Run
import TableStore.Proofs.Lock.Waiting

/-!
# The waiting protocol

Requests are made, sleep, wake up and run out of time in any order, while locks are given back and
transactions end.  Whatever the order, the pages count just the requests that are blocked on them,
victims get no locks, and writers that wait are not overtaken by newcomers.

## What is here

* `LockState.exclusiveOn` — how many requests for an exclusive lock are blocked on a page.
* `LockState.Counted` — the pages count them; `LockState.Step.counted` and
  `LockState.Reachable.counted` say that they always do.
* `LockState.Grantable` — a request may be granted in a state.  It is told without the counts of the
  pages and without the rule by which a page admits requests.
* `LockState.Step.gained`, `LockState.Step.marked` — the only way to get a lock, and the only way to
  become a victim.
* `LockState.waiting_protocol` — what holds of waiting, in every reachable state.
-/

set_option autoImplicit false
namespace TableStore
namespace LockState

variable {s s' : LockState} {r : Request} {t u : TxnId} {p : PageId}

/-! ## The pages count the blocked requests

Newcomers that want to read let writers go first that are waiting, so a page has to know how many
there are.  The count is a number in the entry of the page.  That it is the number of blocked
requests is kept up by every way in which a wait begins or ends. -/

/-- The number of requests for an exclusive lock that are blocked on a page. -/
def exclusiveOn (s : LockState) (p : PageId) : Nat :=
  s.blocked.countP fun r => r.page = p ∧ r.mode = .exclusive

/-- Every page that was ever asked for counts the requests that are blocked on it, and no request is
blocked on another page. -/
structure Counted (s : LockState) : Prop where
  count : ∀ p n, s.table.waiting? p = some n → n = s.exclusiveOn p
  entered : ∀ r ∈ s.blocked, s.table.waiting? r.page ≠ none

theorem Counted.start : Counted {} where
  count p n hn := by cases hn
  entered r hr := by cases hr

/-- A request that is blocked has its part in the number. -/
theorem exclusiveOn_erase (s : LockState) (hr : r ∈ s.blocked) (p : PageId) :
    exclusiveOn { s with blocked := s.blocked.erase r } p = s.exclusiveOn p - r.weight p := by
  have hp := List.perm_cons_erase hr
  rw [exclusiveOn, exclusiveOn, hp.countP_eq, List.countP_cons, Request.weight]
  simp only [decide_eq_true_eq, Nat.add_sub_cancel]

theorem exclusiveOn_append (s : LockState) (r : Request) (p : PageId) :
    exclusiveOn { s with blocked := s.blocked ++ [r] } p = s.exclusiveOn p + r.weight p := by
  rw [exclusiveOn, exclusiveOn, List.countP_append, List.countP_singleton, Request.weight]
  simp only [decide_eq_true_eq]

namespace Counted

/-- Nothing else changes the counts. -/
theorem of_waiting?_eq (h : Counted s) {table : LockTable}
    (hw : ∀ p, table.waiting? p = s.table.waiting? p) : Counted { s with table } where
  count p n hn := h.count p n ((hw p).symm.trans hn)
  entered r hr := by
    rw [hw]
    exact h.entered r hr

/-- A page may get its entry, with the count that it has. -/
theorem enter (h : Counted s) (p : PageId) : Counted { s with table := s.table.enter p } where
  count q n hn := by
    rw [LockTable.waiting?_enter] at hn
    split at hn
    · rename_i hq
      cases hn
      rw [LockTable.waitingAt]
      cases hw : s.table.waiting? p with
      | some n => exact hq ▸ h.count p n hw
      | none =>
        -- nobody is blocked on a page without an entry
        refine (List.countP_eq_zero.2 fun r hr he => ?_).symm
        rw [decide_eq_true_eq, hq] at he
        exact h.entered r hr (he.1 ▸ hw)
    · exact h.count q n hn
  entered r hr := by
    rw [LockTable.waiting?_enter]
    split
    · exact Option.some_ne_none _
    · exact h.entered r hr

/-- A request leaves, and takes its part of the count with it. -/
theorem leave (h : Counted s) (hr : r ∈ s.blocked) {table : LockTable}
    (hw : ∀ p, table.waiting? p = (s.table.waiting? p).map (· - r.weight p)) :
    Counted { table, blocked := s.blocked.erase r } where
  count p n hn := by
    obtain ⟨k, hk, rfl⟩ := Option.map_eq_some_iff.1 ((hw p).symm.trans hn)
    rw [h.count p k hk]
    exact (exclusiveOn_erase s hr p).symm
  entered q hq := by
    rw [hw, ne_eq, Option.map_eq_none_iff]
    exact h.entered q (List.mem_of_mem_erase hq)

/-- A request begins to wait, and is counted. -/
theorem arrive (h : Counted s) (hr : s.table.waiting? r.page ≠ none) {table : LockTable}
    (hw : ∀ p, table.waiting? p = (s.table.waiting? p).map (· + r.weight p)) :
    Counted { table, blocked := s.blocked ++ [r] } where
  count p n hn := by
    obtain ⟨k, hk, rfl⟩ := Option.map_eq_some_iff.1 ((hw p).symm.trans hn)
    rw [h.count p k hk]
    exact (exclusiveOn_append s r p).symm
  entered q hq := by
    rw [hw, ne_eq, Option.map_eq_none_iff]
    rcases List.mem_append.1 hq with hq | hq
    · exact h.entered q hq
    · rwa [List.mem_singleton.1 hq]

theorem ask (h : Counted s) (r : Request) : Counted (s.ask r) := by
  have he := h.enter r.page
  rw [LockState.ask]
  by_cases hr : r.txn ∈ s.table.aborted
  · rw [LockTable.ask_of_aborted hr, if_neg (by simp)]
    exact h
  · cases ha : (s.table.enter r.page).admits r with
    | true =>
      rw [LockTable.ask_of_admits hr ha, if_neg (by simp)]
      exact he.of_waiting?_eq fun p => LockTable.waiting?_grant _ _ _ _ p
    | false =>
      rw [LockTable.ask_of_not_admits hr ha, if_pos rfl]
      refine he.arrive ?_ fun p => LockTable.waiting?_startWaiting _ r p
      rw [LockTable.waiting?_enter, if_pos rfl]
      exact Option.some_ne_none _

theorem wake (h : Counted s) (hr : r ∈ s.blocked) : Counted (s.wake r) := by
  rw [LockState.wake]
  split
  · rename_i hw
    rw [LockTable.wake_of_waiting hw]
    exact h
  · rename_i hw
    exact h.leave hr (LockTable.waiting?_wake hw)

theorem expire (h : Counted s) (hr : r ∈ s.blocked) : Counted (s.expire r) :=
  h.leave hr (LockTable.waiting?_expire s.table r)

theorem waitingAt_eq (h : Counted s) (p : PageId) : s.table.waitingAt p = s.exclusiveOn p := by
  have hp := (h.enter p).count p (s.table.waitingAt p)
  rw [LockTable.waiting?_enter, if_pos rfl] at hp
  exact hp rfl

end Counted

theorem Step.counted (hs : Step s s') (h : Counted s) : Counted s' := by
  cases hs with
  | ask r => exact h.ask r
  | wake hr => exact h.wake hr
  | expire hr => exact h.expire hr
  | release hr => exact h.of_waiting?_eq (LockTable.waiting?_release hr)
  | releaseAll t => exact h.of_waiting?_eq (LockTable.waiting?_releaseAll s.table t)
  | unmark t => exact h.of_waiting?_eq fun p => LockTable.waiting?_unmark s.table t p
  | complete t => exact h.of_waiting?_eq (LockTable.waiting?_complete s.table t)

theorem Reachable.counted (h : Reachable s) : Counted s := by
  induction h with
  | start => exact .start
  | step _ hs ih => exact hs.counted ih

/-! ## Who may be granted a lock -/

/-- A request may be granted: nobody else has a lock that excludes it, and a newcomer that wants to
read does not overtake a request for an exclusive lock. -/
def Grantable (s : LockState) (r : Request) : Prop := s.table.Allows r (s.exclusiveOn r.page)

/-- A newcomer is granted a page to read only when nobody waits to write it. -/
theorem Grantable.exclusiveOn_eq (h : s.Grantable r) (hm : r.mode = .shared)
    (hn : s.table.heldMode? r.txn r.page = none) : s.exclusiveOn r.page = 0 := by
  rw [Grantable, LockTable.Allows, hm] at h
  exact h.2 hn

theorem Counted.admits_enter_iff (h : Counted s) (hc : s.table.Consistent) :
    (s.table.enter r.page).admits r = true ↔ s.Grantable r := by
  rw [hc.admits_enter_iff, h.waitingAt_eq, Grantable]

/-- A request that is blocked is admitted just if it may be granted. -/
theorem Counted.admits_iff (h : Counted s) (hc : s.table.Consistent) (hr : r ∈ s.blocked) :
    s.table.admits r = true ↔ s.Grantable r := by
  obtain ⟨n, hn⟩ := Option.ne_none_iff_exists'.1 (h.entered r hr)
  rw [hc.admits_iff hn, h.count _ n hn, Grantable]

/-- The first look grants just the requests that may be granted, unless they are a victim's. -/
theorem Counted.ask_eq_granted_iff (h : Counted s) (hc : s.table.Consistent) :
    (s.table.ask r).1 = .granted ↔ r.txn ∉ s.table.aborted ∧ s.Grantable r := by
  rw [← h.admits_enter_iff hc]
  by_cases hr : r.txn ∈ s.table.aborted
  · simp [LockTable.ask_of_aborted hr, hr]
  · cases ha : (s.table.enter r.page).admits r with
    | true => simp [LockTable.ask_of_admits hr ha, hr]
    | false => simp [LockTable.ask_of_not_admits hr ha]

/-- So does every later look. -/
theorem Counted.wake_eq_granted_iff (h : Counted s) (hc : s.table.Consistent)
    (hb : r ∈ s.blocked) :
    (s.table.wake r).1 = .granted ↔ r.txn ∉ s.table.aborted ∧ s.Grantable r := by
  rw [← h.admits_iff hc hb]
  by_cases hr : r.txn ∈ s.table.aborted
  · simp [LockTable.wake_of_aborted hr, hr]
  · cases ha : s.table.admits r with
    | true => simp [LockTable.wake_of_admits hr ha, hr]
    | false => simp [LockTable.wake_of_not_admits hr ha]

/-- So does the last look. -/
theorem Counted.expire_eq_granted_iff (h : Counted s) (hc : s.table.Consistent)
    (hb : r ∈ s.blocked) :
    (s.table.expire r).1 = .granted ↔ r.txn ∉ s.table.aborted ∧ s.Grantable r := by
  rw [← h.admits_iff hc hb]
  by_cases hr : r.txn ∈ s.table.aborted
  · simp [LockTable.expire_of_aborted hr, hr]
  · cases ha : s.table.admits r with
    | true => simp [LockTable.expire_of_admits hr ha, hr]
    | false => simp [LockTable.expire_of_not_admits hr ha]

/-! ## Getting a lock and becoming a victim -/

/-- A look gives a lock only by a grant, and just the one that is asked for. -/
theorem gained_of_looked {l k : LockTable} {a : Answer} (hl : LockTable.Looked l r a k) {m : Mode}
    (h : k.heldMode? t p = some m) (hn : l.heldMode? t p ≠ some m) :
    a = .granted ∧ r = ⟨t, p, m⟩ := by
  by_cases ha : a = .granted
  · refine ⟨ha, ?_⟩
    by_cases ht : t = r.txn
    · subst ht
      rw [hl.granted ha] at h
      split at h
      · rename_i hp
        subst hp
        split at h
        · rename_i hx
          exact absurd (hx.trans h) hn
        · cases h
          rfl
      · exact absurd h hn
    · exact absurd ((hl.heldMode?_of_ne ht p).symm.trans h) hn
  · rw [LockTable.heldMode?, hl.ungranted ha] at h
    exact absurd h hn

/-- **Whoever gets a lock has asked for it, is no victim, and could be granted it.** -/
theorem Step.gained (hs : Step s s') (hc : s.table.Consistent) (hw : Counted s) {m : Mode}
    (h : s'.table.heldMode? t p = some m) (hn : s.table.heldMode? t p ≠ some m) :
    t ∉ s.table.aborted ∧ s.Grantable ⟨t, p, m⟩ := by
  -- nobody has more than before if the only change is that some locks are gone
  have hlost : ∀ {c : Prop} [Decidable c],
      s'.table.heldMode? t p = (if c then none else s.table.heldMode? t p) → False := by
    intro c _ he
    rw [he] at h
    split at h
    · cases h
    · exact hn h
  cases hs with
  | ask r =>
    obtain ⟨ha, rfl⟩ := gained_of_looked (LockTable.looked_ask hc r) h hn
    exact (hw.ask_eq_granted_iff hc).1 ha
  | wake hb =>
    obtain ⟨ha, rfl⟩ := gained_of_looked (LockTable.looked_wake hc _) h hn
    exact (hw.wake_eq_granted_iff hc hb).1 ha
  | @expire r hb =>
    rw [LockState.expire] at h
    rcases LockTable.expire_cases hc r with ⟨k, he, hl⟩ | ⟨k, he, hl⟩ | ⟨k, he, hd⟩
    · rw [he] at h
      cases (gained_of_looked hl h hn).1
    · rw [he] at h
      obtain ⟨-, rfl⟩ := gained_of_looked hl h hn
      exact (hw.expire_eq_granted_iff hc hb).1 (congrArg Prod.fst he)
    · rw [he] at h
      exact absurd ((hd.same.heldMode?_eq t p).symm.trans h) hn
  | release hr => exact (hlost (LockTable.heldMode?_release hr t p)).elim
  | releaseAll u => exact (hlost (LockTable.heldMode?_releaseAll s.table u t p)).elim
  | unmark u => exact absurd h hn
  | complete u => exact (hlost (LockTable.heldMode?_complete s.table u t p)).elim

/-- **Whoever becomes a victim holds a lock**, and is struck by somebody else who is no victim and
whose request could not be granted when its time was up. -/
theorem Step.marked (hs : Step s s') (hc : s.table.Consistent) (hw : Counted s)
    (h : u ∈ s'.table.aborted) (hn : u ∉ s.table.aborted) :
    ∃ r ∈ s.blocked, s' = s.expire r ∧ r.txn ∉ s.table.aborted ∧ ¬ s.Grantable r ∧ u ≠ r.txn ∧
      ∃ p, s.table.holds u p = true := by
  cases hs with
  | ask r => exact absurd ((LockTable.looked_ask hc r).aborted_eq ▸ h) hn
  | @wake r _ => exact absurd ((LockTable.looked_wake hc r).aborted_eq ▸ h) hn
  | @expire r hb =>
    refine ⟨r, hb, rfl, ?_⟩
    have hg := hw.expire_eq_granted_iff hc hb
    rw [LockState.expire] at h
    rcases LockTable.expire_cases hc r with ⟨k, he, hl⟩ | ⟨k, he, hl⟩ | ⟨k, he, hd⟩
    · rw [he] at h
      exact absurd (hl.aborted_eq ▸ h) hn
    · rw [he] at h
      exact absurd (hl.aborted_eq ▸ h) hn
    · rw [he] at h hg
      have hu := ((hd.mem_aborted u).1 h).resolve_left hn
      obtain ⟨hne, -, hp⟩ := hc.mem_victimsOf_iff.1 hu
      refine ⟨hd.active, fun hgr => ?_, hne, hp⟩
      cases hg.2 ⟨hd.active, hgr⟩
  | release hr => exact absurd (LockTable.aborted_release hr ▸ h) hn
  | releaseAll t => exact absurd (LockTable.aborted_releaseAll s.table t ▸ h) hn
  | unmark t => exact absurd (Distinct.mem_erase.1 h).2 hn
  | complete t => exact absurd (LockTable.mem_aborted_complete.1 h).2 hn

/-! ## When the time is up

A request whose time is up is looked at once more, and it is the table at that moment that decides.
It may have been freed in the meantime. -/

/-- A request that may be granted when its time is up gets its lock. -/
theorem Counted.expire_granted (h : Counted s) (hc : s.table.Consistent) (hb : r ∈ s.blocked)
    (hr : r.txn ∉ s.table.aborted) (hg : s.Grantable r) :
    (s.table.expire r).1 = .granted ∧ (s.expire r).table.Covered r ∧
      (s.expire r).table.aborted = s.table.aborted := by
  have hgranted := (h.expire_eq_granted_iff hc hb).2 ⟨hr, hg⟩
  refine ⟨hgranted, ?_⟩
  rw [LockState.expire]
  rcases LockTable.expire_cases hc r with ⟨k, he, hl⟩ | ⟨k, he, hl⟩ | ⟨k, he, hd⟩
  · rw [he] at hgranted
    cases hgranted
  · rw [he]
    refine ⟨?_, hl.aborted_eq⟩
    have hheld := hl.granted rfl r.page
    rw [if_pos rfl] at hheld
    rw [LockTable.Covered, hheld]
    split
    · exact Or.inr rfl
    · exact Or.inl rfl
  · rw [he] at hgranted
    cases hgranted

/-- A request that may not be granted then strikes the others that hold locks. -/
theorem Counted.expire_deadlock (h : Counted s) (hc : s.table.Consistent) (hb : r ∈ s.blocked)
    (hr : r.txn ∉ s.table.aborted) (hg : ¬ s.Grantable r) :
    (∃ us, (s.table.expire r).1 = .deadlock us ∧
      ∀ u, u ∈ us ↔ u ≠ r.txn ∧ u ∉ s.table.aborted ∧ ∃ p, s.table.holds u p = true) ∧
    (∀ u, u ∈ (s.expire r).table.aborted ↔
      u ∈ s.table.aborted ∨ u ≠ r.txn ∧ ∃ p, s.table.holds u p = true) ∧
    ∀ u p, (s.expire r).table.heldMode? u p = s.table.heldMode? u p := by
  have hgranted := mt (h.expire_eq_granted_iff hc hb).1 fun hg' => hg hg'.2
  rw [LockState.expire]
  rcases LockTable.expire_cases hc r with ⟨k, he, hl⟩ | ⟨k, he, hl⟩ | ⟨k, he, hd⟩
  · exact absurd (hl.refused_iff.1 rfl) hr
  · exact absurd (congrArg Prod.fst he) hgranted
  · rw [he]
    refine ⟨⟨_, rfl, fun u => hc.mem_victimsOf_iff⟩, fun u => ?_, hd.same.heldMode?_eq⟩
    refine (hd.mem_aborted u).trans ?_
    rw [hc.mem_victimsOf_iff]
    by_cases hu : u ∈ s.table.aborted
    · exact ⟨fun _ => Or.inl hu, fun _ => Or.inl hu⟩
    · simp only [hu, false_or, not_false_eq_true, true_and]

/-! ## The protocol -/

/-- **Waiting is safe in every order of steps.**

1. Every page counts just the requests for an exclusive lock that are blocked on it, so there is a
   count to be taken back when one of them leaves.
2. A victim is refused at every look and never gets a lock; and whoever marks others is no victim.
3. No newcomer is granted a page to read as long as a request for an exclusive lock is blocked on it,
   and whoever holds a page already is granted it again at once.
4. A request of a transaction that is no victim is granted when its time is up if it can be.
   Otherwise just the others that hold locks and are no victims yet become victims, so that now all
   others that hold locks are victims; no lock changes, and the one who waited is spared. -/
theorem waiting_protocol (h : Reachable s) :
    ((∀ p, s.table.waitingAt p = s.exclusiveOn p) ∧
      ∀ r ∈ s.blocked, r.mode = .exclusive → 0 < s.table.waitingAt r.page) ∧
    ((∀ r, r.txn ∈ s.table.aborted → (s.table.ask r).1 = .refused ∧
        (s.table.wake r).1 = .refused ∧ (s.table.expire r).1 = .refused) ∧
      ∀ s', Step s s' →
        (∀ t p m, s'.table.heldMode? t p = some m → s.table.heldMode? t p ≠ some m →
          t ∉ s.table.aborted ∧ s.Grantable ⟨t, p, m⟩) ∧
        ∀ u ∈ s'.table.aborted, u ∉ s.table.aborted → ∃ r ∈ s.blocked, s' = s.expire r ∧
          r.txn ∉ s.table.aborted ∧ ¬ s.Grantable r ∧ u ≠ r.txn ∧
          ∃ p, s.table.holds u p = true) ∧
    ((∀ s', Step s s' → ∀ t p, s.table.heldMode? t p = none →
        s'.table.heldMode? t p = some .shared → s.exclusiveOn p = 0) ∧
      ∀ r, r.txn ∉ s.table.aborted → s.table.Covered r → (s.table.ask r).1 = .granted ∧
        (s.table.wake r).1 = .granted ∧ (s.table.expire r).1 = .granted) ∧
    ∀ r ∈ s.blocked, r.txn ∉ s.table.aborted →
      (s.Grantable r → (s.table.expire r).1 = .granted ∧ (s.expire r).table.Covered r ∧
        (s.expire r).table.aborted = s.table.aborted) ∧
      (¬ s.Grantable r →
        (∃ us, (s.table.expire r).1 = .deadlock us ∧
          ∀ u, u ∈ us ↔ u ≠ r.txn ∧ u ∉ s.table.aborted ∧ ∃ p, s.table.holds u p = true) ∧
        (∀ u, u ∈ (s.expire r).table.aborted ↔
          u ∈ s.table.aborted ∨ u ≠ r.txn ∧ ∃ p, s.table.holds u p = true) ∧
        r.txn ∉ (s.expire r).table.aborted ∧
        ∀ u p, (s.expire r).table.heldMode? u p = s.table.heldMode? u p) := by
  have hc := h.consistent
  have hw := h.counted
  refine ⟨⟨hw.waitingAt_eq, fun r hb hm => ?_⟩, ⟨fun r hr => ?_, fun s' hs => ⟨?_, ?_⟩⟩,
    ⟨fun s' hs t p hn hm => ?_, fun r hr hcov => ?_⟩, fun r hb hr => ⟨?_, fun hg => ?_⟩⟩
  · rw [hw.waitingAt_eq]
    exact List.countP_pos_iff.2 ⟨r, hb, decide_eq_true ⟨rfl, hm⟩⟩
  · rw [LockTable.ask_of_aborted hr, LockTable.wake_of_aborted hr, LockTable.expire_of_aborted hr]
    exact ⟨rfl, rfl, rfl⟩
  · exact fun t p m hm hn => hs.gained hc hw hm hn
  · exact fun u hu hn => hs.marked hc hw hu hn
  · have hg := (hs.gained hc hw hm (hn ▸ fun he => by cases he)).2
    exact hg.exclusiveOn_eq rfl hn
  · have ha := hc.admits_of_covered hcov
    have hg : s.Grantable r := hc.allows_of_covered hcov _
    rw [LockTable.wake_of_admits hr ha, LockTable.expire_of_admits hr ha]
    exact ⟨(hw.ask_eq_granted_iff hc).2 ⟨hr, hg⟩, rfl, rfl⟩
  · exact hw.expire_granted hc hb hr
  · obtain ⟨hus, hmarks, hlocks⟩ := hw.expire_deadlock hc hb hr hg
    refine ⟨hus, hmarks, fun hm => ?_, hlocks⟩
    rcases (hmarks r.txn).1 hm with ha | ⟨hne, -⟩
    · exact hr ha
    · exact hne rfl

/-- Two readers of a page, of which the first asks for an upgrade and has to wait. -/
def upgrading : LockState :=
  let r : TxnId → Mode → Request := fun t m => ⟨t, ⟨⟨7⟩, 0⟩, m⟩
  ((({} : LockState).ask (r ⟨1⟩ .shared)).ask (r ⟨2⟩ .shared)).ask (r ⟨1⟩ .exclusive)

theorem waiting_protocol_upgrading :
    Reachable upgrading ∧ upgrading.table.waitingAt ⟨⟨7⟩, 0⟩ = 1 ∧
      ⟨2⟩ ∈ (upgrading.expire ⟨⟨1⟩, ⟨⟨7⟩, 0⟩, .exclusive⟩).table.aborted := by
  have h : Reachable upgrading :=
    .step (.step (.step .start (.ask _ _)) (.ask _ _)) (.ask _ _)
  obtain ⟨⟨hcount, -⟩, -, -, hexpire⟩ := waiting_protocol h
  have hother : upgrading.table.heldMode? ⟨2⟩ ⟨⟨7⟩, 0⟩ = some .shared := by decide
  have hg : ¬ upgrading.Grantable ⟨⟨1⟩, ⟨⟨7⟩, 0⟩, .exclusive⟩ := fun hg => by
    have := hg ⟨2⟩ (by decide)
    rw [hother] at this
    cases this
  obtain ⟨-, hmarks, -, -⟩ := (hexpire ⟨⟨1⟩, ⟨⟨7⟩, 0⟩, .exclusive⟩ (by decide) (by decide)).2 hg
  refine ⟨h, (hcount _).trans (by decide), (hmarks ⟨2⟩).2 (Or.inr ⟨by decide, ⟨⟨7⟩, 0⟩, ?_⟩)⟩
  rw [LockTable.holds, hother, Option.isSome_some]

end LockState
end TableStore

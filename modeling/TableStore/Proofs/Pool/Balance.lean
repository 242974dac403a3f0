import Mathlib.Data.List.Nodup
import TableStore.Proofs.Pool.Room
import TableStore.Proofs.Pool.Step

/-!
# Pages that come and go

A page comes into memory only when it is asked for and missing.  It goes when it makes room for
another page, when its transaction is aborted or rolled back, or when it is dropped by hand.  The pool
counts what comes and what makes room.  Here a run is written down as a list of incidents, without a
look at the counters, and each transition of the pool is shown to keep the two in agreement.

## What is here

* `Incident`, `tally` — what happens to the pages of a pool, and how often it happened.
* `Store.lost` — the pages that were in memory and are not any more.
* `Store.Balanced` — the counters agree with a list of incidents, and the pages that have come are
  those that have gone and those that are in memory.
* `Store.Quiet`, `Store.Sheds` — transitions in which no page comes.
* `Store.Balanced.load`, `Store.Balanced.resume` — the balance after a page has been asked for, and
  after the rest of the call.
-/

set_option autoImplicit false
namespace TableStore

/-! ## Incidents

An incident is what happens to one page.  From a list of them one reads off what the counters should
show, and which pages have come and gone. -/

/-- What happens to the pages of a pool. -/
inductive Incident where
  /-- A lock has been granted and its page is asked for.  It is told whether the page was in memory
  and whether it was handed out. -/
  | request (page : PageId) (cached served : Bool)
  /-- A page has made room for another. -/
  | evicted (page : PageId)
  /-- A page has been dropped by an abort, by the rollback of a victim or by hand. -/
  | dropped (page : PageId)
  deriving DecidableEq

namespace Incident

def isRequest : Incident → Bool
  | request _ _ _ => true
  | _ => false

/-- The page was in memory. -/
def isHit : Incident → Bool
  | request _ cached _ => cached
  | _ => false

/-- The page was not in memory. -/
def isMiss : Incident → Bool
  | request _ cached _ => !cached
  | _ => false

/-- A page was missing and has been handed out all the same. -/
def isRead : Incident → Bool
  | request _ cached served => !cached && served
  | _ => false

/-- The page was not handed out. -/
def isFailure : Incident → Bool
  | request _ _ served => !served
  | _ => false

def isEviction : Incident → Bool
  | evicted _ => true
  | _ => false

def isDrop : Incident → Bool
  | dropped _ => true
  | _ => false

/-- The page that has come into memory. -/
def brought? : Incident → Option PageId
  | request p false true => some p
  | _ => none

/-- The page that has gone. -/
def gone? : Incident → Option PageId
  | evicted p => some p
  | dropped p => some p
  | request _ _ _ => none

end Incident

/-- How often things happened. -/
structure Tally where
  requests : Nat
  hits : Nat
  misses : Nat
  /-- Requests that brought a page into memory. -/
  reads : Nat
  /-- Requests that were refused. -/
  failures : Nat
  evictions : Nat
  drops : Nat

/-- How often things happened according to a list of incidents. -/
def tally (log : List Incident) : Tally where
  requests := log.countP Incident.isRequest
  hits := log.countP Incident.isHit
  misses := log.countP Incident.isMiss
  reads := log.countP Incident.isRead
  failures := log.countP Incident.isFailure
  evictions := log.countP Incident.isEviction
  drops := log.countP Incident.isDrop

section Tally

variable (log : List Incident)

/-- What has been asked for was there or was missing. -/
theorem hits_add_misses : (tally log).hits + (tally log).misses = (tally log).requests := by
  induction log with
  | nil => rfl
  | cons i log ih =>
    simp only [tally, List.countP_cons] at ih ⊢
    rcases i with ⟨p, _ | _, _⟩ | _ | _ <;>
      simp [Incident.isHit, Incident.isMiss, Incident.isRequest] <;> omega

/-- What was missing was read, or the request has failed, unless a page in memory was refused. -/
theorem misses_eq {log : List Incident} (h : ∀ p, Incident.request p true false ∉ log) :
    (tally log).misses = (tally log).reads + (tally log).failures := by
  induction log with
  | nil => rfl
  | cons i log ih =>
    have hlog := ih fun p hp => h p (List.mem_cons_of_mem i hp)
    simp only [tally, List.countP_cons] at hlog ⊢
    rcases i with ⟨p, _ | _, _ | _⟩ | _ | _
    case request.true.false => exact absurd List.mem_cons_self (h p)
    all_goals
      simp [Incident.isMiss, Incident.isFailure, Incident.isRead]
      omega

/-- As many pages have come as have been read. -/
theorem length_brought : (log.filterMap Incident.brought?).length = (tally log).reads := by
  induction log with
  | nil => rfl
  | cons i log ih =>
    simp only [tally, List.countP_cons, List.filterMap_cons] at ih ⊢
    rcases i with ⟨p, _ | _, _ | _⟩ | _ | _ <;> simp [Incident.brought?, Incident.isRead, ih]

/-- As many pages have gone as have been evicted or dropped. -/
theorem length_gone :
    (log.filterMap Incident.gone?).length = (tally log).evictions + (tally log).drops := by
  induction log with
  | nil => rfl
  | cons i log ih =>
    simp only [tally, List.countP_cons, List.filterMap_cons] at ih ⊢
    rcases i with _ | _ | _ <;>
      simp [Incident.gone?, Incident.isEviction, Incident.isDrop] <;> omega

/-- How often one page has come. -/
theorem count_brought (p : PageId) :
    (log.filterMap Incident.brought?).count p = log.count (.request p false true) := by
  induction log with
  | nil => rfl
  | cons i log ih =>
    rw [List.filterMap_cons, List.count_cons, ← ih]
    rcases i with ⟨q, _ | _, _ | _⟩ | _ | _ <;> simp [Incident.brought?, List.count_cons]

/-- How often one page has gone. -/
theorem count_gone (p : PageId) :
    (log.filterMap Incident.gone?).count p = log.count (.evicted p) + log.count (.dropped p) := by
  induction log with
  | nil => rfl
  | cons i log ih =>
    rw [List.filterMap_cons, List.count_cons, List.count_cons]
    rcases i with _ | q | q <;> simp [Incident.gone?, List.count_cons, ih] <;> omega

/-! Nothing is counted for pages that go, but that they have gone. -/

variable (ps : List PageId)

theorem tally_dropped : tally (ps.map .dropped) = ⟨0, 0, 0, 0, 0, 0, ps.length⟩ := by
  simp [tally, Function.comp_def, Incident.isRequest, Incident.isHit, Incident.isMiss,
    Incident.isRead, Incident.isFailure, Incident.isEviction, Incident.isDrop]

theorem tally_evicted : tally (ps.map .evicted) = ⟨0, 0, 0, 0, 0, ps.length, 0⟩ := by
  simp [tally, Function.comp_def, Incident.isRequest, Incident.isHit, Incident.isMiss,
    Incident.isRead, Incident.isFailure, Incident.isEviction, Incident.isDrop]

theorem brought_dropped : (ps.map Incident.dropped).filterMap Incident.brought? = [] := by
  simp [Incident.brought?, Function.comp_def]

theorem brought_evicted : (ps.map Incident.evicted).filterMap Incident.brought? = [] := by
  simp [Incident.brought?, Function.comp_def]

/-- The pages that have been dropped have gone. -/
theorem gone_dropped : (ps.map Incident.dropped).filterMap Incident.gone? = ps := by
  simp [Incident.gone?, Function.comp_def]

theorem gone_evicted : (ps.map Incident.evicted).filterMap Incident.gone? = ps := by
  simp [Incident.gone?, Function.comp_def]

end Tally

/-! ## Counters -/

/-- The counters of what passes through the cache. -/
@[ext] structure Traffic where
  hits : UInt64
  misses : UInt64
  evictions : UInt64
  reads : UInt64

instance : Add Traffic where
  add a b := ⟨a.hits + b.hits, a.misses + b.misses, a.evictions + b.evictions, a.reads + b.reads⟩

theorem Traffic.add_zero (a : Traffic) : a + ⟨0, 0, 0, 0⟩ = a :=
  Traffic.ext (UInt64.add_zero _) (UInt64.add_zero _) (UInt64.add_zero _) (UInt64.add_zero _)

theorem Traffic.add_assoc (a b c : Traffic) : a + b + c = a + (b + c) :=
  Traffic.ext (UInt64.add_assoc _ _ _) (UInt64.add_assoc _ _ _) (UInt64.add_assoc _ _ _)
    (UInt64.add_assoc _ _ _)

theorem Traffic.add_comm (a b : Traffic) : a + b = b + a :=
  Traffic.ext (UInt64.add_comm _ _) (UInt64.add_comm _ _) (UInt64.add_comm _ _)
    (UInt64.add_comm _ _)

theorem Traffic.add_right_comm (a b c : Traffic) : a + b + c = a + c + b := by
  rw [Traffic.add_assoc, Traffic.add_comm b, ← Traffic.add_assoc]

/-- What the counters should show after a list of incidents. -/
def traffic (log : List Incident) : Traffic where
  hits := .ofNat (tally log).hits
  misses := .ofNat (tally log).misses
  evictions := .ofNat (tally log).evictions
  reads := .ofNat (tally log).reads

/-- What is counted for two lists adds up. -/
theorem traffic_append (log new : List Incident) :
    traffic (log ++ new) = traffic log + traffic new := by
  simp only [traffic, tally, List.countP_append, UInt64.ofNat_add]
  rfl

namespace Store

variable {log new : List Incident} {s s' m : Store} {t : TxnId} {q : PageId}

/-- What the counters of a store show. -/
def traffic (s : Store) : Traffic where
  hits := s.stats.hits
  misses := s.stats.misses
  evictions := s.stats.evictions
  reads := s.stats.reads

/-! ## Pages that go

Several pages may go at once, as with an abort.  Which ones is told by the keys of the cache before
and after, so it does not matter how they were dropped. -/

/-- The pages that were in memory and are not any more. -/
def lost (s s' : Store) : List PageId :=
  s.cache.pages.keys.filter fun p => !s'.cache.pages.contains p

/-- A page is lost if it was there and is there no more. -/
theorem mem_lost : q ∈ s.lost s' ↔ q ∈ s.cache.pages.keys ∧ q ∉ s'.cache.pages.keys := by
  rw [lost, List.mem_filter, Bool.not_eq_true', ← Bool.not_eq_true, Assoc.contains_iff]

/-- It only matters which of the pages are in memory. -/
theorem lost_congr
    (h : ∀ p ∈ s.cache.pages.keys, p ∈ s'.cache.pages.keys ↔ p ∈ m.cache.pages.keys) :
    s.lost s' = s.lost m := by
  refine List.filter_congr fun p hp => ?_
  rw [Bool.eq_iff_iff, Bool.not_eq_true', Bool.not_eq_true', ← Bool.not_eq_true,
    ← Bool.not_eq_true, Assoc.contains_iff, Assoc.contains_iff, h p hp]

/-- Nothing is lost if everything is still there. -/
theorem lost_eq_nil (h : ∀ p ∈ s.cache.pages.keys, p ∈ s'.cache.pages.keys) : s.lost s' = [] := by
  rw [List.eq_nil_iff_forall_not_mem]
  intro p hp
  obtain ⟨hin, hout⟩ := mem_lost.1 hp
  exact hout (h p hin)

/-- One page is lost if all others are still there. -/
theorem lost_eq_singleton (hq : q ∈ s.cache.pages.keys)
    (h : ∀ p ∈ s.cache.pages.keys, p ∈ s'.cache.pages.keys ↔ p ≠ q) : s.lost s' = [q] := by
  have hnodup : (s.lost s').Nodup := s.cache.pages.nodup_keys.filter _
  refine List.perm_singleton.1 ((List.perm_ext_iff_of_nodup hnodup (List.nodup_singleton q)).2 ?_)
  intro p
  rw [mem_lost, List.mem_singleton]
  constructor
  · rintro ⟨hp, hout⟩
    exact Decidable.not_not.1 fun hne => hout ((h p hp).2 hne)
  · rintro rfl
    exact ⟨hq, fun hin => (h p hq).1 hin rfl⟩

/-- What was there and what has come is what is there and what has gone. -/
theorem perm_lost {came : List PageId} (hcame : came.Nodup)
    (hnew : ∀ p ∈ came, p ∉ s.cache.pages.keys ∧ p ∈ s'.cache.pages.keys)
    (hold : ∀ p ∈ s'.cache.pages.keys, p ∈ s.cache.pages.keys ∨ p ∈ came) :
    (came ++ s.cache.pages.keys).Perm (s.lost s' ++ s'.cache.pages.keys) := by
  have hbefore : (came ++ s.cache.pages.keys).Nodup :=
    hcame.append s.cache.pages.nodup_keys fun p hp hin => (hnew p hp).1 hin
  have hafter : (s.lost s' ++ s'.cache.pages.keys).Nodup :=
    (s.cache.pages.nodup_keys.filter _).append s'.cache.pages.nodup_keys
      fun p hp hin => (mem_lost.1 hp).2 hin
  refine (List.perm_ext_iff_of_nodup hbefore hafter).2 fun p => ?_
  rw [List.mem_append, List.mem_append, mem_lost]
  constructor
  · rintro (hp | hp)
    · exact .inr (hnew p hp).2
    · by_cases hin : p ∈ s'.cache.pages.keys
      · exact .inr hin
      · exact .inl ⟨hp, hin⟩
  · rintro (hp | hp)
    · exact .inr hp.1
    · exact (hold p hp).symm

/-! ## The balance

The invariant compares one list of incidents with two things: the counters of the store, and the
pages that it has in memory. -/

/-- The counters agree with a list of incidents, and the pages that have come are those that have
gone and those that are in memory. -/
structure Balanced (log : List Incident) (s : Store) : Prop where
  traffic_eq : s.traffic = TableStore.traffic log
  pages : (log.filterMap Incident.brought?).Perm
    (log.filterMap Incident.gone? ++ s.cache.pages.keys)
  evictions_le : (tally log).evictions ≤ (tally log).misses
  /-- A page in memory is never refused. -/
  served : ∀ p, Incident.request p true false ∉ log

/-- The balance after some more incidents. -/
theorem Balanced.append (h : s.Balanced log)
    (ht : s'.traffic = s.traffic + TableStore.traffic new)
    (hp : (new.filterMap Incident.brought? ++ s.cache.pages.keys).Perm
      (new.filterMap Incident.gone? ++ s'.cache.pages.keys))
    (he : (tally new).evictions ≤ (tally new).misses)
    (hs : ∀ p, Incident.request p true false ∉ new) : s'.Balanced (log ++ new) where
  traffic_eq := by rw [ht, h.traffic_eq, traffic_append]
  pages := by
    rw [List.filterMap_append, List.filterMap_append, List.append_assoc]
    refine (h.pages.append_right _).trans ?_
    rw [List.append_assoc]
    exact ((List.perm_append_comm).trans hp).append_left _
  evictions_le := by
    have := h.evictions_le
    simp only [tally, List.countP_append] at this he ⊢
    omega
  served p hmem := (List.mem_append.1 hmem).elim (h.served p) (hs p)

/-! ### Transitions in which no page comes -/

/-- The same pages are in memory, and nothing has been counted. -/
structure Quiet (s s' : Store) : Prop where
  keys_eq : s'.cache.pages.keys = s.cache.pages.keys
  traffic_eq : s'.traffic = s.traffic

/-- Pages may have gone, and nothing has been counted. -/
structure Sheds (s s' : Store) : Prop where
  keys : ∀ p ∈ s'.cache.pages.keys, p ∈ s.cache.pages.keys
  traffic_eq : s'.traffic = s.traffic

theorem Quiet.refl (s : Store) : s.Quiet s := ⟨rfl, rfl⟩

theorem Quiet.trans (h : s.Quiet m) (h' : m.Quiet s') : s.Quiet s' :=
  ⟨h'.keys_eq.trans h.keys_eq, h'.traffic_eq.trans h.traffic_eq⟩

theorem Quiet.sheds (h : s.Quiet s') : s.Sheds s' :=
  ⟨fun _ hp => h.keys_eq ▸ hp, h.traffic_eq⟩

/-- The balance where nothing has come or gone. -/
theorem Balanced.quiet (h : s.Balanced log) (hq : s.Quiet s') : s'.Balanced log :=
  ⟨hq.traffic_eq.trans h.traffic_eq, hq.keys_eq ▸ h.pages, h.evictions_le, h.served⟩

/-- The balance after some pages have been dropped. -/
theorem Balanced.sheds (h : s.Balanced log) (hd : s.Sheds s') :
    s'.Balanced (log ++ (s.lost s').map .dropped) := by
  have htally := tally_dropped (s.lost s')
  refine h.append ?_ ?_ ?_ fun p hp => ?_
  · rw [hd.traffic_eq, TableStore.traffic, htally]
    exact (Traffic.add_zero _).symm
  · rw [brought_dropped, gone_dropped]
    exact perm_lost List.nodup_nil (fun p hp => by cases hp) fun p hp => .inl (hd.keys p hp)
  · -- neither evictions nor misses
    exact Nat.le_of_eq (htally ▸ rfl)
  · obtain ⟨q, -, hq⟩ := List.mem_map.1 hp
    cases hq

/-! ### Pages that come -/

/-- At most one page has gone, and it is counted as evicted. -/
structure MadeRoom (s m : Store) : Prop where
  keys : ∀ p ∈ m.cache.pages.keys, p ∈ s.cache.pages.keys
  lost_le : (s.lost m).length ≤ 1
  traffic_eq : m.traffic = s.traffic + ⟨0, 0, .ofNat (s.lost m).length, 0⟩

theorem MadeRoom.refl (s : Store) : s.MadeRoom s where
  keys _ hp := hp
  lost_le := by simp [lost_eq_nil fun _ hp => hp]
  traffic_eq := by
    rw [lost_eq_nil fun _ hp => hp]
    exact (Traffic.add_zero _).symm

/-- Room is made by one eviction, or there was room. -/
theorem madeRoom (hs : s.cache.Sound) (hm : s.makeRoom = .ok m) : s.MadeRoom m := by
  rcases s.makeRoom_cases with ⟨-, he⟩ | ⟨-, -, he⟩ | ⟨c, -, hc, he⟩
  · rw [he] at hm
    cases hm
    exact .refl _
  · rw [he] at hm
    cases hm
  · rw [he] at hm
    cases hm
    obtain ⟨v, page, hv, -, hget, -⟩ := hs.evict? hc
    have hkeys : ∀ p, p ∈ c.pages.keys ↔ p ≠ v ∧ p ∈ s.cache.pages.keys := by
      intro p
      rw [Assoc.mem_keys_iff, Assoc.mem_keys_iff, hget]
      by_cases hp : p = v <;> simp [hp]
    have hlost : s.lost ({ s with cache := c }.bump .evictions) = [v] := by
      refine lost_eq_singleton (Assoc.mem_keys_iff.2 ⟨page, hv⟩) fun p hp => ?_
      exact (hkeys p).trans (and_iff_left hp)
    refine ⟨fun p hp => ((hkeys p).1 hp).2, by rw [hlost]; exact Nat.le_refl 1, ?_⟩
    rw [hlost]
    exact Traffic.ext (UInt64.add_zero _).symm (UInt64.add_zero _).symm rfl (UInt64.add_zero _).symm

/-- The balance after a request for a page that was not in memory. -/
theorem Balanced.missed (h : s.Balanced log) (hq : q ∉ s.cache.pages.keys)
    (hm : (s.bump .misses).MadeRoom m) {served : Bool}
    (hkeys : ∀ p, p ∈ s'.cache.pages.keys ↔ p ∈ m.cache.pages.keys ∨ served = true ∧ p = q)
    (ht : s'.traffic = m.traffic + ⟨0, 0, 0, if served then 1 else 0⟩) :
    s'.Balanced (log ++ .request q false served :: (s.lost s').map .evicted) := by
  have hlost : s.lost s' = (s.bump .misses).lost m := by
    refine lost_congr fun p hp => ?_
    have hne : p ≠ q := fun he => hq (he ▸ hp)
    rw [hkeys, or_iff_left fun h => hne h.2]
  have htally := tally_evicted (s.lost s')
  have hle := hm.lost_le
  rw [← hlost] at hle
  have hbrought : (Incident.request q false served :: (s.lost s').map .evicted).filterMap
      Incident.brought? = if served then [q] else [] := by
    rw [List.filterMap_cons, brought_evicted]
    cases served <;> rfl
  have hgone : (Incident.request q false served :: (s.lost s').map .evicted).filterMap
      Incident.gone? = s.lost s' :=
    (List.filterMap_cons_none rfl).trans (gone_evicted _)
  refine h.append ?_ ?_ ?_ fun p hp => ?_
  · have hevicted : TableStore.traffic ((s.lost s').map .evicted) =
        ⟨0, 0, .ofNat ((s.bump .misses).lost m).length, 0⟩ := by
      rw [TableStore.traffic, htally, hlost]
      rfl
    have hmiss : (s.bump .misses).traffic = s.traffic + ⟨0, 1, 0, 0⟩ :=
      Traffic.ext (UInt64.add_zero _).symm rfl (UInt64.add_zero _).symm (UInt64.add_zero _).symm
    have hrequest : TableStore.traffic [.request q false served] =
        ⟨0, 1, 0, 0⟩ + ⟨0, 0, 0, if served then 1 else 0⟩ := by
      cases served <;> rfl
    rw [← List.singleton_append, traffic_append, hrequest, hevicted, ht, hm.traffic_eq, hmiss,
      Traffic.add_right_comm, Traffic.add_assoc s.traffic, Traffic.add_assoc]
  · rw [hbrought, hgone]
    refine perm_lost (by cases served <;> simp) (fun p hp => ?_) fun p hp => ?_
    · cases served with
      | false => cases hp
      | true =>
        obtain rfl := List.mem_singleton.1 hp
        exact ⟨hq, (hkeys p).2 (.inr ⟨rfl, rfl⟩)⟩
    · rcases (hkeys p).1 hp with hp | ⟨rfl, rfl⟩
      · exact .inl (hm.keys p hp)
      · exact .inr List.mem_cons_self
  · simp only [tally, Tally.mk.injEq] at htally
    simp only [tally, List.countP_cons, htally]
    simpa [Incident.isEviction, Incident.isMiss] using hle
  · rcases List.mem_cons.1 hp with hp | hp
    · cases hp
    · obtain ⟨r, -, hr⟩ := List.mem_map.1 hp
      cases hr

/-- The pages in memory after one has been put in. -/
theorem mem_keys_put_iff {c : Cache} {page : Page} {clean : Bool} :
    q ∈ (c.put page clean).pages.keys ↔ q ∈ c.pages.keys ∨ q = page.id := by
  rw [Assoc.mem_keys_iff, Assoc.mem_keys_iff, Cache.get?_put]
  by_cases hq : q = page.id <;> simp [hq]

/-- The balance after a page has been asked for with its lock. -/
theorem Balanced.load (h : s.Balanced log) (hs : s.cache.Sound) (ha : t ∉ s.locks.aborted)
    (q : PageId) : (s.load t q).2.Balanced (log ++
      .request q (s.cache.pages.contains q) (s.load t q).1.isOk ::
        (s.lost (s.load t q).2).map .evicted) := by
  have hmissing : s.cache.pages.get? q = none →
      q ∉ s.cache.pages.keys ∧ s.cache.pages.contains q = false := fun hq =>
    ⟨Assoc.get?_eq_none_iff.1 hq, by rw [Assoc.contains, hq, Option.isSome_none]⟩
  rcases s.load_cases t q with ⟨hat, -⟩ | ⟨page, -, hq, he⟩ | ⟨e, -, hq, -, he⟩ |
    ⟨m, e, -, hq, hm, -, he⟩ | ⟨m, page, -, hq, hm, hr, he⟩
  · exact absurd hat ha
  · have hlost : s.lost ({ s with cache := s.cache.touch q }.bump .hits) = [] :=
      lost_eq_nil fun p hp => hp
    rw [he, hlost, Assoc.contains, hq, Option.isSome_some]
    refine h.append ?_ (.refl _) (Nat.le_refl 0) fun p hp => ?_
    · exact Traffic.ext rfl (UInt64.add_zero _).symm (UInt64.add_zero _).symm
        (UInt64.add_zero _).symm
    · cases List.mem_singleton.1 hp
  · obtain ⟨hout, hcontains⟩ := hmissing hq
    rw [he, hcontains]
    exact h.missed hout (.refl _) (fun p => by simp [Except.isOk, Except.toBool])
      (Traffic.add_zero _).symm
  · obtain ⟨hout, hcontains⟩ := hmissing hq
    rw [he, hcontains]
    exact h.missed hout (madeRoom hs hm) (fun p => by simp [Except.isOk, Except.toBool])
      (Traffic.add_zero _).symm
  · obtain ⟨hout, hcontains⟩ := hmissing hq
    rw [he, hcontains]
    refine h.missed hout (madeRoom hs hm) (fun p => ?_) ?_
    · rw [mem_keys_put_iff, (of_readPage hr).1]
      simp [Except.isOk, Except.toBool]
    · exact Traffic.ext (UInt64.add_zero _).symm (UInt64.add_zero _).symm (UInt64.add_zero _).symm
        rfl

/-! ## What a call does besides -/

/-- A search adds pages to files and brings none into memory. -/
theorem quiet_seek (s : Store) (t : TxnId) (search : SlotSearch) :
    s.Quiet (s.seek t search).2 := by
  obtain ⟨disk, he⟩ := (s.seek_rest t search).1
  rw [he]
  exact ⟨rfl, rfl⟩

/-- Before its first request a call brings and drops no page. -/
theorem quiet_start (s : Store) (t : TxnId) (call : Call) : s.Quiet (s.start t call).2 := by
  have hinsert : ∀ file row keep, s.Quiet (s.startInsert t file row keep).2 := by
    intro file row keep
    rw [startInsert]
    split
    · exact .refl s
    · exact s.quiet_seek t _
  have hremove : ∀ file row keep, s.Quiet (s.startRemove t file row keep).2 := by
    intro file row keep
    rw [startRemove]
    split
    · exact .refl s
    · split <;> exact .refl s
  rcases call with ⟨p, access⟩ | ⟨table, row⟩ | row | ⟨file, row⟩ | ⟨file, row⟩
  · exact .refl s
  · rw [start]
    split
    · exact .refl s
    · split
      · exact .refl s
      · exact hinsert _ _ _
  · rw [start]
    split
    · exact .refl s
    · split
      · exact .refl s
      · split
        · exact .refl s
        · exact hremove _ _ _
  · exact hinsert _ _ _
  · exact hremove _ _ _

theorem quiet_releasePage (s : Store) (t : TxnId) (p : PageId) :
    s.Quiet (s.releasePage t p).2 := by
  rw [releasePage]
  split <;> exact ⟨rfl, rfl⟩

theorem quiet_skipFull (s : Store) (t : TxnId) (p : PageId) (search : SlotSearch) :
    s.Quiet (s.skipFull t p search).2 := by
  have hrelease := s.quiet_releasePage t p
  rw [skipFull]
  split
  · exact s.quiet_seek t search
  · split
    · rename_i m he
      rwa [he] at hrelease
    · rename_i m he
      rw [he] at hrelease
      exact hrelease.trans (m.quiet_seek t search)

/-- A changed copy takes the place of its page, so that no page has to be read or to go. -/
theorem quiet_finishEdit {page : Page} {keep : Bool} {edit : Except Error (Page × Row)}
    (hs : s.cache.Sound) (ha : t ∉ s.locks.aborted) (hq : s.cache.pages.get? q = some page)
    (hid : ∀ copy row, edit = .ok (copy, row) → copy.id = page.id) :
    s.Quiet (s.finishEdit t keep edit).2 := by
  rcases edit with e | ⟨copy, row⟩
  · exact .refl s
  · cases keep with
    | false => exact .refl s
    | true =>
      have hcopy : s.cache.pages.get? copy.id = some page := by
        rw [hid copy row rfl, hs.keyed q page hq, hq]
      rw [finishEdit_of_cached row ha hcopy]
      refine ⟨?_, rfl⟩
      rw [edited, Cache.put, Assoc.keys_insert, if_pos (Assoc.mem_keys_iff.2 ⟨page, hcopy⟩)]

/-- Once the page is there, a call brings and drops none. -/
theorem quiet_resume (hs : s.cache.Sound) (p : Pending) :
    (s.load p.request.txn p.request.page).2.Quiet (s.resume p).2 := by
  have hrefreshes := refreshes_load hs p.request.txn p.request.page
  rw [resume]
  cases hload : s.load p.request.txn p.request.page with
  | mk result m =>
    rw [hload] at hrefreshes
    rcases result with e | page
    · exact .refl m
    · obtain ⟨hpage, ha⟩ := load_ok hload
      rw [← hrefreshes.locks_eq] at ha
      dsimp only
      rcases p.goal with _ | search | ⟨row, keep⟩
      · exact .refl m
      · dsimp only
        split
        · exact m.quiet_skipFull _ _ search
        · exact quiet_finishEdit hrefreshes.sound ha hpage fun _ _ he => Page.insert_id he
      · exact quiet_finishEdit hrefreshes.sound ha hpage fun _ _ he => Page.remove_id he

/-- The balance after a call has gone on with its lock. -/
theorem Balanced.resume (h : s.Balanced log) (hs : s.cache.Sound) {p : Pending}
    (ha : p.request.txn ∉ s.locks.aborted) : (s.resume p).2.Balanced (log ++
      .request p.request.page (s.cache.pages.contains p.request.page)
          (s.load p.request.txn p.request.page).1.isOk ::
        (s.lost (s.resume p).2).map .evicted) := by
  have hquiet := quiet_resume hs p
  have hlost : s.lost (s.resume p).2 = s.lost (s.load p.request.txn p.request.page).2 :=
    lost_congr fun r _ => by rw [hquiet.keys_eq]
  rw [hlost]
  exact (h.load hs ha p.request.page).quiet hquiet

/-! ## The end of a transaction, and what is done by hand -/

/-- A page that is written stays in memory, and a write is not counted here. -/
theorem quiet_flushPage (hf : s.flushPage q = .ok s') : s.Quiet s' := by
  rcases flushPage_cases hf with ⟨rfl, -⟩ | ⟨page, file, disk, hq, -, -, -, rfl⟩
  · exact .refl _
  · refine ⟨?_, rfl⟩
    rw [settled, Assoc.keys_insert, if_pos (Assoc.mem_keys_iff.2 ⟨page, hq⟩)]

theorem quiet_flushPages (s : Store) (ps : List PageId) : s.Quiet (s.flushPages ps).2 :=
  flushPages_induction (P := s.Quiet) (fun _ _ _ h hf => h.trans (quiet_flushPage hf)) ps (.refl s)

/-- A commit writes pages and drops none. -/
theorem quiet_commit (s : Store) (t : TxnId) : s.Quiet (s.commit t).2 := by
  have hf := s.quiet_flushPages (s.cache.dirtyPages t)
  rcases commit_cases s t with ⟨-, he⟩ | ⟨e, -, -, he⟩ | ⟨-, -, he⟩
  · rw [he]
    exact .refl s
  · rw [he]
    exact hf
  · rw [he]
    exact ⟨hf.keys_eq, hf.traffic_eq⟩

theorem mem_keys_of_dropAll {c : Cache} {ps : List PageId}
    (hq : q ∈ (c.dropAll ps).pages.keys) : q ∈ c.pages.keys := by
  rw [Assoc.mem_keys_iff, Cache.get?_dropAll] at hq
  split at hq
  · obtain ⟨page, hpage⟩ := hq
    cases hpage
  · exact Assoc.mem_keys_iff.2 hq

/-- An abort may drop pages. -/
theorem sheds_abort (s : Store) (t : TxnId) : s.Sheds (s.abort t) where
  keys p hp := by
    rw [abort] at hp
    split at hp <;> exact mem_keys_of_dropAll hp
  traffic_eq := by
    rw [abort]
    split <;> rfl

/-- So may the rollback of victims. -/
theorem sheds_rollBack (s : Store) (us : List TxnId) : s.Sheds (us.foldl rollBack s) := by
  refine List.foldlRecOn us rollBack (motive := s.Sheds) (Quiet.refl s).sheds fun m hm u _ => ?_
  exact ⟨fun p hp => hm.keys p (mem_keys_of_dropAll hp), hm.traffic_eq⟩

theorem sheds_discard (s : Store) (q : PageId) : s.Sheds (s.discard q) :=
  ⟨fun _ (hp : _ ∈ (s.cache.dropAll [q]).pages.keys) => mem_keys_of_dropAll hp, rfl⟩

end Store

end TableStore

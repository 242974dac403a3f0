import TableStore.Pool.Scan
import TableStore.Proofs.Page.Slots
import TableStore.Proofs.Pool.FirstFit

/-!
# Reading a page for a scan

Which rows a transaction reads on a page depends on the page only: they are those of its own copy,
or else those of the file.  Whether it gets the page at all may depend on what is in memory, for the
page may need room.  Once a page has been brought in, there is always room again; and if there was
none, there is none for the same page later, as long as nothing else happens.

## What is here

* `Store.AfterHolding` — the stores after deeds that leave the files to the pool and locks to their
  transactions.
* `Store.contents` — the rows of a page that a transaction sees, or why it sees none.
* `Store.Alike` — stores that differ in what was used when, and `AfterHolding.fetch_own` — reading
  an own copy makes no other difference.
* `Store.Roomy`, `Store.Starved` — there is room; there is none for a page whose lock is held.
* `AfterHolding.fetch_foreign` — reading a page without an own copy.
* `AfterHolding.fetch_alike`, `AfterHolding.fetch_starved` — when it is refused for want of room.
-/

set_option autoImplicit false
namespace TableStore

/-! ## Rows in the order of their slots -/

namespace Page

variable {page back : Page}

/-- The rows of a page are found slot by slot; it does no harm to look past the last one. -/
theorem rows_eq {n : Nat} (h : page.capacity ≤ n) :
    page.rows = (List.range n).filterMap page.row? := by
  obtain ⟨k, rfl⟩ := Nat.exists_eq_add_of_le h
  have htail : ((List.range k).map (page.capacity + ·)).filterMap page.row? = [] := by
    refine List.filterMap_eq_nil_iff.2 fun i hi => ?_
    obtain ⟨j, -, rfl⟩ := List.mem_map.1 hi
    exact row?_of_length_le (Nat.le_add_right _ _)
  rw [rows, slots_eq, List.filterMap_map, List.range_add, List.filterMap_append, htail,
    List.append_nil]
  rfl

/-- Pages with the same rows in the same slots, up to what is stored of them. -/
theorem rows_eq_map_stored (h : ∀ i, back.row? i = (page.row? i).map Row.stored) :
    back.rows = page.rows.map Row.stored := by
  rw [rows_eq (Nat.le_max_left back.capacity page.capacity),
    rows_eq (Nat.le_max_right back.capacity page.capacity), List.map_filterMap]
  exact List.filterMap_congr fun i _ => h i

end Page

namespace Store

variable {s₀ s m w : Store} {t : TxnId} {p : PageId} {page : Page} {n : Nat} {r : Request}
  {log : List PageId}

/-! ## Between deeds -/

/-- The stores after deeds of a single thread that give back no lock by hand, while tables and page
size stay the same and nobody else writes to the files. -/
structure AfterHolding (s₀ s : Store) : Prop where
  fresh : s₀.Fresh
  indexed : s₀.catalog.Indexed
  after : ∃ ds, After s₀ ds s ∧ (∀ d ∈ ds, d.registers = false ∧ d.foreign = false) ∧
    ∀ d ∈ ds, d.releases = false

namespace AfterHolding

theorem nobodyWaits (h : AfterHolding s₀ s) : s.NobodyWaits := by
  obtain ⟨ds, hafter, -, -⟩ := h.after
  exact hafter.nobodyWaits h.fresh.nobodyWaits

theorem matchesFiles (h : AfterHolding s₀ s) : s.MatchesFiles := by
  obtain ⟨ds, hafter, hfixed, hhand⟩ := h.after
  exact hafter.matchesFiles h.fresh h.indexed hfixed hhand

theorem agrees (h : AfterHolding s₀ s) : s.Agrees := by
  obtain ⟨ds, hafter, hfixed, -⟩ := h.after
  exact hafter.agrees h.fresh h.indexed hfixed

theorem stocked (h : AfterHolding s₀ s) : ∃ log, s.Stocked s₀.capacity log := by
  obtain ⟨ds, hafter, -, -⟩ := h.after
  obtain ⟨log, hused⟩ := Session.Used.after hafter
  exact ⟨log, hused.stocked h.fresh⟩

/-- A call is one more deed. -/
theorem perform (h : AfterHolding s₀ s) {call : Call} {reply : Reply}
    (hp : s.perform t call = some (reply, m)) : AfterHolding s₀ m := by
  obtain ⟨ds, hafter, hfixed, hhand⟩ := h.after
  refine ⟨h.fresh, h.indexed, _, hafter.deed (.call hp), ?_, ?_⟩
  · refine List.forall_mem_append.2 ⟨hfixed, List.forall_mem_singleton.2 ⟨rfl, rfl⟩⟩
  · exact List.forall_mem_append.2 ⟨hhand, List.forall_mem_singleton.2 rfl⟩

end AfterHolding

/-! ## What a transaction sees of a page -/

/-- The rows of a page that `t` sees, as they would be stored: those of its own copy, or else those
in the file, unless they cannot be read. -/
def contents (s : Store) (t : TxnId) (p : PageId) : Except Error (List Row) :=
  match s.own? t p with
  | some page => .ok (page.rows.map Row.stored)
  | none => (s.readPage p).map Page.rows

theorem contents_congr (hf : SameFiles s m) (ho : m.own? t p = s.own? t p) :
    m.contents t p = s.contents t p := by
  rw [contents, contents, ho, hf.readPage_eq]

theorem contents_of_own (h : s.own? t p = some page) :
    s.contents t p = .ok (page.rows.map Row.stored) := by
  rw [contents, h]

theorem contents_of_none (h : s.own? t p = none) :
    s.contents t p = (s.readPage p).map Page.rows := by
  rw [contents, h]

/-! ## A page that is fetched -/

/-- A transaction that is no victim gets the lock that it asks for, with two requests at most. -/
theorem NobodyWaits.lock_seized (h : s.NobodyWaits) (hr : r.txn ∉ s.locks.aborted) :
    ∃ w, s.lock 2 r = some (.ok (), w) ∧ Seized s r w := by
  rcases h.locks.consistent.acquire_cases r with
    ⟨l, -, hl, -⟩ | ⟨l, he, hl, hw⟩ | ⟨us, l, he, hs, hw⟩
  · exact absurd (hl.refused_iff.1 rfl) hr
  · exact ⟨_, lock_of_granted he 1, seized_of_looked hr hl hw⟩
  · have hstrike : Change r.txn (fun _ => False) s _ := .strike rfl hs hw
    have hquiet := hstrike.nobodyWaits h
    have hactive : r.txn ∉
        (us.foldl rollBack ({ s with locks := l }.bump .deadlocks)).locks.aborted := by
      rw [aborted_foldl_rollBack]
      exact fun ha => ((hs.mem_aborted _).1 ha).elim hs.active fun hm => ((hs.mem_iff _).1 hm).1 rfl
    obtain ⟨m, hm, hlook, hquiet⟩ := hquiet.locks.acquire_alone hactive fun u hu => h.alone hs hu
    exact ⟨_, (lock_of_deadlock he 1).trans (lock_of_granted hm 0),
      seized_of_struck h hs hw hlook hquiet⟩

/-- **A page is fetched by taking its lock and loading it.** -/
theorem NobodyWaits.perform_fetch (h : s.NobodyWaits) (ht : t ∉ s.locks.aborted) (p : PageId) :
    ∃ w, s.lock 2 ⟨t, p, .shared⟩ = some (.ok (), w) ∧ Seized s ⟨t, p, .shared⟩ w ∧
      s.perform t (Scan.call p) = some (⟨(w.load t p).1, none⟩, (w.load t p).2) := by
  obtain ⟨w, hlock, hw⟩ := h.lock_seized (r := ⟨t, p, .shared⟩) ht
  obtain ⟨k, hk, hfinish⟩ := finish_asking (p := ⟨⟨t, p, .shared⟩, .read⟩) hlock
  have hturns : k ≤ s.turns := by
    rw [turns]
    omega
  have hresume : w.resume ⟨⟨t, p, .shared⟩, .read⟩ =
      (.done ⟨(w.load t p).1, none⟩, (w.load t p).2) := by
    rw [resume]
    dsimp only
    cases w.load t p with
    | mk result m => cases result <;> rfl
  refine ⟨w, hlock, hw, perform_of_finish rfl hturns fun i => (hfinish i).trans ?_⟩
  rw [hresume, finish]

/-- A page that has been fetched has been visited. -/
theorem AfterHolding.visited (h : AfterHolding s₀ s) (ht : t ∉ s.locks.aborted) {reply : Reply}
    (hp : s.perform t (Scan.call p) = some (reply, m)) :
    Visited s ⟨t, p, .shared⟩ reply.result m := by
  obtain ⟨w, -, hw, hperform⟩ := h.nobodyWaits.perform_fetch ht p
  cases hperform.symm.trans hp
  exact hw.visited h.nobodyWaits rfl

/-! ## Stores that differ in what was used when

A scan that goes over own copies again makes them the most recently used, and counts hits.  Nothing
that it is handed depends on either. -/

/-- The store `m` differs from `s` at most in what was used when, and in what has been counted. -/
def Alike (s m : Store) : Prop :=
  ∃ recency stats, m = { s with cache := { s.cache with recency }, stats }

namespace Alike

theorem refl (s : Store) : Alike s s := ⟨s.cache.recency, s.stats, rfl⟩

theorem symm (h : Alike s m) : Alike m s := by
  obtain ⟨_, _, rfl⟩ := h
  exact ⟨s.cache.recency, s.stats, rfl⟩

theorem trans (h : Alike s m) (h' : Alike m w) : Alike s w := by
  obtain ⟨_, _, rfl⟩ := h
  obtain ⟨recency, stats, rfl⟩ := h'
  exact ⟨recency, stats, rfl⟩

theorem pages_eq (h : Alike s m) : m.cache.pages = s.cache.pages := by
  obtain ⟨_, _, rfl⟩ := h
  rfl

theorem locks_eq (h : Alike s m) : m.locks = s.locks := by
  obtain ⟨_, _, rfl⟩ := h
  rfl

theorem capacity_eq (h : Alike s m) : m.capacity = s.capacity := by
  obtain ⟨_, _, rfl⟩ := h
  rfl

theorem files (h : Alike s m) : SameFiles s m := by
  obtain ⟨_, _, rfl⟩ := h
  exact ⟨rfl, rfl, rfl⟩

theorem own?_eq (h : Alike s m) (t : TxnId) (p : PageId) : m.own? t p = s.own? t p := by
  rw [own?, own?, h.pages_eq]

theorem rollBack (h : Alike s m) (u : TxnId) : Alike (s.rollBack u) (m.rollBack u) := by
  have hdrop : ∀ (ps : List PageId) (c d : Cache), d.pages = c.pages →
      (d.dropAll ps).pages = (c.dropAll ps).pages := by
    intro ps
    induction ps with
    | nil => exact fun c d hc => hc
    | cons q ps ih => exact fun c d hc => ih _ _ (congrArg (Assoc.erase · q) hc)
  obtain ⟨recency, stats, rfl⟩ := h
  have hpages := hdrop (s.cache.dirtyPages u) s.cache { s.cache with recency } rfl
  refine ⟨(Cache.dropAll { s.cache with recency } (s.cache.dirtyPages u)).recency, stats, ?_⟩
  rw [Store.rollBack, Store.rollBack]
  dsimp only
  rw [← hpages]
  rfl

theorem foldl_rollBack (h : Alike s m) (us : List TxnId) :
    Alike (us.foldl Store.rollBack s) (us.foldl Store.rollBack m) := by
  induction us generalizing s m with
  | nil => exact h
  | cons u us ih => exact ih (h.rollBack u)

/-- Locks are taken alike. -/
theorem lock (h : Alike s m) {x : Except Error Unit} (hl : s.lock n r = some (x, w)) :
    ∃ w', m.lock n r = some (x, w') ∧ Alike w w' := by
  induction n generalizing s m with
  | zero => cases hl
  | succ n ih =>
    rw [Store.lock] at hl
    rw [Store.lock, h.locks_eq]
    cases hacquire : s.locks.acquire r with
    | mk verdict l =>
      rw [hacquire] at hl
      have hlocked : Alike { s with locks := l } { m with locks := l } := by
        obtain ⟨recency, stats, rfl⟩ := h
        exact ⟨recency, stats, rfl⟩
      cases verdict with
      | granted =>
        cases hl
        exact ⟨_, rfl, hlocked⟩
      | refused =>
        cases hl
        exact ⟨_, rfl, hlocked⟩
      | deadlock us =>
        have hcounted : Alike ({ s with locks := l }.bump .deadlocks)
            ({ m with locks := l }.bump .deadlocks) := by
          obtain ⟨recency, stats, hm⟩ := hlocked
          exact ⟨recency, stats.bump .deadlocks, by rw [hm]; rfl⟩
        exact ih (hcounted.foldl_rollBack us) hl

end Alike

/-! ## An own copy -/

/-- **Reading an own copy changes nothing but what was used when.** -/
theorem AfterHolding.fetch_own (h : AfterHolding s₀ s) (ht : t ∉ s.locks.aborted)
    (hown : s.own? t p = some page) :
    ∃ m, s.perform t (Scan.call p) = some (⟨.ok page, none⟩, m) ∧ Alike s m := by
  obtain ⟨hp, hd⟩ := own?_eq_some_iff.1 hown
  obtain ⟨w, hlock, -, hperform⟩ := h.nobodyWaits.perform_fetch ht p
  -- the lock is there already, so taking it changes nothing
  have hacquire : s.locks.acquire ⟨t, p, .shared⟩ = (.granted, s.locks) :=
    h.nobodyWaits.locks.consistent.acquire_of_exclusive ht
      (h.matchesFiles.changesLocked.owned t p page hp hd)
  have hsame : w = s := by
    rw [lock_of_granted hacquire 1] at hlock
    exact (Prod.mk.inj (Option.some.inj hlock)).2.symm
  have hload : s.load t p = (.ok page, { s with cache := s.cache.touch p }.bump .hits) := by
    rw [load, if_neg (by simpa [LockTable.isAborted] using ht), hp]
  rw [hsame, hload] at hperform
  exact ⟨_, hperform, (s.cache.touch p).recency, s.stats.bump .hits, rfl⟩

/-! ## Room

Room is a matter of the pages in memory alone: there are fewer than may be, or one of them is
clean. -/

/-- There is room for a page, or a clean page can make room for it. -/
def Roomy (s : Store) : Prop :=
  s.cache.size < s.capacity ∨ ∃ q page, s.cache.pages.get? q = some page ∧ page.dirtier = none

/-- A page cannot be brought in, though its lock has been taken. -/
structure Starved (s : Store) (t : TxnId) (p : PageId) : Prop where
  held : s.locks.heldMode? t p ≠ none
  missing : s.cache.pages.get? p = none
  full : ¬ s.Roomy

theorem Alike.roomy_iff (h : Alike s m) : m.Roomy ↔ s.Roomy := by
  rw [Roomy, Roomy, Cache.size, Cache.size, h.pages_eq, h.capacity_eq]

theorem Alike.starved (h : Alike s m) (hs : s.Starved t p) : m.Starved t p where
  held := h.locks_eq.symm ▸ hs.held
  missing := h.pages_eq.symm ▸ hs.missing
  full := fun hm => hs.full (h.roomy_iff.1 hm)

/-- Taking a lock takes away no room. -/
theorem Yielded.roomy (h : Yielded t s w) (hs : s.Roomy) : w.Roomy := by
  rcases hs with hlt | ⟨q, page, hq, hclean⟩
  · exact .inl (Nat.lt_of_le_of_lt h.size_le (h.capacity_eq.symm ▸ hlt))
  · exact .inr ⟨q, page, h.clean q page hq hclean, hclean⟩

/-- The record of accesses goes on when a lock is taken. -/
theorem Stocked.lock {k : Nat} (h : s.Stocked n log) {x : Except Error Unit}
    (hl : s.lock k r = some (x, w)) : w.Stocked n log := by
  induction k generalizing s with
  | zero => cases hl
  | succ k ih =>
    rw [Store.lock] at hl
    split at hl
    · cases hl
      exact h.congr rfl rfl
    · cases hl
      exact h.congr rfl rfl
    · rename_i us l _
      have hcounted : ({ s with locks := l }.bump .deadlocks).Stocked n log := h.congr rfl rfl
      exact ih (hcounted.rollBack us) hl

/-- There is no room for a page that is not in memory if there is none at all, and only then. -/
theorem Stocked.load_refused_iff (h : s.Stocked n log) (ht : t ∉ s.locks.aborted) {k : Nat} :
    (s.load t p).1 = .error (.poolFull k) ↔
      k = s.capacity ∧ s.cache.pages.get? p = none ∧ ¬ s.Roomy := by
  have hsize := h.size_le
  have hcap := h.capacity_eq
  have hfull : ¬ s.Roomy ↔ s.cache.size = n ∧
      ∀ q page, s.cache.pages.get? q = some page → page.dirtier ≠ none := by
    simp only [Roomy, not_or, not_exists, not_and, Nat.not_lt, ne_eq]
    refine and_congr_left fun _ => ?_
    omega
  rw [h.load_poolFull_iff ht, hfull, Assoc.get?_eq_none_iff, hcap]

/-- If no room can be made, the pool is full. -/
theorem poolFull_of_makeRoom {e : Error} (h : s.makeRoom = .error e) :
    e = .poolFull s.capacity := by
  rcases s.makeRoom_cases with ⟨-, hok⟩ | ⟨-, -, herr⟩ | ⟨c, -, -, hok⟩
  · rw [hok] at h
    cases h
  · rw [herr] at h
    cases h
    rfl
  · rw [hok] at h
    cases h

/-- A page that is refused for want of room leaves everything as it is. -/
theorem load_refused {k : Nat} (h : (s.load t p).1 = .error (.poolFull k)) :
    (s.load t p).2 = s.bump .misses := by
  rcases s.load_cases t p with ⟨-, he⟩ | ⟨page, -, -, he⟩ | ⟨e, -, -, -, he⟩ |
    ⟨m, e, -, -, -, hr, he⟩ | ⟨m, page, -, -, -, -, he⟩
  · rw [he] at h
    cases h
  · rw [he] at h
    cases h
  · rw [he]
  · rw [he] at h
    cases h
    exact absurd hr (readPage_ne_poolFull m p k)
  · rw [he] at h
    cases h

/-- A page that is not refused for want of room is in memory, or room is made and it is read from its
file. -/
theorem load_unrefused (ht : t ∉ s.locks.aborted)
    (hnot : ∀ k, (s.load t p).1 ≠ .error (.poolFull k)) :
    (∃ page, s.cache.pages.get? p = some page ∧
      s.load t p = (.ok page, { s with cache := s.cache.touch p }.bump .hits)) ∨
    ∃ m, (s.bump .misses).makeRoom = .ok m ∧
      ((∃ e, m.readPage p = .error e ∧ s.load t p = (.error e, m)) ∨
        ∃ page, m.readPage p = .ok page ∧
          s.load t p = (.ok page, { m.bump .reads with cache := m.cache.put page true })) := by
  rcases s.load_cases t p with ⟨ha, -⟩ | ⟨page, -, hp, he⟩ | ⟨e, -, -, hroom, he⟩ |
    ⟨m, e, -, -, hroom, hr, he⟩ | ⟨m, page, -, -, hroom, hr, he⟩
  · exact absurd ha ht
  · exact .inl ⟨page, hp, he⟩
  · rw [he] at hnot
    rw [poolFull_of_makeRoom hroom] at hnot
    exact absurd rfl (hnot _)
  · exact .inr ⟨m, hroom, .inl ⟨e, hr, he⟩⟩
  · exact .inr ⟨m, hroom, .inr ⟨page, hr, he⟩⟩

/-- Where a page has been loaded, or only the file was in the way, there is room. -/
theorem Stocked.roomy_load (h : s.Stocked n log) (ht : t ∉ s.locks.aborted)
    (hclean : ∀ page, s.cache.pages.get? p = some page → page.dirtier = none)
    (hnot : ∀ k, (s.load t p).1 ≠ .error (.poolFull k)) : (s.load t p).2.Roomy := by
  have hcounted : (s.bump .misses).Stocked n log := h.congr rfl rfl
  rcases load_unrefused ht hnot with ⟨page, hp, he⟩ | ⟨m, hroom, ⟨e, -, he⟩ | ⟨page, hr, he⟩⟩
  · rw [he]
    exact .inr ⟨p, page, hp, hclean page hp⟩
  · rw [he]
    obtain ⟨hm, hlt⟩ := hcounted.makeRoom hroom
    exact .inl (hm.capacity_eq.symm ▸ hlt)
  · rw [he]
    refine .inr ⟨page.id, page, ?_, (of_readPage hr).2⟩
    exact (Cache.get?_put _ _ _ _).trans (if_pos rfl)

/-! ## A page without an own copy -/

/-- A page that a transaction has not changed is clean once the transaction holds its lock. -/
theorem Seized.clean_of_foreign (h : Seized s ⟨t, p, .shared⟩ w) (hc : s.NobodyWaits)
    (hg : s.ChangesLocked)
    (hown : s.own? t p = none) (hp : w.cache.pages.get? p = some page) : page.dirtier = none := by
  refine Option.eq_none_iff_forall_ne_some.2 fun u hd => ?_
  have hheld := h.added p
  rw [if_pos rfl] at hheld
  obtain rfl := (h.changesLocked hg).eq_of_owned hp hd hheld
  have hw := (h.changes fun _ => False).own?_eq hc p
  rw [hown, own?, hp, Option.filter_some, hd, decide_eq_true rfl] at hw
  cases hw

/-- What has been read is not cut when it is stored. -/
theorem rows_of_readPage (h : s.readPage p = .ok page) : page.rows.map Row.stored = page.rows := by
  obtain ⟨file, -, hstored⟩ := readPage_home h
  exact (Page.rows_eq_map_stored fun i => (hstored i).symm).symm

/-- What is loaded of a page without an own copy is what the file holds. -/
theorem AfterHolding.load_contents (h : AfterHolding s₀ s) (hw : Seized s ⟨t, p, .shared⟩ w)
    (hown : s.own? t p = none) (hnot : ∀ k, (w.load t p).1 ≠ .error (.poolFull k)) :
    (w.load t p).1.map (fun page => page.rows.map Row.stored) = s.contents t p := by
  have hsound := ((hw.changes fun _ => False).nobodyWaits h.nobodyWaits).sound
  have hread : (w.load t p).2.readPage p = s.readPage p :=
    ((refreshes_load hsound t p).readPage_eq p).trans (hw.files.readPage_eq p)
  rw [contents_of_none hown, ← hread]
  rcases load_unrefused hw.active hnot with ⟨page, hp, he⟩ | ⟨m, -, ⟨e, hr, he⟩ | ⟨page, hr, he⟩⟩
  · -- the page is in memory, and clean, so the file holds its rows
    have hclean := hw.clean_of_foreign h.nobodyWaits h.matchesFiles.changesLocked hown hp
    obtain ⟨back, hback, hrows⟩ := h.agrees p page (hw.origin p page hp) hclean
    rw [hread, hback, he]
    exact congrArg Except.ok (Page.rows_eq_map_stored hrows).symm
  · rw [he]
    exact (congrArg (Except.map Page.rows) hr).symm
  · rw [he]
    refine Eq.trans ?_ (congrArg (Except.map Page.rows) hr).symm
    exact congrArg Except.ok (rows_of_readPage hr)

/-- **Reading a page without an own copy** either fails for want of room, or tells what the file
holds, and then there is room. -/
theorem AfterHolding.fetch_foreign (h : AfterHolding s₀ s) (ht : t ∉ s.locks.aborted)
    (hown : s.own? t p = none) :
    ∃ result m, s.perform t (Scan.call p) = some (⟨result, none⟩, m) ∧
      (result = .error (.poolFull s.capacity) ∧ ¬ s.Roomy ∧ m.Starved t p ∨
        result.map (fun page => page.rows.map Row.stored) = s.contents t p ∧ m.Roomy ∧
          ∀ k, result ≠ .error (.poolFull k)) := by
  obtain ⟨log, hstocked⟩ := h.stocked
  obtain ⟨w, hlock, hw, hperform⟩ := h.nobodyWaits.perform_fetch ht p
  have hws := hstocked.lock hlock
  refine ⟨_, _, hperform, ?_⟩
  by_cases hfull : ∃ k, (w.load t p).1 = .error (.poolFull k)
  · left
    obtain ⟨k, hk⟩ := hfull
    obtain ⟨rfl, hmissing, hnone⟩ := (hws.load_refused_iff hw.active).1 hk
    refine ⟨hw.capacity_eq ▸ hk, fun hroomy => hnone (hw.roomy hroomy), ?_⟩
    rw [load_refused hk]
    refine ⟨?_, hmissing, hnone⟩
    have hadded := hw.added p
    rw [if_pos rfl] at hadded
    exact fun hn => by cases hn.symm.trans hadded
  · right
    have hnot : ∀ k, (w.load t p).1 ≠ .error (.poolFull k) := fun k hk => hfull ⟨k, hk⟩
    exact ⟨h.load_contents hw hown hnot,
      hws.roomy_load hw.active
        (fun page => hw.clean_of_foreign h.nobodyWaits h.matchesFiles.changesLocked hown) hnot,
      hnot⟩

/-- Stores that are alike refuse alike for want of room. -/
theorem AfterHolding.fetch_alike (h : AfterHolding s₀ s) (hm : AfterHolding s₀ m) (ha : Alike s m)
    (ht : t ∉ s.locks.aborted) {k : Nat} {reply : Reply} {s' : Store}
    (hs : s.perform t (Scan.call p) = some (reply, s'))
    (hk : reply.result = .error (.poolFull k)) :
    ∃ m', m.perform t (Scan.call p) = some (⟨.error (.poolFull k), none⟩, m') := by
  obtain ⟨log, hstocked⟩ := h.stocked
  obtain ⟨log', hstocked'⟩ := hm.stocked
  obtain ⟨w, hlock, hw, hperform⟩ := h.nobodyWaits.perform_fetch ht p
  obtain ⟨w', hlock', hw', hperform'⟩ := hm.nobodyWaits.perform_fetch (ha.locks_eq.symm ▸ ht) p
  obtain ⟨w'', hlock'', halike⟩ := ha.lock hlock
  cases hlock'.symm.trans hlock''
  cases hperform.symm.trans hs
  obtain ⟨hcap, hmissing, hfull⟩ := ((hstocked.lock hlock).load_refused_iff hw.active).1 hk
  have hrefused : (w'.load t p).1 = .error (.poolFull k) := by
    refine ((hstocked'.lock hlock').load_refused_iff hw'.active).2 ⟨?_, ?_, ?_⟩
    · rw [halike.capacity_eq, hcap]
    · rw [halike.pages_eq, hmissing]
    · rwa [halike.roomy_iff]
  exact ⟨_, hrefused ▸ hperform'⟩

/-- There is no room as long as there was none and the lock is held. -/
theorem AfterHolding.fetch_starved (h : AfterHolding s₀ s) (ht : t ∉ s.locks.aborted)
    (hst : s.Starved t p) :
    ∃ m, s.perform t (Scan.call p) = some (⟨.error (.poolFull s.capacity), none⟩, m) ∧
      m.Starved t p := by
  obtain ⟨log, hstocked⟩ := h.stocked
  obtain ⟨w, hlock, hw, hperform⟩ := h.nobodyWaits.perform_fetch ht p
  have hws := hstocked.lock hlock
  have hcovered : s.locks.Covered ⟨t, p, .shared⟩ := by
    obtain ⟨mode, hmode⟩ := Option.ne_none_iff_exists'.1 hst.held
    cases mode with
    | shared => exact .inl hmode
    | exclusive => exact .inr hmode
  -- the lock is held, so nobody is rolled back for it
  have hgranted := h.nobodyWaits.locks.consistent.acquire_of_covered ht hcovered
  have hacquire : s.locks.acquire ⟨t, p, .shared⟩ =
      (.granted, (s.locks.acquire ⟨t, p, .shared⟩).2) := by
    rw [← hgranted]
  rw [lock_of_granted hacquire 1] at hlock
  obtain rfl := (Prod.mk.inj (Option.some.inj hlock)).2
  have hrefused := (hws.load_refused_iff hw.active).2 ⟨rfl, hst.missing, hst.full⟩
  refine ⟨_, hrefused ▸ hperform, ?_⟩
  rw [load_refused hrefused]
  refine ⟨fun hn => ?_, hst.missing, hst.full⟩
  have hadded := hw.added p
  rw [if_pos rfl] at hadded
  cases hn.symm.trans hadded

end Store
end TableStore

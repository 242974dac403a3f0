import TableStore.Proofs.Page.Format
import TableStore.Proofs.Pool.Kept
import TableStore.Proofs.Pool.Move

/-!
# Room for pages

A call that has been granted its lock brings a page into memory, for which another page may have to
go, and may put a changed copy in its place.  Here it is told which accesses that is, which page
goes, and when there is no room.

## What is here

* `Store.resumeUses` — the accesses of a call: the page that is handed out and the copy that is
  installed.  `Stocked.resume` says that the record of accesses keeps up with them.
* `Stocked.gone_resume` — a page goes only if the pool is full and the page is the stalest.
* `Stocked.load_poolFull_iff` — when there is no room for a page.
-/

set_option autoImplicit false
namespace TableStore

variable {n : Nat} {log : List PageId} {t : TxnId} {p : Pending} {q : PageId}

/-! ## Accesses -/

namespace Store

variable {s s' m : Store}

theorem Stocked.congr (h : s.Stocked n log) (hc : s'.cache = s.cache)
    (hk : s'.capacity = s.capacity) : s'.Stocked n log :=
  ⟨hc ▸ h.kept, hk.trans h.capacity_eq, hc ▸ h.size_le⟩

/-- The access when a changed copy is handed out: the copy is installed if it is to be kept. -/
def editUses (s : Store) (t : TxnId) (keep : Bool) : Except Error (Page × Row) → List PageId
  | .error _ => []
  | .ok (copy, _) => if keep then s.installUses t copy else []

/-- The accesses of a call once its lock has been granted. -/
def resumeUses (s : Store) (p : Pending) : List PageId :=
  s.loadUses p.request.txn p.request.page ++
    match s.load p.request.txn p.request.page with
    | (.error _, _) => []
    | (.ok page, s) =>
      match p.goal with
      | .read => []
      | .take row keep => s.editUses p.request.txn keep (page.remove row)
      | .place search =>
        if page.freeSlots = [] then []
        else s.editUses p.request.txn search.keep (page.insert search.row)

theorem Stocked.finishEdit (h : s.Stocked n log) (t : TxnId) (keep : Bool)
    (edit : Except Error (Page × Row)) :
    (s.finishEdit t keep edit).2.Stocked n (log ++ s.editUses t keep edit) := by
  rw [Store.finishEdit.eq_def, editUses.eq_def]
  cases edit with
  | error e => simpa using h
  | ok edit =>
    dsimp only
    cases keep with
    | true => exact h.install t edit.1
    | false => simpa using h

theorem skipFull_rest (s : Store) (t : TxnId) (q : PageId) (search : SlotSearch) :
    (s.skipFull t q search).2.cache = s.cache ∧
      (s.skipFull t q search).2.capacity = s.capacity := by
  have hseek : ∀ m : Store, (m.seek t search).2.cache = m.cache ∧
      (m.seek t search).2.capacity = m.capacity := fun m => by
    obtain ⟨disk, he⟩ := (m.seek_rest t search).1
    rw [he]
    exact ⟨rfl, rfl⟩
  rw [skipFull]
  split
  · exact hseek s
  · rw [releasePage]
    cases s.locks.release t q with
    | error e => exact ⟨rfl, rfl⟩
    | ok locks => exact hseek { s with locks }

/-- Before its first request a call does nothing to the cache. -/
theorem start_rest (s : Store) (t : TxnId) (call : Call) :
    (s.start t call).2.cache = s.cache ∧ (s.start t call).2.capacity = s.capacity := by
  have hinsert : ∀ file row keep, (s.startInsert t file row keep).2.cache = s.cache ∧
      (s.startInsert t file row keep).2.capacity = s.capacity := by
    intro file row keep
    rw [startInsert]
    split
    · exact ⟨rfl, rfl⟩
    · obtain ⟨disk, he⟩ := (s.seek_rest t _).1
      rw [he]
      exact ⟨rfl, rfl⟩
  have hremove : ∀ file row keep, (s.startRemove t file row keep).2.cache = s.cache ∧
      (s.startRemove t file row keep).2.capacity = s.capacity := by
    intro file row keep
    rw [startRemove]
    split
    · exact ⟨rfl, rfl⟩
    · split <;> exact ⟨rfl, rfl⟩
  cases call with
  | fetch p access => exact ⟨rfl, rfl⟩
  | insert table row =>
    rw [start]
    split
    · exact ⟨rfl, rfl⟩
    · split
      · exact ⟨rfl, rfl⟩
      · exact hinsert _ _ _
  | remove row =>
    rw [start]
    split
    · exact ⟨rfl, rfl⟩
    · split
      · exact ⟨rfl, rfl⟩
      · split
        · exact ⟨rfl, rfl⟩
        · exact hremove _ _ _
  | insertCopy file row => exact hinsert _ _ _
  | removeCopy file row => exact hremove _ _ _

/-- What a call does with its lock keeps the cache and its record of accesses together. -/
theorem Stocked.resume (h : s.Stocked n log) (p : Pending) :
    (s.resume p).2.Stocked n (log ++ s.resumeUses p) := by
  have hl := h.load p.request.txn p.request.page
  rw [Store.resume, resumeUses, ← List.append_assoc]
  cases hload : s.load p.request.txn p.request.page with
  | mk result m =>
    rw [hload] at hl
    cases result with
    | error e => simpa using hl
    | ok page =>
      dsimp only
      cases p.goal with
      | read => simpa using hl
      | take row keep => exact hl.finishEdit _ keep _
      | place search =>
        dsimp only
        split
        · obtain ⟨hc, hk⟩ := m.skipFull_rest p.request.txn p.request.page search
          simpa using hl.congr hc hk
        · exact hl.finishEdit _ _ _

/-! ### Pages that go

The pages in memory are compared before and after.  A page that is loaded makes one go at most, and
what is done with it afterwards makes none go. -/

/-- A page goes while room is made only if the pool is full and the page is the stalest. -/
theorem Stocked.gone_makeRoom (h : s.Stocked n log) (hm : s.makeRoom = .ok m)
    (hq : q ∈ s.cache.pages.keys) (hn : q ∉ m.cache.pages.keys) :
    s.cache.size = n ∧ s.cache.Stalest log q := by
  rcases s.makeRoom_cases with ⟨-, he⟩ | ⟨-, -, he⟩ | ⟨c, hle, hc, he⟩
  · rw [he] at hm
    cases hm
    exact absurd hq hn
  · rw [he] at hm
    cases hm
  · rw [he] at hm
    cases hm
    obtain ⟨v, rfl, hv⟩ := h.kept.evict? hc
    have hqv : q = v := by
      by_contra hne
      refine hn ?_
      simp only [bump, Cache.drop, Assoc.keys_erase, List.mem_filter]
      exact ⟨hq, by simpa using hne⟩
    rw [hqv]
    have := h.size_le
    have := h.capacity_eq
    exact ⟨by omega, hv⟩

/-- Where room has been made there was room, or a clean page. -/
theorem Stocked.not_full_of_makeRoom (h : s.Stocked n log) (hm : s.makeRoom = .ok m) :
    ¬ (s.cache.size = n ∧
      ∀ r page, s.cache.pages.get? r = some page → page.dirtier ≠ none) := by
  rintro ⟨hsize, hdirty⟩
  have hnone := h.kept.evict?_eq_none_iff.2 hdirty
  have hcap := h.capacity_eq
  rcases s.makeRoom_cases with ⟨hlt, -⟩ | ⟨-, -, he⟩ | ⟨c, -, hc, -⟩
  · omega
  · rw [he] at hm
    cases hm
  · rw [hnone] at hc
    cases hc

theorem mem_keys_put {c : Cache} {page : Page} {clean : Bool} (hq : q ∈ c.pages.keys) :
    q ∈ (c.put page clean).pages.keys := by
  rw [Cache.put, Assoc.keys_insert]
  split
  · exact hq
  · exact List.mem_append_left _ hq

theorem Stocked.gone_load (h : s.Stocked n log) {r : PageId} (hq : q ∈ s.cache.pages.keys)
    (hn : q ∉ (s.load t r).2.cache.pages.keys) : s.cache.size = n ∧ s.cache.Stalest log q := by
  have hb : (s.bump .misses).Stocked n log := ⟨h.kept, h.capacity_eq, h.size_le⟩
  rcases s.load_cases t r with ⟨-, he⟩ | ⟨page, -, -, he⟩ | ⟨e, -, -, -, he⟩ |
    ⟨m, e, -, -, hm, -, he⟩ | ⟨m, page, -, -, hm, -, he⟩
  · rw [he] at hn
    exact absurd hq hn
  · rw [he] at hn
    exact absurd hq hn
  · rw [he] at hn
    exact absurd hq hn
  · rw [he] at hn
    exact hb.gone_makeRoom hm hq hn
  · rw [he] at hn
    exact hb.gone_makeRoom hm hq fun hmem => hn (mem_keys_put hmem)

/-- The copy of a page in memory takes the place of the page, so that no other page goes. -/
theorem mem_keys_finishEdit {r : PageId} {page : Page} {keep : Bool}
    {edit : Except Error (Page × Row)} (hs : m.cache.Sound)
    (hp : m.cache.pages.get? r = some page)
    (hid : ∀ copy row, edit = .ok (copy, row) → copy.id = page.id) (hq : q ∈ m.cache.pages.keys) :
    q ∈ (m.finishEdit t keep edit).2.cache.pages.keys := by
  rw [Store.finishEdit.eq_def]
  cases edit with
  | error e => exact hq
  | ok edit =>
    obtain ⟨copy, row⟩ := edit
    dsimp only
    split
    · have hcopy : copy.id ∈ m.cache.pages.keys := by
        rw [hid copy row rfl, hs.keyed r page hp]
        exact Assoc.mem_keys_iff.2 ⟨page, hp⟩
      rcases m.install_cases t copy with ⟨-, he⟩ | ⟨e, hnot, -, -⟩ | ⟨m', hm', he⟩
      · rw [he]
        exact hq
      · exact absurd hcopy hnot
      · rcases hm' with ⟨rfl, -⟩ | ⟨hnot, -⟩
        · rw [he]
          exact mem_keys_put hq
        · exact absurd hcopy hnot
    · exact hq

/-- Once the page is there nothing goes any more. -/
theorem mem_keys_resume (hs : s.cache.Sound) {p : Pending}
    (hq : q ∈ (s.load p.request.txn p.request.page).2.cache.pages.keys) :
    q ∈ (s.resume p).2.cache.pages.keys := by
  have hsound := (refreshes_load hs p.request.txn p.request.page).sound
  rw [Store.resume]
  cases hload : s.load p.request.txn p.request.page with
  | mk result m =>
    rw [hload] at hq hsound
    cases result with
    | error e => exact hq
    | ok page =>
      obtain ⟨hpage, -⟩ := load_ok hload
      dsimp only
      cases p.goal with
      | read => exact hq
      | take row keep => exact mem_keys_finishEdit hsound hpage (fun _ _ he => Page.remove_id he) hq
      | place search =>
        dsimp only
        split
        · rw [(m.skipFull_rest _ _ search).1]
          exact hq
        · exact mem_keys_finishEdit hsound hpage (fun _ _ he => Page.insert_id he) hq

theorem Stocked.gone_resume (h : s.Stocked n log) (hq : q ∈ s.cache.pages.keys)
    (hn : q ∉ (s.resume p).2.cache.pages.keys) : s.cache.size = n ∧ s.cache.Stalest log q :=
  h.gone_load hq fun hmem => hn (mem_keys_resume h.kept.sound hmem)

/-- Pages that are written stay. -/
theorem mem_keys_commit (t : TxnId) (hq : q ∈ s.cache.pages.keys) :
    q ∈ (s.commit t).2.cache.pages.keys := by
  have hf : q ∈ (s.flushPages (s.cache.dirtyPages t)).2.cache.pages.keys := by
    refine flushPages_induction (P := fun m => q ∈ m.cache.pages.keys)
      (fun m r m' hm hr => ?_) _ hq
    rcases flushPage_cases hr with ⟨rfl, -⟩ | ⟨page, file, disk, hp, -, -, -, rfl⟩
    · exact hm
    · rw [settled, Assoc.keys_insert, if_pos (Assoc.mem_keys_iff.2 ⟨page, hp⟩)]
      exact hm
  rcases commit_cases s t with ⟨-, he⟩ | ⟨e, -, -, he⟩ | ⟨-, -, he⟩
  · rw [he]
    exact hq
  · rw [he]
    exact hf
  · rw [he]
    exact hf

/-! ### A full pool

A call is refused for want of room in one case only.  The pages that could go are the clean ones, so
all pages in memory have to be dirty. -/

/-- A page that cannot be read is never refused for want of room. -/
theorem readPage_ne_poolFull (s : Store) (q : PageId) (k : Nat) :
    s.readPage q ≠ .error (.poolFull k) := by
  intro h
  rw [readPage] at h
  split at h
  · rename_i e he
    cases h
    rw [Catalog.file, Catalog.table] at he
    split at he <;> cases he
  · rw [TableFile.readPage] at h
    split at h
    · obtain ⟨c, hc⟩ := Page.decode_error h
      cases hc
    · cases h

/-- **There is no room for a page if it is not in memory, the pool is full and every page in memory
is dirty**, and only then. -/
theorem Stocked.load_poolFull_iff (h : s.Stocked n log) (ha : t ∉ s.locks.aborted) {q : PageId}
    {k : Nat} :
    (s.load t q).1 = .error (.poolFull k) ↔ k = n ∧ q ∉ s.cache.pages.keys ∧ s.cache.size = n ∧
      ∀ r page, s.cache.pages.get? r = some page → page.dirtier ≠ none := by
  have hsize := h.size_le
  have hcap := h.capacity_eq
  have hb : (s.bump .misses).Stocked n log := ⟨h.kept, hcap, hsize⟩
  rcases s.load_cases t q with ⟨hm, -⟩ | ⟨page, -, hq, he⟩ | ⟨e, -, hq, hroom, he⟩ |
    ⟨m, e, -, hq, hroom, hr, he⟩ | ⟨m, page, -, hq, hroom, -, he⟩
  · exact absurd hm ha
  · rw [he]
    refine iff_of_false (fun h => by cases h) fun hfull => hfull.2.1 ?_
    exact Assoc.mem_keys_iff.2 ⟨page, hq⟩
  · rw [he]
    rcases (s.bump .misses).makeRoom_cases with ⟨-, hok⟩ | ⟨hle, hnone, herr⟩ | ⟨c, -, -, hok⟩
    · rw [hok] at hroom
      cases hroom
    · rw [herr] at hroom
      cases hroom
      constructor
      · intro hk
        cases hk
        exact ⟨hcap, Assoc.get?_eq_none_iff.1 hq, Nat.le_antisymm hsize (hcap ▸ hle),
          h.kept.evict?_eq_none_iff.1 hnone⟩
      · rintro ⟨rfl, -⟩
        exact congrArg (fun k => Except.error (Error.poolFull k)) hcap
    · rw [hok] at hroom
      cases hroom
  · rw [he]
    refine iff_of_false (fun h => ?_) fun hfull => ?_
    · cases h
      exact readPage_ne_poolFull m q k hr
    · exact hb.not_full_of_makeRoom hroom hfull.2.2
  · rw [he]
    exact iff_of_false (fun h => by cases h) fun hfull =>
      hb.not_full_of_makeRoom hroom hfull.2.2

end Store
end TableStore

import TableStore.Proofs.Page.Formed
import TableStore.Proofs.Pool.Cache
import TableStore.Proofs.Pool.Session

/-!
# Bringing a page into memory

A page that is asked for comes from the cache or from its file, and a clean page may have to make
room for it.  Nothing of this touches a page with uncommitted changes.

## What is here

* `Store.Refreshes` — the effect of using a page: clean pages come and go, everything else stays.
* `Store.makeRoom_cases`, `Store.load_cases` — what happens when room is made, and when a page is
  loaded.
* `Store.refreshes_load` — loading a page has no other effect, whatever its answer.
* `Store.load_ok` — and a page that is handed out is in the cache.
* `Store.Refreshes.taken_eq` — what a transaction sees of the page is the same before and after.
-/

set_option autoImplicit false
namespace TableStore

namespace Store

variable {s s' : Store} {p : PageId} {t : TxnId}

/-- A page from a file bears the name that it was asked for by, and is clean. -/
theorem of_readPage {page : Page} (h : s.readPage p = .ok page) :
    page.id = p ∧ page.dirtier = none := by
  rw [readPage] at h
  split at h
  · cases h
  · rw [TableFile.readPage] at h
    split at h
    · exact Page.of_decode h
    · cases h

/-! ## The effect of using a page

Whoever uses a page may cause another one to be evicted.  That one is clean, so no changes go with
it. -/

/-- What the use of the page `p` makes of a store: the page may have been read from its file, and
clean pages may have been dropped. -/
structure Refreshes (p : PageId) (s s' : Store) : Prop where
  rest : ∃ cache stats, s' = { s with cache, stats }
  sound : s'.cache.Sound
  /-- Pages with uncommitted changes stay. -/
  kept : ∀ q page, s.cache.pages.get? q = some page → page.dirtier ≠ none →
    s'.cache.pages.get? q = some page
  /-- The page that is used stays if it is in memory. -/
  hit : ∀ page, s.cache.pages.get? p = some page → s'.cache.pages.get? p = some page
  /-- Only the page that is used may have come from its file. -/
  origin : ∀ q page, s'.cache.pages.get? q = some page →
    s.cache.pages.get? q = some page ∨
      q = p ∧ s.cache.pages.get? q = none ∧ s.readPage q = .ok page

namespace Refreshes

theorem locks_eq (h : Refreshes p s s') : s'.locks = s.locks := by
  obtain ⟨cache, stats, rfl⟩ := h.rest
  rfl

theorem disk_eq (h : Refreshes p s s') : s'.disk = s.disk := by
  obtain ⟨cache, stats, rfl⟩ := h.rest
  rfl

theorem catalog_eq (h : Refreshes p s s') : s'.catalog = s.catalog := by
  obtain ⟨cache, stats, rfl⟩ := h.rest
  rfl

theorem pageSize_eq (h : Refreshes p s s') : s'.pageSize = s.pageSize := by
  obtain ⟨cache, stats, rfl⟩ := h.rest
  rfl

theorem readPage_eq (h : Refreshes p s s') (q : PageId) : s'.readPage q = s.readPage q := by
  simp only [readPage, h.disk_eq, h.catalog_eq, h.pageSize_eq]

/-- The pages with uncommitted changes are the same before and after. -/
theorem dirty_iff (h : Refreshes p s s') {q : PageId} {page : Page} (hd : page.dirtier ≠ none) :
    s'.cache.pages.get? q = some page ↔ s.cache.pages.get? q = some page := by
  refine ⟨fun hq => ?_, fun hq => h.kept q page hq hd⟩
  rcases h.origin q page hq with ho | ⟨-, -, hr⟩
  · exact ho
  · exact absurd (of_readPage hr).2 hd

protected theorem refl (p : PageId) (h : s.cache.Sound) : Refreshes p s s :=
  ⟨⟨s.cache, s.stats, rfl⟩, h, fun _ _ hq _ => hq, fun _ hq => hq, fun _ _ hq => Or.inl hq⟩

/-- Only the cache and the counters count. -/
theorem update (h : Refreshes p s s') (cache : Cache) (stats : Stats) :
    ∃ c st, { s' with cache, stats } = { s with cache := c, stats := st } := by
  obtain ⟨_, _, rfl⟩ := h.rest
  exact ⟨cache, stats, rfl⟩

protected theorem bump (h : Refreshes p s s') (c : Counter) : Refreshes p s (s'.bump c) :=
  ⟨h.update _ _, h.sound, h.kept, h.hit, h.origin⟩

protected theorem touch (h : Refreshes p s s') (q : PageId) :
    Refreshes p s { s' with cache := s'.cache.touch q } :=
  ⟨h.update _ _, h.sound.touch q, h.kept, h.hit, h.origin⟩

/-- The page that is used is put in if it was missing. -/
protected theorem put (h : Refreshes p s s') {page : Page} (hr : s.readPage p = .ok page)
    (hp : s.cache.pages.get? p = none) :
    Refreshes p s { s' with cache := s'.cache.put page true } where
  rest := h.update _ _
  sound := h.sound.put fun _ => (of_readPage hr).2
  kept q page' hq hd := by
    have hne : q ≠ p := fun he => by rw [he, hp] at hq; cases hq
    rw [Cache.get?_put, (of_readPage hr).1, if_neg hne]
    exact h.kept q page' hq hd
  hit page' hp' := by rw [hp] at hp'; cases hp'
  origin q page' hq := by
    rw [Cache.get?_put, (of_readPage hr).1] at hq
    split at hq
    · rename_i he
      cases hq
      subst he
      exact Or.inr ⟨rfl, hp, hr⟩
    · exact h.origin q page' hq

/-- The page that is used looks the same before and after. -/
theorem seen_eq (h : Refreshes p s s') (t : TxnId) : s'.seen t p = s.seen t p := by
  rw [seen, seen, h.readPage_eq]
  cases hp : s.cache.pages.get? p with
  | some page => rw [h.hit page hp]
  | none =>
    cases hp' : s'.cache.pages.get? p with
    | none => rfl
    | some page =>
      rcases h.origin p page hp' with ho | ⟨-, -, hr⟩
      · rw [hp] at ho
        cases ho
      · dsimp only
        rw [if_pos (Or.inl (of_readPage hr).2), hr]

theorem taken_eq (h : Refreshes p s s') (t : TxnId) {row : Row} {r : RecordId}
    (hr : row.rid = some r) (hp : r.page = p) : s'.taken t row = s.taken t row := by
  rw [taken, taken, hr]
  dsimp only [Option.bind]
  rw [rowSeen, rowSeen, hp, h.seen_eq]

end Refreshes

/-! ## Loading -/

/-- There is room, or a page is evicted, or that is not possible. -/
theorem makeRoom_cases (s : Store) :
    (s.cache.size < s.capacity ∧ s.makeRoom = .ok s) ∨
    (s.capacity ≤ s.cache.size ∧ s.cache.evict? = none ∧
      s.makeRoom = .error (.poolFull s.capacity)) ∨
    ∃ c, s.capacity ≤ s.cache.size ∧ s.cache.evict? = some c ∧
      s.makeRoom = .ok ({ s with cache := c }.bump .evictions) := by
  rw [makeRoom]
  split
  · rename_i hlt
    exact .inl ⟨hlt, rfl⟩
  · rename_i hle
    cases he : s.cache.evict? with
    | none => exact .inr (.inl ⟨Nat.not_lt.1 hle, rfl, rfl⟩)
    | some c => exact .inr (.inr ⟨c, Nat.not_lt.1 hle, rfl, rfl⟩)

theorem refreshes_makeRoom (hc : s.cache.Sound) (hp : s.cache.pages.get? p = none)
    (h : s.makeRoom = .ok s') : Refreshes p s s' := by
  rcases s.makeRoom_cases with ⟨-, he⟩ | ⟨-, -, he⟩ | ⟨cache, -, hevict, he⟩
  · rw [he] at h
    cases h
    exact .refl p hc
  · rw [he] at h
    cases h
  · rw [he] at h
    cases h
    obtain ⟨v, page, hv, hclean, hget, hsound⟩ := hc.evict? hevict
    refine Refreshes.bump ⟨⟨cache, s.stats, rfl⟩, hsound, fun q page' hq hd => ?_,
      fun page' hq => ?_, fun q page' hq => ?_⟩ _
    · have hne : q ≠ v := fun he => by
        rw [he, hv] at hq
        cases hq
        exact hd hclean
      exact (hget q).trans ((if_neg hne).trans hq)
    · rw [hp] at hq
      cases hq
    · have hq' := (hget q).symm.trans hq
      split at hq'
      · cases hq'
      · exact Or.inl hq'

/-- A victim gets no page.  For others the page is in memory, or it is read from its file once room
has been made. -/
theorem load_cases (s : Store) (t : TxnId) (p : PageId) :
    (t ∈ s.locks.aborted ∧ s.load t p = (.error (.aborted t), s)) ∨
    (∃ page, t ∉ s.locks.aborted ∧ s.cache.pages.get? p = some page ∧
      s.load t p = (.ok page, { s with cache := s.cache.touch p }.bump .hits)) ∨
    (∃ e, t ∉ s.locks.aborted ∧ s.cache.pages.get? p = none ∧
      (s.bump .misses).makeRoom = .error e ∧ s.load t p = (.error e, s.bump .misses)) ∨
    (∃ m e, t ∉ s.locks.aborted ∧ s.cache.pages.get? p = none ∧
      (s.bump .misses).makeRoom = .ok m ∧ m.readPage p = .error e ∧
      s.load t p = (.error e, m)) ∨
    ∃ m page, t ∉ s.locks.aborted ∧ s.cache.pages.get? p = none ∧
      (s.bump .misses).makeRoom = .ok m ∧ m.readPage p = .ok page ∧
      s.load t p = (.ok page, { m.bump .reads with cache := m.cache.put page true }) := by
  rw [load]
  by_cases ha : t ∈ s.locks.aborted
  · rw [if_pos (by simpa [LockTable.isAborted] using ha)]
    exact .inl ⟨ha, rfl⟩
  · rw [if_neg (by simpa [LockTable.isAborted] using ha)]
    refine .inr ?_
    cases hp : s.cache.pages.get? p with
    | some page => exact .inl ⟨page, ha, rfl, rfl⟩
    | none =>
      refine .inr ?_
      dsimp only
      cases hm : (s.bump .misses).makeRoom with
      | error e => exact .inl ⟨e, ha, rfl, rfl, rfl⟩
      | ok m =>
        refine .inr ?_
        dsimp only
        cases hr : m.readPage p with
        | error e => exact .inl ⟨m, e, ha, rfl, rfl, hr, rfl⟩
        | ok page => exact .inr ⟨m, page, ha, rfl, rfl, hr, rfl⟩

/-- Loading a page only refreshes the cache, whatever the answer is. -/
theorem refreshes_load (hc : s.cache.Sound) (t : TxnId) (p : PageId) :
    Refreshes p s (s.load t p).2 := by
  have hmiss : Refreshes p s (s.bump .misses) := (Refreshes.refl p hc).bump _
  have hroom : ∀ m, s.cache.pages.get? p = none → (s.bump .misses).makeRoom = .ok m →
      Refreshes p s m := by
    intro m hp hm
    have h := refreshes_makeRoom (s := s.bump .misses) hc hp hm
    exact ⟨h.rest, h.sound, h.kept, h.hit, h.origin⟩
  rcases s.load_cases t p with ⟨-, he⟩ | ⟨page, -, -, he⟩ | ⟨e, -, -, -, he⟩ |
    ⟨m, e, -, hp, hm, -, he⟩ | ⟨m, page, -, hp, hm, hr, he⟩
  · rw [he]
    exact .refl p hc
  · rw [he]
    exact ((Refreshes.refl p hc).touch p).bump _
  · rw [he]
    exact hmiss
  · rw [he]
    exact hroom m hp hm
  · rw [he]
    exact ((hroom m hp hm).bump .reads).put (((hroom m hp hm).readPage_eq p).symm.trans hr) hp

/-- A page that is handed out is in the cache, and not to a victim. -/
theorem load_ok {page : Page} (h : s.load t p = (.ok page, s')) :
    s'.cache.pages.get? p = some page ∧ t ∉ s.locks.aborted := by
  rcases s.load_cases t p with ⟨-, he⟩ | ⟨page', ha, hp, he⟩ | ⟨e, -, -, -, he⟩ |
    ⟨m, e, -, -, -, -, he⟩ | ⟨m, page', ha, -, -, hr, he⟩
  · rw [he] at h
    cases h
  · rw [he] at h
    cases h
    exact ⟨hp, ha⟩
  · rw [he] at h
    cases h
  · rw [he] at h
    cases h
  · rw [he] at h
    cases h
    refine ⟨?_, ha⟩
    dsimp only
    rw [Cache.get?_put, (of_readPage hr).1, if_pos rfl]

end Store
end TableStore

import TableStore.Proofs.Lock.Held
import TableStore.Proofs.Pool.Load

/-!
# Writing, rolling back, and the end of a transaction

## What is here

* `Store.flushPage_cases`, `Store.flushPages_induction` — writing pages one after the other, and what
  holds after each of them.
* `Store.commit_cases` — the three ends of a commit.
* `Store.Discarded` — some transactions have lost their changes and their locks, and nobody else
  has.  `Store.discarded_rollBack` and `Store.discarded_abort` are the ways to get there.
-/

set_option autoImplicit false
namespace TableStore
namespace Store

variable {s s' : Store} {p : PageId} {t u : TxnId}

/-! ## Writing pages

Pages are written one by one, and writing stops at the first that cannot be written.  What has been
written until then stays written. -/

/-- The store after the page in memory has been written, with the file system that results. -/
def settled (s : Store) (p : PageId) (page : Page) (disk : Disk) : Store :=
  { s with
    disk
    stats := s.stats.bump .writes
    cache :=
      { pages := s.cache.pages.insert p page.clean
        recency := s.cache.recency.setEvictable p true } }

/-- A page is written if it is in memory and dirty; otherwise nothing happens. -/
theorem flushPage_cases (h : s.flushPage p = .ok s') :
    (s' = s ∧ ∀ page, s.cache.pages.get? p = some page → page.dirtier = none) ∨
    ∃ page file disk, s.cache.pages.get? p = some page ∧ page.dirtier ≠ none ∧
      s.catalog.file page.id.table = .ok file ∧
      file.writePage s.disk s.pageSize page = .ok disk ∧ s' = s.settled p page disk := by
  rw [flushPage] at h
  split at h
  · rename_i hp
    cases h
    exact Or.inl ⟨rfl, fun page hp' => by rw [hp] at hp'; cases hp'⟩
  · rename_i page hp
    split at h
    · rename_i hc
      cases h
      refine Or.inl ⟨rfl, fun page' hp' => ?_⟩
      rw [hp] at hp'
      cases hp'
      simpa [Page.isDirty] using hc
    · rename_i hd
      refine Or.inr ⟨page, ?_⟩
      rw [writePage] at h
      split at h
      · cases h
      · rename_i m hw
        split at hw
        · cases hw
        · rename_i file hf
          split at hw
          · cases hw
          · rename_i disk hw'
            cases hw
            cases h
            exact ⟨file, disk, hp, by simpa [Page.isDirty] using hd, hf, hw', rfl⟩

/-- What every page that is written keeps, all of them keep, also if they stop halfway. -/
theorem flushPages_induction {P : Store → Prop}
    (hP : ∀ s p s', P s → s.flushPage p = .ok s' → P s') (ps : List PageId) (h : P s) :
    P (s.flushPages ps).2 := by
  induction ps generalizing s with
  | nil => exact h
  | cons p ps ih =>
    rw [flushPages]
    cases hp : s.flushPage p with
    | error e => exact h
    | ok m => exact ih (hP s p m h hp)

/-- Locks are no matter of writing. -/
theorem locks_flushPages (s : Store) (ps : List PageId) : (s.flushPages ps).2.locks = s.locks := by
  refine flushPages_induction (P := fun m => m.locks = s.locks) (fun m p m' hm hf => ?_) ps rfl
  rcases flushPage_cases hf with ⟨rfl, -⟩ | ⟨page, file, disk, -, -, -, -, rfl⟩
  · exact hm
  · exact hm

theorem get?_flushPage (h : s.flushPage p = .ok s') {q : PageId} (hq : q ≠ p) :
    s'.cache.pages.get? q = s.cache.pages.get? q := by
  rcases flushPage_cases h with ⟨rfl, -⟩ | ⟨page, file, disk, -, -, -, -, rfl⟩
  · rfl
  · exact (Assoc.get?_insert _ _ _ _).trans (if_neg hq)

/-- Pages that are not among those to be written stay as they are. -/
theorem get?_flushPages {ps : List PageId} {q : PageId} (hq : q ∉ ps) :
    (s.flushPages ps).2.cache.pages.get? q = s.cache.pages.get? q := by
  induction ps generalizing s with
  | nil => rfl
  | cons p ps ih =>
    rw [flushPages]
    rw [List.mem_cons, not_or] at hq
    cases hp : s.flushPage p with
    | error e => rfl
    | ok m => exact (ih hq.2).trans (get?_flushPage hp hq.1)

/-- A clean page stays clean, and a page that is written becomes clean. -/
theorem dirtier_flushPage (h : s.flushPage p = .ok s') {q : PageId} {page' : Page}
    (hq : s'.cache.pages.get? q = some page') :
    page'.dirtier = none ∨ q ≠ p ∧ s.cache.pages.get? q = some page' := by
  rcases flushPage_cases h with ⟨rfl, hc⟩ | ⟨page, file, disk, hp, -, -, -, rfl⟩
  · by_cases he : q = p
    · exact Or.inl (hc page' (he ▸ hq))
    · exact Or.inr ⟨he, hq⟩
  · rw [settled, Assoc.get?_insert] at hq
    split at hq
    · cases hq
      exact Or.inl rfl
    · rename_i he
      exact Or.inr ⟨he, hq⟩

/-- Once all pages of a list have been written, none of them is dirty. -/
theorem dirtier_flushPages {ps : List PageId} (h : (s.flushPages ps).1 = .ok ()) {q : PageId}
    {page' : Page} (hq : (s.flushPages ps).2.cache.pages.get? q = some page') :
    page'.dirtier = none ∨ q ∉ ps ∧ s.cache.pages.get? q = some page' := by
  induction ps generalizing s with
  | nil => exact Or.inr ⟨List.not_mem_nil, hq⟩
  | cons p ps ih =>
    rw [flushPages] at h hq
    cases hp : s.flushPage p with
    | error e => rw [hp] at h; cases h
    | ok m =>
      rw [hp] at h hq
      rcases ih h hq with hc | ⟨hn, hm⟩
      · exact Or.inl hc
      · rcases dirtier_flushPage hp hm with hc | ⟨hne, hs⟩
        · exact Or.inl hc
        · exact Or.inr ⟨fun hmem => (List.mem_cons.1 hmem).elim hne hn, hs⟩

/-- A commit is refused to a victim, fails with the first page that cannot be written, or writes all
pages that the transaction has changed and gives back its locks. -/
theorem commit_cases (s : Store) (t : TxnId) :
    t ∈ s.locks.aborted ∧ s.commit t = (.error (.aborted t), s) ∨
    (∃ e, t ∉ s.locks.aborted ∧ (s.flushPages (s.cache.dirtyPages t)).1 = .error e ∧
      s.commit t = (.error e, (s.flushPages (s.cache.dirtyPages t)).2)) ∨
    t ∉ s.locks.aborted ∧ (s.flushPages (s.cache.dirtyPages t)).1 = .ok () ∧
      s.commit t = (.ok (), { (s.flushPages (s.cache.dirtyPages t)).2 with
        locks := (s.flushPages (s.cache.dirtyPages t)).2.locks.complete t }) := by
  rw [commit]
  by_cases ha : t ∈ s.locks.aborted
  · rw [if_pos (by simpa [LockTable.isAborted] using ha)]
    exact Or.inl ⟨ha, rfl⟩
  · rw [if_neg (by simpa [LockTable.isAborted] using ha), flushTxn]
    cases hf : s.flushPages (s.cache.dirtyPages t) with
    | mk result m =>
      cases result with
      | error e => exact Or.inr (Or.inl ⟨e, ha, rfl, rfl⟩)
      | ok _ => exact Or.inr (Or.inr ⟨ha, rfl, rfl⟩)

theorem commit_of_aborted (ha : t ∈ s.locks.aborted) : s.commit t = (.error (.aborted t), s) := by
  rcases commit_cases s t with ⟨-, he⟩ | ⟨e, hn, -⟩ | ⟨hn, -⟩
  · exact he
  · exact absurd ha hn
  · exact absurd ha hn

/-- A commit takes away no mark, since victims cannot commit. -/
theorem mem_aborted_commit : u ∈ (s.commit t).2.locks.aborted ↔ u ∈ s.locks.aborted := by
  have hl := locks_flushPages s (s.cache.dirtyPages t)
  rcases commit_cases s t with ⟨-, he⟩ | ⟨e, -, -, he⟩ | ⟨ht, -, he⟩
  · rw [he]
  · rw [he, hl]
  · rw [he]
    refine LockTable.mem_aborted_complete.trans ?_
    rw [hl]
    exact and_iff_right_of_imp fun ha hut => ht (hut ▸ ha)

/-! ## Losing changes and locks

An abort and the rollback of a victim have this in common.  They differ in the mark, and in the
clean pages that an abort drops as well. -/

/-- The transactions `us` have lost their changes and their locks.  Clean pages may have been dropped
along with them. -/
structure Discarded (us : List TxnId) (s s' : Store) : Prop where
  rest : ∃ cache locks stats, s' = { s with cache, locks, stats }
  consistent : s'.locks.Consistent
  sound : s'.cache.Sound
  aborted : ∀ u, u ∈ s'.locks.aborted → u ∈ s.locks.aborted
  holdings : ∀ u, s'.locks.holdings.get? u = if u ∈ us then none else s.locks.holdings.get? u
  origin : ∀ q page, s'.cache.pages.get? q = some page →
    s.cache.pages.get? q = some page ∧ ∀ u ∈ us, page.dirtier ≠ some u
  kept : ∀ q page, s.cache.pages.get? q = some page → page.dirtier ≠ none →
    (∀ u ∈ us, page.dirtier ≠ some u) → s'.cache.pages.get? q = some page

namespace Discarded

theorem heldMode?_eq {us : List TxnId} (h : Discarded us s s') (u : TxnId) (q : PageId) :
    s'.locks.heldMode? u q = if u ∈ us then none else s.locks.heldMode? u q := by
  rw [LockTable.heldMode?, h.holdings]
  split <;> rfl

theorem cons {us : List TxnId} {m : Store} (h : Discarded [t] s m) (h' : Discarded us m s') :
    Discarded (t :: us) s s' where
  rest := by
    obtain ⟨_, _, _, rfl⟩ := h.rest
    obtain ⟨cache, locks, stats, rfl⟩ := h'.rest
    exact ⟨cache, locks, stats, rfl⟩
  consistent := h'.consistent
  sound := h'.sound
  aborted u hu := h.aborted u (h'.aborted u hu)
  holdings u := by
    rw [h'.holdings, h.holdings]
    by_cases ht : u = t <;> by_cases hu : u ∈ us <;> simp [ht, hu]
  origin q page hq := by
    obtain ⟨hm, hus⟩ := h'.origin q page hq
    obtain ⟨hs, ht⟩ := h.origin q page hm
    exact ⟨hs, List.forall_mem_cons.2 ⟨ht t (List.mem_singleton_self t), hus⟩⟩
  kept q page hq hd hn := by
    obtain ⟨ht, hus⟩ := List.forall_mem_cons.1 hn
    exact h'.kept q page (h.kept q page hq hd (List.forall_mem_singleton.2 ht)) hd hus

end Discarded

theorem discarded_rollBack (hl : s.locks.Consistent) (hc : s.cache.Sound) (t : TxnId) :
    Discarded [t] s (s.rollBack t) where
  rest := ⟨_, _, s.stats, rfl⟩
  consistent := hl.releaseAll t
  sound := hc.dropAll _
  aborted u hu := by rwa [rollBack, LockTable.aborted_releaseAll] at hu
  holdings u := by
    rw [rollBack, LockTable.get?_holdings_releaseAll]
    simp only [List.mem_singleton]
  origin q page hq := by
    rw [rollBack, Cache.get?_dropAll] at hq
    split at hq
    · cases hq
    · rename_i hn
      exact ⟨hq, List.forall_mem_singleton.2 fun hd => hn (Cache.mem_dirtyPages.2 ⟨page, hq, hd⟩)⟩
  kept q page hq _ hn := by
    have hnot : q ∉ s.cache.dirtyPages t := fun hm => by
      obtain ⟨page', hp', hd⟩ := Cache.mem_dirtyPages.1 hm
      rw [hq] at hp'
      cases hp'
      exact hn t (List.mem_singleton_self t) hd
    rw [rollBack, Cache.get?_dropAll, if_neg hnot, hq]

/-- The victims of a deadlock lose their changes and their locks one after the other. -/
theorem discarded_foldl_rollBack (hl : s.locks.Consistent) (hc : s.cache.Sound)
    (us : List TxnId) : Discarded us s (us.foldl rollBack s) := by
  induction us generalizing s with
  | nil =>
    exact ⟨⟨s.cache, s.locks, s.stats, rfl⟩, hl, hc, fun _ hu => hu, fun _ => rfl,
      fun _ _ hq => ⟨hq, List.forall_mem_nil _⟩, fun _ _ hq _ _ => hq⟩
  | cons t us ih =>
    have h := discarded_rollBack hl hc t
    exact h.cons (ih h.consistent h.sound)

theorem aborted_foldl_rollBack (s : Store) (us : List TxnId) :
    (us.foldl rollBack s).locks.aborted = s.locks.aborted := by
  refine List.foldlRecOn us rollBack (motive := fun m => m.locks.aborted = s.locks.aborted) rfl
    fun m hm u _ => ?_
  rw [rollBack, LockTable.aborted_releaseAll, hm]

/-- An abort also drops the clean pages that the transaction had locked. -/
theorem mem_doomed {q : PageId} {page : Page} (hq : s.cache.pages.get? q = some page) :
    q ∈ s.cache.dirtyPages t ++ (s.locks.pagesHeld t).filter s.cache.isClean ↔
      page.dirtier = some t ∨ q ∈ s.locks.pagesHeld t ∧ page.dirtier = none := by
  rw [List.mem_append, List.mem_filter, Cache.mem_dirtyPages, Cache.isClean_iff, hq]
  simp only [Option.some.injEq, exists_eq_left']

theorem locks_abort (s : Store) (t : TxnId) : (s.abort t).locks = s.locks.complete t := by
  rw [abort]
  split <;> rfl

theorem discarded_abort (hl : s.locks.Consistent) (hc : s.cache.Sound) (t : TxnId) :
    Discarded [t] s (s.abort t) := by
  have hget : ∀ q, (s.abort t).cache.pages.get? q =
      if q ∈ s.cache.dirtyPages t ++ (s.locks.pagesHeld t).filter s.cache.isClean then none
      else s.cache.pages.get? q := fun q => by
    rw [abort]
    split <;> exact Cache.get?_dropAll _ _ _
  have hlocks := locks_abort s t
  refine ⟨?_, ?_, ?_, fun u hu => ?_, fun u => ?_, fun q page hq => ?_, fun q page hq hd hn => ?_⟩
  · rw [abort]
    split <;> exact ⟨_, _, _, rfl⟩
  · rw [hlocks]
    exact hl.complete t
  · rw [abort]
    split <;> exact hc.dropAll _
  · rw [hlocks] at hu
    exact (LockTable.mem_aborted_complete.1 hu).2
  · rw [hlocks, LockTable.get?_holdings_complete]
    simp only [List.mem_singleton]
  · rw [hget] at hq
    split at hq
    · cases hq
    · rename_i hnot
      rw [mem_doomed hq, not_or] at hnot
      exact ⟨hq, List.forall_mem_singleton.2 hnot.1⟩
  · rw [hget, if_neg, hq]
    rw [mem_doomed hq]
    exact fun h => h.elim (hn t (List.mem_singleton_self t)) fun h => hd h.2

end Store
end TableStore

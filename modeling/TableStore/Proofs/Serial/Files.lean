import TableStore.Proofs.Ledger.Run
import TableStore.Proofs.Page.Format
import TableStore.Proofs.Pool.Frame

/-!
# What runs do not change about the files

Transactions write pages and add empty ones.  What they never do is to make a page unreadable, or
readable again: a page that the file of its table has is faulty from the beginning or not at all.
Files do not become shorter either, and how long they can become is known from the beginning.

## What is here

* `Store.slotsOn` — the number of slots on the pages of a table.
* `Store.fault?` — why a page cannot be read.  A page past the end of its file has no fault.
* `Store.CanHave` — a page is one of its file, or one that could be added.
* `Store.Move.files` — a move leaves the files alone, adds a page to one, or is a commit.
* `Store.SameFaults` — a store whose tables, page size and faults are those of another one, and
  whose files can have the same pages; `Store.Move.sameFaults` — they stay so.
-/

set_option autoImplicit false
namespace TableStore
namespace Store

variable {sealed : Prop} {serves : TableId → TableFile → Prop} {s₀ s s' : Store} {t : TxnId}
  {es : List Event} {p : PageId} {page : Page} {file : TableFile} {e : Error}

/-! ## Slots and faults -/

/-- The number of slots on a page of a table; there are none if the table is not registered. -/
def slotsOn (s : Store) (p : PageId) : Nat :=
  match s.catalog.file p.table with
  | .error _ => 0
  | .ok file => Page.slotCount s.pageSize.bytes file.schema.rowSize

/-- Why a page cannot be read, although its file may have it. -/
def fault? (s : Store) (p : PageId) : Option Error :=
  match s.readPage p with
  | .ok _ => none
  | .error (.pageNotFound _) => none
  | .error e => some e

theorem Home.slotsOn_eq (h : s.Home p page file) : s.slotsOn p = page.slots.length := by
  rw [slotsOn, h.file_eq]
  exact h.formed.length_slots.symm

theorem fault?_of_readPage (h : s.readPage p = .ok page) : s.fault? p = none := by
  rw [fault?, h]

theorem fault?_congr (h : s'.readPage p = s.readPage p) : s'.fault? p = s.fault? p := by
  rw [fault?, fault?, h]

/-- A page that cannot be read is past the end of its file, or has a fault. -/
theorem readPage_error (h : s.readPage p = .error e) :
    e = .pageNotFound p ∧ s.fault? p = none ∨ s.fault? p = some e := by
  rw [fault?, h]
  rw [readPage] at h
  split at h
  · rename_i e' hf
    cases h
    rw [Catalog.file, Catalog.table] at hf
    split at hf
    · cases hf
      exact Or.inr rfl
    · cases hf
  · rw [TableFile.readPage] at h
    split at h
    · obtain ⟨c, rfl⟩ := Page.decode_error h
      exact Or.inr rfl
    · cases h
      exact Or.inl ⟨rfl, rfl⟩

/-- A page past the end of its file has no fault. -/
theorem readPage_past (hf : s.catalog.file p.table = .ok file) (hp : s.pageCount file ≤ p.number) :
    s.readPage p = .error (.pageNotFound p) := by
  rw [readPage, hf]
  exact if_neg fun hh => Nat.not_lt.2 hp (TableFile.hasPage_iff.1 hh).2

/-- A page that is not past the end of its file is found. -/
theorem readPage_ne_missing (hf : s.catalog.file p.table = .ok file) (hid : file.id = p.table)
    (hp : p.number < s.pageCount file) (q : PageId) : s.readPage p ≠ .error (.pageNotFound q) := by
  rw [readPage, hf]
  dsimp only
  rw [TableFile.readPage, if_pos (TableFile.hasPage_iff.2 ⟨hid.symm, hp⟩)]
  intro he
  obtain ⟨c, hc⟩ := Page.decode_error he
  cases hc

/-! ## Pages that a file can have

How many pages a file has depends on what others have added.  How many it can have does not, and
that is what an insert comes upon in the end. -/

/-- A file has the page `n`, or could be made to have it. -/
def CanHave (s : Store) (file : TableFile) (n : Nat) : Prop :=
  n < s.pageCount file ∨ s.wholePages file < TableFile.pageLimit ∧ n + 1 < TableFile.pageLimit

theorem CanHave.mono {n k : Nat} (h : s.CanHave file n) (hk : k ≤ n) : s.CanHave file k :=
  h.imp (fun hlt => by omega) fun hr => ⟨hr.1, by omega⟩

theorem canHave_congr (h : s'.wholePages file = s.wholePages file) (n : Nat) :
    s'.CanHave file n ↔ s.CanHave file n := by
  rw [CanHave, CanHave, pageCount, pageCount, TableFile.pageCount, TableFile.pageCount]
  rw [wholePages, wholePages] at *
  rw [h]

/-- One more page in a file that has room makes no difference. -/
theorem canHave_append (hroom : file.HasRoom s.disk s.pageSize) (g : TableFile) (n : Nat) :
    { s with disk := (file.appendPage s.disk s.pageSize).2 }.CanHave g n ↔ s.CanHave g n := by
  by_cases hp : g.path = file.path
  · have hcount : s.pageCount g = s.wholePages g := by
      rw [pageCount, wholePages, TableFile.pageCount_of_path hp, TableFile.wholePages_of_path hp]
      exact hroom.pageCount_eq
    have hwhole : s.wholePages g + 1 < TableFile.pageLimit := by
      rw [wholePages, TableFile.wholePages_of_path hp]
      exact hroom
    have hcount' : { s with disk := (file.appendPage s.disk s.pageSize).2 }.pageCount g =
        s.pageCount g + 1 := by
      rw [pageCount, pageCount, TableFile.pageCount_of_path hp, TableFile.pageCount_of_path hp]
      exact TableFile.pageCount_appendPage hroom
    have hwhole' : { s with disk := (file.appendPage s.disk s.pageSize).2 }.wholePages g =
        s.wholePages g + 1 := by
      rw [wholePages, wholePages, TableFile.wholePages_of_path hp,
        TableFile.wholePages_of_path hp, TableFile.wholePages_appendPage, hroom.pageCount_eq]
      exact Nat.max_eq_right (Nat.le_succ _)
    rw [CanHave, CanHave, hcount', hwhole', hcount]
    omega
  · have hwhole : { s with disk := (file.appendPage s.disk s.pageSize).2 }.wholePages g =
        s.wholePages g := TableFile.wholePages_congr (TableFile.content_writeAt_of_ne hp _ _)
    exact canHave_congr hwhole n

/-! ## Moves and files -/

/-- A move leaves the files alone and brings pages into memory that can be read, or it adds a page
to a file that has room, or it is a commit. -/
theorem Move.files (hm : Move sealed serves t es s s') (h : s.ChangesLocked) (hsealed : sealed) :
    SameFiles s s' ∧ (∀ q page', s'.cache.pages.get? q = some page' →
      (∃ page, s.cache.pages.get? q = some page) ∨ ∃ page, s.readPage q = .ok page) ∨
    (∃ table file, serves table file ∧ file.HasRoom s.disk s.pageSize ∧
      s' = { s with disk := (file.appendPage s.disk s.pageSize).2 }) ∨
    s' = (s.commit t).2 := by
  have hsame : ∀ {m : Store}, m.cache = s.cache → ∀ q page', m.cache.pages.get? q = some page' →
      (∃ page, s.cache.pages.get? q = some page) ∨ ∃ page, s.readPage q = .ok page :=
    fun hc q page' hq => Or.inl ⟨page', hc ▸ hq⟩
  have hedit : ∀ {q : PageId} {old copy : Page}, s.cache.pages.get? q = some old →
      copy.id = old.id → SameFiles s (s.edited t copy) ∧ ∀ r page',
        (s.edited t copy).cache.pages.get? r = some page' →
        (∃ page, s.cache.pages.get? r = some page) ∨ ∃ page, s.readPage r = .ok page := by
    intro q old copy hq hid
    refine ⟨⟨rfl, rfl, rfl⟩, fun r page' hr => Or.inl ?_⟩
    by_cases he : r = copy.id
    · exact ⟨old, by rw [he, hid, h.sound.keyed _ _ hq, hq]⟩
    · exact ⟨page', (get?_edited he).symm.trans hr⟩
  cases hm with
  | look => exact Or.inl ⟨⟨rfl, rfl, rfl⟩, hsame rfl⟩
  | refresh hr =>
    refine Or.inl ⟨hr.sameFiles, fun q page' hq => ?_⟩
    exact (hr.origin q page' hq).imp (⟨page', ·⟩) fun ho => ⟨page', ho.2.2⟩
  | giveBack => exact Or.inl ⟨⟨rfl, rfl, rfl⟩, hsame rfl⟩
  | append hs hroom => exact Or.inr (Or.inl ⟨_, _, hs, hroom hsealed, rfl⟩)
  | refuse => exact Or.inl ⟨⟨rfl, rfl, rfl⟩, hsame rfl⟩
  | read => exact Or.inl ⟨⟨rfl, rfl, rfl⟩, hsame rfl⟩
  | copy => exact Or.inl ⟨⟨rfl, rfl, rfl⟩, hsame rfl⟩
  | insert hq _ _ _ _ he => exact Or.inl (hedit hq (Page.insert_id he))
  | remove hq _ _ he => exact Or.inl (hedit hq (Page.remove_id he))
  | @strike _ k _ _ hk =>
    have hd := discarded_foldl_rollBack (s := { s with locks := k }.bump .deadlocks)
      (hk.same.consistent h.consistent) h.sound (s.locks.victimsOf t)
    have hs := hd.sameFiles
    exact Or.inl ⟨⟨hs.disk_eq, hs.catalog_eq, hs.pageSize_eq⟩, fun q page' hq =>
      Or.inl ⟨page', (hd.origin q page' hq).1⟩⟩
  | commit => exact Or.inr (Or.inr rfl)
  | abort =>
    have hd := discarded_abort h.consistent h.sound t
    exact Or.inl ⟨hd.sameFiles, fun q page' hq => Or.inl ⟨page', (hd.origin q page' hq).1⟩⟩

/-- No move makes a file shorter. -/
theorem Move.pageCount_le (hm : Move sealed serves t es s s') (h : s.MatchesFiles)
    (hsealed : sealed) (file : TableFile) : s.pageCount file ≤ s'.pageCount file := by
  rcases hm.files h.changesLocked hsealed with ⟨hs, -⟩ | ⟨table, grown, -, hroom, rfl⟩ | rfl
  · exact Nat.le_of_eq (hs.pageCount_eq file).symm
  · exact TableFile.pageCount_le_appendPage hroom file
  · exact Nat.le_of_eq ((h.commit t).pageCount_eq file).symm

theorem Moves.pageCount_le (hm : Moves sealed serves t es s s') (h : s.MatchesFiles)
    (hsealed : sealed) (hserves : ∀ table file, serves table file → s.catalog.file table = .ok file)
    (file : TableFile) : s.pageCount file ≤ s'.pageCount file := by
  induction hm with
  | done => exact Nat.le_refl _
  | more hm _ ih =>
    have hc := hm.catalog_eq h.changesLocked
    exact Nat.le_trans (hm.pageCount_le h hsealed file)
      (ih (hm.matchesFiles h hsealed hserves) fun table file h => hc ▸ hserves table file h)

/-! ## Faults stay the same

A page that cannot be read has a fault in its file, and nobody writes there.  A page that is written
has been read before, and has no fault afterwards either. -/

/-- The store has the tables, the page size and the faults of `s₀`, its files can have the same
pages, and every page in memory can be read from its file. -/
structure SameFaults (s₀ s : Store) : Prop where
  catalog_eq : s.catalog = s₀.catalog
  pageSize_eq : s.pageSize = s₀.pageSize
  fault?_eq : ∀ p, s.fault? p = s₀.fault? p
  canHave_iff : ∀ file n, s.CanHave file n ↔ s₀.CanHave file n
  backed : ∀ p page, s.cache.pages.get? p = some page → s.fault? p = none

namespace SameFaults

theorem start (h : s.Fresh) : SameFaults s s where
  catalog_eq := rfl
  pageSize_eq := rfl
  fault?_eq _ := rfl
  canHave_iff _ _ := Iff.rfl
  backed p page hp := by
    rw [h.cache_eq] at hp
    cases hp

theorem slotsOn_eq (h : SameFaults s₀ s) (p : PageId) : s.slotsOn p = s₀.slotsOn p := by
  rw [slotsOn, slotsOn, h.catalog_eq, h.pageSize_eq]

/-- Pages that can be read may come into memory. -/
theorem of_sameFiles (h : SameFaults s₀ s) (hs : SameFiles s s')
    (ho : ∀ q page', s'.cache.pages.get? q = some page' →
      (∃ page, s.cache.pages.get? q = some page) ∨ ∃ page, s.readPage q = .ok page) :
    SameFaults s₀ s' where
  catalog_eq := hs.catalog_eq.trans h.catalog_eq
  pageSize_eq := hs.pageSize_eq.trans h.pageSize_eq
  fault?_eq q := (fault?_congr (hs.readPage_eq q)).trans (h.fault?_eq q)
  canHave_iff file n :=
    (canHave_congr (hs.wholePages_eq file) n).trans (h.canHave_iff file n)
  backed q page' hq := by
    rw [fault?_congr (hs.readPage_eq q)]
    rcases ho q page' hq with ⟨page, hq⟩ | ⟨page, hr⟩
    · exact h.backed q page hq
    · exact fault?_of_readPage hr

/-- One page that has no fault may be written, and has none then. -/
theorem rewrite (h : SameFaults s₀ s) (hc : s'.catalog = s.catalog)
    (hz : s'.pageSize = s.pageSize) (hp : s.fault? p = none) (hp' : ∃ page, s'.readPage p = .ok page)
    (hother : ∀ q, q ≠ p → s'.readPage q = s.readPage q)
    (hcan : ∀ file n, s'.CanHave file n ↔ s.CanHave file n)
    (hk : ∀ q page', s'.cache.pages.get? q = some page' →
      ∃ page, s.cache.pages.get? q = some page) : SameFaults s₀ s' := by
  have hsame : ∀ q, s'.fault? q = s.fault? q := fun q => by
    by_cases hq : q = p
    · obtain ⟨page, hread⟩ := hp'
      rw [hq, fault?_of_readPage hread, hp]
    · exact fault?_congr (hother q hq)
  refine ⟨hc.trans h.catalog_eq, hz.trans h.pageSize_eq, fun q => (hsame q).trans (h.fault?_eq q),
    fun file n => (hcan file n).trans (h.canHave_iff file n), fun q page' hq => ?_⟩
  obtain ⟨page, hq⟩ := hk q page' hq
  exact (hsame q).trans (h.backed q page hq)

theorem append (h : SameFaults s₀ s) (hi : s.catalog.Indexed)
    (hf : s.catalog.file file.id = .ok file) (hroom : file.HasRoom s.disk s.pageSize) :
    SameFaults s₀ { s with disk := (file.appendPage s.disk s.pageSize).2 } := by
  obtain ⟨page, hpage, -⟩ :=
    Page.decode_zeroed s.pageSize (file.page (s.pageCount file)) file.schema
  have hreads := readPage_patched hi hf (Bytes.length_zeros s.pageSize.bytes) hroom.takes
  have hpast : s.readPage (file.page (s.pageCount file)) = .error (.pageNotFound _) :=
    readPage_past (p := file.page (s.pageCount file)) hf (Nat.le_refl _)
  refine h.rewrite (p := file.page (s.pageCount file)) rfl rfl ?_ ⟨page, ?_⟩ (fun q hq => ?_)
    (canHave_append hroom) fun q page' hq => ⟨page', hq⟩
  · rw [fault?, hpast]
  · exact ((hreads _).trans (if_pos rfl)).trans hpage
  · exact (hreads q).trans (if_neg hq)

theorem flushPage (h : SameFaults s₀ s) (ht : s.MatchesFiles) (hf : s.flushPage p = .ok s') :
    SameFaults s₀ s' := by
  rcases flushPage_cases hf with ⟨rfl, -⟩ | ⟨page, file, disk, hp, hd, -, -, rfl⟩
  · exact h
  · obtain ⟨m, hm, hflushed⟩ := ht.flush hp hd
    cases hm.symm.trans hf
    refine h.rewrite rfl rfl (h.backed p page hp) hflushed.rereads hflushed.reads_eq
      (fun file => canHave_congr (hflushed.wholePages_eq file)) fun q page' hq => ?_
    rw [hflushed.pages] at hq
    split at hq
    · rename_i he
      exact ⟨page, he ▸ hp⟩
    · exact ⟨page', hq⟩

theorem commit (h : SameFaults s₀ s) (ht : s.MatchesFiles) (t : TxnId) : SameFaults s₀
    (s.commit t).2 := by
  have hf : (s.flushPages (s.cache.dirtyPages t)).2.MatchesFiles ∧
      SameFaults s₀ (s.flushPages (s.cache.dirtyPages t)).2 :=
    flushPages_induction (P := fun m => m.MatchesFiles ∧ SameFaults s₀ m)
      (fun _ _ _ hm hf => ⟨(hm.1.flushPage hf).matchesFiles, hm.2.flushPage hm.1 hf⟩) _ ⟨ht, h⟩
  rcases commit_cases s t with ⟨-, he⟩ | ⟨e, -, -, he⟩ | ⟨-, -, he⟩
  · rw [he]
    exact h
  · rw [he]
    exact hf.2
  · rw [he]
    exact hf.2.of_sameFiles ⟨rfl, rfl, rfl⟩ fun q page' hq => Or.inl ⟨page', hq⟩

end SameFaults

theorem Move.sameFaults (hm : Move sealed serves t es s s') (h : s.MatchesFiles) (hsealed : sealed)
    (hserves : ∀ table file, serves table file → s.catalog.file table = .ok file)
    (hs : SameFaults s₀ s) : SameFaults s₀ s' := by
  rcases hm.files h.changesLocked hsealed with ⟨hsame, ho⟩ | ⟨table, file, hf, hroom, rfl⟩ | rfl
  · exact hs.of_sameFiles hsame ho
  · have hf := hserves _ _ hf
    exact hs.append h.indexed (h.indexed _ _ hf ▸ hf) hroom
  · exact hs.commit h t

theorem Moves.sameFaults (hm : Moves sealed serves t es s s') (h : s.MatchesFiles)
    (hsealed : sealed) (hserves : ∀ table file, serves table file → s.catalog.file table = .ok file)
    (hs : SameFaults s₀ s) : SameFaults s₀ s' := by
  induction hm with
  | done => exact hs
  | more hm _ ih =>
    have hc := hm.catalog_eq h.changesLocked
    exact ih (hm.matchesFiles h hsealed hserves) (fun table file h => hc ▸ hserves table file h)
      (hm.sameFaults h hsealed hserves hs)

end Store
end TableStore

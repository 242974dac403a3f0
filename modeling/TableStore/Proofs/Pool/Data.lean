import TableStore.Proofs.Pool.Move
import TableStore.Proofs.TableFile

/-!
# The pages of a store and its files

As long as nobody else writes to the files, every page of every table can be read, every page in
memory is well-formed, and a clean page in memory holds the rows that its file holds.  The last two
hold also where some pages cannot be read.

## What is here

* `Catalog.Indexed` — every table is found under the identity of its file, as `Catalog.add` has it.
* `Store.stored?` — the row that the file of a table holds at a place.
* `Store.MatchesFiles` — pages in memory and in files agree.  `Store.MatchesReadable` — and all
  pages can be read.
* `Store.MatchesFiles.flush` — a page that is written; its rows are then those of its file.
* `Store.Move.matchesFiles`, `Store.Move.readable` — every move of a transaction keeps a store so.
-/

set_option autoImplicit false
namespace TableStore

/-! ## The catalog -/

/-- Every table is found under the identity of its file. -/
def Catalog.Indexed (c : Catalog) : Prop := ∀ table file, c.file table = .ok file → file.id = table

/-- The tables of a catalog and their files. -/
def Catalog.Serves (c : Catalog) (table : TableId) (file : TableFile) : Prop :=
  c.file table = .ok file

namespace Catalog

variable {c : Catalog}

theorem file_eq_ok_iff {table : TableId} {file : TableFile} :
    c.file table = .ok file ↔ ∃ t, c.byId.get? table = some t ∧ t.file = file := by
  rw [Catalog.file, Catalog.table]
  cases c.byId.get? table with
  | none => simp [Except.map]
  | some t => simp [Except.map]

theorem file_add (c : Catalog) (file : TableFile) (name key : String) :
    (c.add file name key).file file.id = .ok file :=
  file_eq_ok_iff.2 ⟨⟨file, name, key⟩, (Assoc.get?_insert ..).trans (if_pos rfl), rfl⟩

/-- A catalog with a single table knows no other file. -/
theorem eq_of_file_single {table : TableId} {file f : TableFile} {name key : String}
    (h : (Catalog.add {} file name key).file table = .ok f) : f = file := by
  obtain ⟨t, ht, rfl⟩ := file_eq_ok_iff.1 h
  rw [Catalog.add, Assoc.get?_insert] at ht
  split at ht
  · cases ht
    rfl
  · cases ht

theorem Indexed.empty : Indexed {} := fun table file h => by
  obtain ⟨t, ht, -⟩ := file_eq_ok_iff.1 h
  cases ht

theorem Indexed.of_erase (h : c.Indexed) {m : Catalog} {table : TableId}
    (hm : m.byId = c.byId.erase table) : m.Indexed := fun id file hf => by
  obtain ⟨t, ht, rfl⟩ := file_eq_ok_iff.1 hf
  rw [hm, Assoc.get?_erase] at ht
  split at ht
  · cases ht
  · exact h id t.file (file_eq_ok_iff.2 ⟨t, ht, rfl⟩)

/-- Registering a table keeps a catalog indexed. -/
theorem Indexed.add (h : c.Indexed) (file : TableFile) (name key : String) :
    (c.add file name key).Indexed := by
  have hname : (c.dropName name).Indexed := by
    rw [dropName]
    split
    · exact h
    · exact h.of_erase rfl
  have hid : ((c.dropName name).dropId file.id).Indexed := by
    rw [dropId]
    split
    · exact hname
    · exact hname.of_erase rfl
  intro id f hf
  obtain ⟨t, ht, rfl⟩ := file_eq_ok_iff.1 hf
  rw [Catalog.add, Assoc.get?_insert] at ht
  split at ht
  · rename_i he
    cases ht
    exact he.symm
  · exact hid id t.file (file_eq_ok_iff.2 ⟨t, ht, rfl⟩)

end Catalog

namespace Store

variable {s s' : Store} {t u : TxnId} {p : PageId}

/-! ## Rows in files

A page in memory has a home: the file of its table, which has a place for it.  What the file holds
there is what others would read. -/

/-- The row that the file of its table holds at a place. -/
def stored? (s : Store) (r : RecordId) : Option Row :=
  match s.readPage r.page with
  | .error _ => none
  | .ok page => page.row? r.slot

theorem stored?_of_readPage {page : Page} (h : s.readPage p = .ok page) (i : Nat) :
    s.stored? ⟨p, i⟩ = page.row? i := by
  rw [stored?, h]

/-- The file of a page in memory, which has the page, and for which the page is made. -/
structure Home (s : Store) (p : PageId) (page : Page) (file : TableFile) : Prop where
  file_eq : s.catalog.file p.table = .ok file
  lt : p.number < s.pageCount file
  formed : page.Formed s.pageSize file.schema

/-- A page is read from the file of its table. -/
theorem readPage_home {page : Page} (h : s.readPage p = .ok page) :
    ∃ file, s.Home p page file ∧ ∀ i, (page.row? i).map Row.stored = page.row? i := by
  rw [readPage] at h
  split at h
  · cases h
  · rename_i file hf
    rw [TableFile.readPage] at h
    split at h
    · rename_i hhas
      obtain ⟨hformed, hstored⟩ := Page.formed_of_decode h
      exact ⟨file, ⟨hf, (TableFile.hasPage_iff.1 hhas).2, hformed⟩, hstored⟩
    · cases h

/-- Every page of every table can be read, and every table is found under its identity. -/
structure Readable (s : Store) : Prop where
  indexed : s.catalog.Indexed
  readable : ∀ table file, s.catalog.file table = .ok file → ∀ n, n < s.pageCount file →
    ∃ page, s.readPage (file.page n) = .ok page

/-- A store with a single table, all of whose pages can be read. -/
theorem Readable.single {file : TableFile} {name key : String}
    (hc : s.catalog = Catalog.add {} file name key)
    (hp : ∀ n, n < s.pageCount file → (s.readPage (file.page n)).toOption ≠ none) :
    s.Readable where
  indexed := hc ▸ Catalog.Indexed.empty.add file name key
  readable table f hf n hn := by
    rw [hc] at hf
    obtain rfl := Catalog.eq_of_file_single hf
    obtain ⟨page, hpage⟩ := Option.ne_none_iff_exists'.1 (hp n hn)
    cases hr : s.readPage (f.page n) with
    | error e => rw [hr] at hpage; cases hpage
    | ok page => exact ⟨page, rfl⟩

/-- Pages in memory and in files agree. -/
structure MatchesFiles (s : Store) : Prop where
  changesLocked : s.ChangesLocked
  indexed : s.catalog.Indexed
  homes : ∀ p page, s.cache.pages.get? p = some page → ∃ file, s.Home p page file
  /-- A clean page holds the rows of its file; only texts may not have been cut yet. -/
  agrees : ∀ p page, s.cache.pages.get? p = some page → page.dirtier = none →
    ∀ i, (page.row? i).map Row.stored = s.stored? ⟨p, i⟩

/-- Pages in memory and in files agree, and all pages can be read. -/
structure MatchesReadable (s : Store) : Prop where
  changesLocked : s.ChangesLocked
  files : s.Readable
  homes : ∀ p page, s.cache.pages.get? p = some page → ∃ file, s.Home p page file
  agrees : ∀ p page, s.cache.pages.get? p = some page → page.dirtier = none →
    ∀ i, (page.row? i).map Row.stored = s.stored? ⟨p, i⟩

theorem MatchesReadable.matchesFiles (h : s.MatchesReadable) :
    s.MatchesFiles := ⟨h.changesLocked, h.files.indexed, h.homes, h.agrees⟩

theorem MatchesFiles.matchesReadable (h : s.MatchesFiles) (hr : s.Readable) : s.MatchesReadable :=
  ⟨h.changesLocked, hr, h.homes, h.agrees⟩

theorem Fresh.matchesFiles (h : s.Fresh) (hi : s.catalog.Indexed) : s.MatchesFiles where
  changesLocked := h.changesLocked
  indexed := hi
  homes p page hp := by rw [h.cache_eq] at hp; cases hp
  agrees p page hp := by rw [h.cache_eq] at hp; cases hp

theorem Fresh.matchesReadable (h : s.Fresh) (hr : s.Readable) : s.MatchesReadable :=
    (h.matchesFiles hr.indexed).matchesReadable hr

/-! ## Writing into a file -/

/-- The store after bytes have been written to the place of a page. -/
def patched (s : Store) (file : TableFile) (n : Nat) (bytes : Bytes) : Store :=
  { s with disk := s.disk.writeAt file.path (n * s.pageSize.bytes) bytes }

section

variable {file : TableFile} {n : Nat} {bytes : Bytes}

theorem pageCount_patched (hb : bytes.length = s.pageSize.bytes)
    (hn : file.Takes s.disk s.pageSize n) (g : TableFile) :
    (s.patched file n bytes).pageCount g =
      if g.path = file.path then max (s.pageCount g) (n + 1) else s.pageCount g := by
  by_cases hg : g.path = file.path
  · rw [if_pos hg]
    have := TableFile.pageCount_writeAt hb (hn.of_path hg)
    rw [hg] at this
    exact this
  · rw [if_neg hg]
    exact TableFile.pageCount_congr (TableFile.content_writeAt_of_ne hg _ _)

theorem pageCount_le_patched (hb : bytes.length = s.pageSize.bytes)
    (hn : file.Takes s.disk s.pageSize n) (g : TableFile) :
    s.pageCount g ≤ (s.patched file n bytes).pageCount g := by
  rw [pageCount_patched hb hn]
  split
  · exact Nat.le_max_left _ _
  · exact Nat.le_refl _

/-- Only the page that has been written reads differently. -/
theorem readPage_patched (hi : s.catalog.Indexed) (hf : s.catalog.file file.id = .ok file)
    (hb : bytes.length = s.pageSize.bytes) (hn : file.Takes s.disk s.pageSize n) (q : PageId) :
    (s.patched file n bytes).readPage q =
      if q = file.page n then Page.decode s.pageSize q file.schema bytes else s.readPage q := by
  have hc : (s.patched file n bytes).catalog = s.catalog := rfl
  rw [readPage, readPage, hc]
  cases hg : s.catalog.file q.table with
  | error e =>
    have hne : q ≠ file.page n := fun he => by
      rw [he] at hg
      cases hf.symm.trans hg
    rw [if_neg hne]
  | ok g =>
    dsimp only
    by_cases hp : g.path = file.path
    · have hid : g.id = file.id := by rw [g.id_eq, file.id_eq, hp]
      have hgf : g = file := by
        have := hi _ _ hg
        rw [← this, hid] at hg
        exact (Except.ok.inj (hf.symm.trans hg)).symm
      subst hgf
      exact TableFile.readPage_writeAt hb hn q
    · have hne : q ≠ file.page n := fun he => by
        rw [he] at hg
        exact hp (congrArg _ (Except.ok.inj (hg.symm.trans hf)))
      rw [if_neg hne]
      exact TableFile.readPage_congr (TableFile.content_writeAt_of_ne hp _ _) q

/-- A file stays readable when a page that can be read is written into it. -/
theorem Readable.patched (h : s.Readable) (hf : s.catalog.file file.id = .ok file)
    (hb : bytes.length = s.pageSize.bytes) (hn : file.Takes s.disk s.pageSize n)
    (hd : ∃ page, Page.decode s.pageSize (file.page n) file.schema bytes = .ok page) :
    (s.patched file n bytes).Readable where
  indexed := h.indexed
  readable table g hg k hk := by
    rw [readPage_patched h.indexed hf hb hn]
    split
    · rename_i he
      rw [he]
      exact hd
    · rename_i hne
      refine h.readable table g hg k ?_
      rw [pageCount_patched hb hn] at hk
      split at hk
      · rename_i hp
        have hid : g.id = file.id := by rw [g.id_eq, file.id_eq, hp]
        have hkn : k ≠ n := fun he => hne (by rw [TableFile.page, TableFile.page, he, hid])
        have hc : s.pageCount g = s.pageCount file := by
          rw [pageCount, pageCount, TableFile.pageCount_of_path hp]
        have hle : n ≤ s.pageCount file := hn.le_pageCount
        omega
      · exact hk

end

/-! ## Moves that leave the files alone -/

/-- Two stores with the same files. -/
structure SameFiles (s s' : Store) : Prop where
  disk_eq : s'.disk = s.disk
  catalog_eq : s'.catalog = s.catalog
  pageSize_eq : s'.pageSize = s.pageSize

namespace SameFiles

theorem trans {m : Store} (h : SameFiles s m) (h' : SameFiles m s') : SameFiles s s' where
  disk_eq := h'.disk_eq.trans h.disk_eq
  catalog_eq := h'.catalog_eq.trans h.catalog_eq
  pageSize_eq := h'.pageSize_eq.trans h.pageSize_eq

theorem readPage_eq (h : SameFiles s s') (q : PageId) : s'.readPage q = s.readPage q := by
  simp only [readPage, h.disk_eq, h.catalog_eq, h.pageSize_eq]

theorem wholePages_eq (h : SameFiles s s') (f : TableFile) : s'.wholePages f = s.wholePages f := by
  simp only [wholePages, h.disk_eq, h.pageSize_eq]

theorem pageCount_eq (h : SameFiles s s') (f : TableFile) : s'.pageCount f = s.pageCount f := by
  simp only [pageCount, h.disk_eq, h.pageSize_eq]

theorem stored?_eq (h : SameFiles s s') (r : RecordId) : s'.stored? r = s.stored? r := by
  rw [stored?, stored?, h.readPage_eq]

theorem home (h : SameFiles s s') {page : Page} {file : TableFile} (hh : s.Home p page file) :
    s'.Home p page file where
  file_eq := h.catalog_eq ▸ hh.file_eq
  lt := h.pageCount_eq file ▸ hh.lt
  formed := h.pageSize_eq ▸ hh.formed

theorem readable (h : SameFiles s s') (hr : s.Readable) : s'.Readable where
  indexed := h.catalog_eq ▸ hr.indexed
  readable table file hf n hn := by
    rw [h.readPage_eq]
    exact hr.readable table file (h.catalog_eq ▸ hf) n (h.pageCount_eq file ▸ hn)

end SameFiles

theorem Refreshes.sameFiles (h : s.Refreshes p s') : SameFiles s s' :=
  ⟨h.disk_eq, h.catalog_eq, h.pageSize_eq⟩

theorem Discarded.sameFiles {us : List TxnId} (h : Discarded us s s') : SameFiles s s' := by
  obtain ⟨cache, locks, stats, rfl⟩ := h.rest
  exact ⟨rfl, rfl, rfl⟩

/-- Pages may come from their files and be dropped. -/
theorem MatchesFiles.of_sameFiles (h : s.MatchesFiles) (hs : SameFiles s s') (hg : s'.ChangesLocked)
    (ho : ∀ q page, s'.cache.pages.get? q = some page →
      s.cache.pages.get? q = some page ∨ s.readPage q = .ok page) : s'.MatchesFiles where
  changesLocked := hg
  indexed := hs.catalog_eq ▸ h.indexed
  homes q page hq := by
    rcases ho q page hq with hq | hq
    · obtain ⟨file, hh⟩ := h.homes q page hq
      exact ⟨file, hs.home hh⟩
    · obtain ⟨file, hh, -⟩ := readPage_home hq
      exact ⟨file, hs.home hh⟩
  agrees q page hq hd i := by
    rw [hs.stored?_eq]
    rcases ho q page hq with hq | hq
    · exact h.agrees q page hq hd i
    · obtain ⟨-, -, hstored⟩ := readPage_home hq
      rw [stored?_of_readPage hq, hstored]

theorem MatchesFiles.relock (h : s.MatchesFiles) {m : LockTable}
    (hg : ChangesLocked { s with locks := m }) : MatchesFiles { s with locks := m } :=
  h.of_sameFiles ⟨rfl, rfl, rfl⟩ hg fun _ _ hq => Or.inl hq

/-- A page may be replaced by a well-formed copy with changes. -/
theorem MatchesFiles.edit (h : s.MatchesFiles) {page copy : Page}
    (hp : s.cache.pages.get? p = some page)
    (hid : copy.id = p) (hg : (s.edited t copy).ChangesLocked)
    (hf : ∀ size schema, page.Formed size schema → copy.Formed size schema) :
    (s.edited t copy).MatchesFiles where
  changesLocked := hg
  indexed := h.indexed
  homes q page' hq := by
    by_cases he : q = p
    · obtain ⟨file, hh⟩ := h.homes p page hp
      rw [edited, Cache.get?_put, if_pos (he.trans hid.symm)] at hq
      cases hq
      exact ⟨file, he ▸ hh.file_eq, he ▸ hh.lt, (hf _ _ hh.formed).marked _ _⟩
    · rw [get?_edited (hid ▸ he)] at hq
      obtain ⟨file, hh⟩ := h.homes q page' hq
      exact ⟨file, hh.file_eq, hh.lt, hh.formed⟩
  agrees q page' hq hd i := by
    by_cases he : q = p
    · rw [edited, Cache.get?_put, if_pos (he.trans hid.symm)] at hq
      cases hq
      cases hd
    · rw [get?_edited (hid ▸ he)] at hq
      exact h.agrees q page' hq hd i

/-! ## Moves that write

Pages are written to places that are there, so a write changes no count.  A page that is added holds
no rows, so no place comes to hold another row. -/

theorem Home.patched {page : Page} {g file : TableFile} {n : Nat} {bytes : Bytes}
    (h : s.Home p page g) (hb : bytes.length = s.pageSize.bytes)
    (hn : file.Takes s.disk s.pageSize n) : (s.patched file n bytes).Home p page g :=
  ⟨h.file_eq, Nat.lt_of_lt_of_le h.lt (pageCount_le_patched hb hn g), h.formed⟩

/-- Only the places of the page that has been written change. -/
theorem stored?_patched (hi : s.catalog.Indexed) {file : TableFile} {n : Nat} {bytes : Bytes}
    (hf : s.catalog.file file.id = .ok file) (hb : bytes.length = s.pageSize.bytes)
    (hn : file.Takes s.disk s.pageSize n) {page : Page}
    (hd : Page.decode s.pageSize (file.page n) file.schema bytes = .ok page) (r : RecordId) :
    (s.patched file n bytes).stored? r =
      if r.page = file.page n then page.row? r.slot else s.stored? r := by
  rw [stored?, readPage_patched hi hf hb hn]
  by_cases he : r.page = file.page n
  · rw [if_pos he, if_pos he, he, hd]
  · rw [if_neg he, if_neg he, stored?]

/-- An appended page holds no rows, so no place changes. -/
theorem stored?_append (hi : s.catalog.Indexed) {file : TableFile}
    (hf : s.catalog.file file.id = .ok file) (hroom : file.HasRoom s.disk s.pageSize)
    (r : RecordId) :
    { s with disk := (file.appendPage s.disk s.pageSize).2 }.stored? r = s.stored? r := by
  obtain ⟨page, hpage, hrow⟩ :=
    Page.decode_zeroed s.pageSize (file.page (s.pageCount file)) file.schema
  refine (stored?_patched hi hf (Bytes.length_zeros _) hroom.takes hpage r).trans ?_
  split
  · rename_i he
    have hold : s.readPage r.page = .error (.pageNotFound r.page) := by
      rw [readPage, he, TableFile.page, hf]
      exact if_neg fun hh => Nat.lt_irrefl _ (TableFile.hasPage_iff.1 hh).2
    rw [hrow, stored?, hold]
  · rfl

theorem MatchesFiles.append (h : s.MatchesFiles) {file : TableFile}
    (hf : s.catalog.file file.id = .ok file) (hroom : file.HasRoom s.disk s.pageSize) :
    { s with disk := (file.appendPage s.disk s.pageSize).2 }.MatchesFiles where
  changesLocked :=
    ⟨h.changesLocked.consistent, h.changesLocked.sound, h.changesLocked.owned,
      h.changesLocked.marked⟩
  indexed := h.indexed
  homes q page hq := by
    obtain ⟨g, hh⟩ := h.homes q page hq
    exact ⟨g, hh.patched (Bytes.length_zeros _) hroom.takes⟩
  agrees q page hq hd i := by
    rw [stored?_append h.indexed hf hroom]
    exact h.agrees q page hq hd i

theorem Readable.append (h : s.Readable) {file : TableFile}
    (hf : s.catalog.file file.id = .ok file) (hroom : file.HasRoom s.disk s.pageSize) :
    { s with disk := (file.appendPage s.disk s.pageSize).2 }.Readable := by
  obtain ⟨page, hpage, -⟩ :=
    Page.decode_zeroed s.pageSize (file.page (s.pageCount file)) file.schema
  exact h.patched hf (Bytes.length_zeros _) hroom.takes ⟨page, hpage⟩

/-- Pages have been written to their places. -/
structure Rewritten (s s' : Store) : Prop where
  matchesFiles : s'.MatchesFiles
  readable : s.Readable → s'.Readable
  pageSize_eq : s'.pageSize = s.pageSize
  length_eq : ∀ q, (s'.disk.content q).length = (s.disk.content q).length

theorem MatchesFiles.rewritten (h : s.MatchesFiles) : Rewritten s s := ⟨h, id, rfl, fun _ => rfl⟩

theorem Rewritten.trans {m : Store} (h : Rewritten s m) (h' : Rewritten m s') : Rewritten s s' where
  matchesFiles := h'.matchesFiles
  readable := h'.readable ∘ h.readable
  pageSize_eq := h'.pageSize_eq.trans h.pageSize_eq
  length_eq q := (h'.length_eq q).trans (h.length_eq q)

theorem Rewritten.wholePages_eq (h : Rewritten s s') (file : TableFile) :
    s'.wholePages file = s.wholePages file := by
  rw [wholePages, wholePages, TableFile.wholePages, TableFile.wholePages, h.length_eq,
    h.pageSize_eq]

theorem Rewritten.pageCount_eq (h : Rewritten s s') (file : TableFile) :
    s'.pageCount file = s.pageCount file :=
  congrArg (· % TableFile.pageLimit) (h.wholePages_eq file)

/-- The page `page` has been written to its place. -/
structure Flushed (p : PageId) (page : Page) (s s' : Store) : Prop extends Rewritten s s' where
  rereads : ∃ page', s'.readPage p = .ok page'
  reads_eq : ∀ q, q ≠ p → s'.readPage q = s.readPage q
  locks_eq : s'.locks = s.locks
  pages : ∀ q, s'.cache.pages.get? q = if q = p then some page.clean else s.cache.pages.get? q
  stored : ∀ r, s'.stored? r =
    if r.page = p then (page.row? r.slot).map Row.stored else s.stored? r

/-- **A changed page can be written**, and its file then holds its rows, cut to what is stored. -/
theorem MatchesFiles.flush (h : s.MatchesFiles) {page : Page}
    (hp : s.cache.pages.get? p = some page)
    (hd : page.dirtier ≠ none) : ∃ s', s.flushPage p = .ok s' ∧ Flushed p page s s' := by
  have hid := h.changesLocked.sound.keyed p page hp
  obtain ⟨file, hh⟩ := h.homes p page hp
  have htable := h.indexed _ _ hh.file_eq
  have hpage : file.page p.number = p := by rw [TableFile.page, htable]
  have hf : s.catalog.file file.id = .ok file := htable ▸ hh.file_eq
  have hb : page.encode.length = s.pageSize.bytes :=
    (Page.length_encode page).trans hh.formed.size_eq
  have hn : file.Takes s.disk s.pageSize p.number := Or.inl hh.lt
  have hwhole : p.number < file.wholePages s.disk s.pageSize :=
    Nat.lt_of_lt_of_le hh.lt (file.pageCount_le_wholePages _ _)
  obtain ⟨q, hq, hrow⟩ := hh.formed.decode_encode
  rw [hid, ← hpage] at hq
  have hflush : s.flushPage p = .ok (s.settled p page
      (s.disk.writeAt file.path (p.number * s.pageSize.bytes) page.encode)) := by
    have hdirty : (!page.isDirty) = false := by
      rw [Page.isDirty, Bool.not_eq_false', Option.isSome_iff_ne_none]
      exact hd
    have hhas : file.hasPage s.disk s.pageSize p = true :=
      TableFile.hasPage_iff.2 ⟨htable.symm, hh.lt⟩
    rw [flushPage, hp]
    dsimp only
    rw [hdirty, if_neg Bool.false_ne_true, writePage, hid, hh.file_eq]
    dsimp only
    rw [TableFile.writePage, hid, if_pos hhas]
    rfl
  have hstored : ∀ r, (s.settled p page
      (s.disk.writeAt file.path (p.number * s.pageSize.bytes) page.encode)).stored? r =
      if r.page = p then (page.row? r.slot).map Row.stored else s.stored? r := fun r => by
    refine (stored?_patched h.indexed hf hb hn hq r).trans ?_
    rw [hpage, hrow]
  have hpages : ∀ q, (s.settled p page
      (s.disk.writeAt file.path (p.number * s.pageSize.bytes) page.encode)).cache.pages.get? q =
      if q = p then some page.clean else s.cache.pages.get? q := fun q => Assoc.get?_insert _ _ _ _
  have hreads := readPage_patched h.indexed hf hb hn
  rw [hpage] at hreads hq
  refine ⟨_, hflush, ⟨⟨h.changesLocked.flushPage hflush, h.indexed, fun q page' hq' => ?_,
    fun q page' hq' hd' i => ?_⟩, fun hr => ?_, rfl, TableFile.length_writeAt hb hwhole⟩,
    ⟨q, ?_⟩, fun r hr => ?_, rfl, hpages, hstored⟩
  · rw [hpages] at hq'
    split at hq'
    · rename_i he
      cases hq'
      have hc := hh.patched hb hn
      exact ⟨file, he ▸ hc.file_eq, he ▸ hc.lt, hc.formed.marked _ _⟩
    · obtain ⟨g, hg⟩ := h.homes q page' hq'
      have hc := hg.patched hb hn
      exact ⟨g, hc.file_eq, hc.lt, hc.formed⟩
  · rw [hpages] at hq'
    rw [hstored]
    split at hq'
    · rename_i he
      cases hq'
      exact (if_pos he).symm
    · rename_i he
      exact (h.agrees q page' hq' hd' i).trans (if_neg he).symm
  · have hr := hr.patched hf hb hn ⟨q, hpage.symm ▸ hq⟩
    exact ⟨hr.indexed, hr.readable⟩
  · exact ((hreads p).trans (if_pos rfl)).trans hq
  · exact (hreads r).trans (if_neg hr)

theorem MatchesFiles.flushPage (h : s.MatchesFiles) (hf : s.flushPage p = .ok s') :
    Rewritten s s' := by
  rcases flushPage_cases hf with ⟨rfl, -⟩ | ⟨page, file, disk, hp, hd, -, -, -⟩
  · exact h.rewritten
  · obtain ⟨m, hm, hflushed⟩ := h.flush hp hd
    cases hm.symm.trans hf
    exact hflushed.toRewritten

/-! ## All moves -/

theorem MatchesFiles.flushPages (h : s.MatchesFiles) (ps : List PageId) : Rewritten s
    (s.flushPages ps).2 :=
  flushPages_induction (P := Rewritten s)
    (fun _ _ _ hs hf => hs.trans (hs.matchesFiles.flushPage hf)) ps h.rewritten

theorem MatchesFiles.commit (h : s.MatchesFiles) (t : TxnId) : Rewritten s (s.commit t).2 := by
  have hf := h.flushPages (s.cache.dirtyPages t)
  have hg := h.changesLocked.commit t
  rcases commit_cases s t with ⟨-, he⟩ | ⟨e, -, -, he⟩ | ⟨-, -, he⟩
  · rw [he]
    exact h.rewritten
  · rw [he]
    exact hf
  · rw [he] at hg ⊢
    refine ⟨hf.matchesFiles.relock hg, fun hr => ?_, hf.pageSize_eq, hf.length_eq⟩
    exact ⟨(hf.readable hr).indexed, (hf.readable hr).readable⟩

variable {sealed : Prop} {serves : TableId → TableFile → Prop} {es : List Event}

/-- Every move keeps pages in memory and in files in agreement. -/
theorem Move.matchesFiles (hm : Move sealed serves t es s s') (h : s.MatchesFiles)
    (hsealed : sealed)
    (hserves : ∀ table file, serves table file → s.catalog.file table = .ok file) :
    s'.MatchesFiles := by
  have hg := hm.changesLocked h.changesLocked
  cases hm with
  | look => exact h.relock hg
  | refresh hr =>
    refine h.of_sameFiles hr.sameFiles hg fun q page hq => ?_
    exact (hr.origin q page hq).imp_right fun ho => ho.2.2
  | giveBack => exact h.relock hg
  | append hs hroom =>
    have hf := hserves _ _ hs
    exact h.append (h.indexed _ _ hf ▸ hf) (hroom hsealed)
  | refuse => exact h
  | read => exact h
  | copy => exact h
  | insert hp _ _ _ _ he =>
    have hid := (Page.insert_id he).trans (h.changesLocked.sound.keyed _ _ hp)
    exact h.edit hp hid hg fun size schema hf => (hf.insert he).1
  | remove hp _ _ he =>
    have hid := (Page.remove_id he).trans (h.changesLocked.sound.keyed _ _ hp)
    exact h.edit hp hid hg fun size schema hf => (hf.remove he).1
  | @strike _ k _ _ hk =>
    have hr := discarded_foldl_rollBack (s := { s with locks := k }.bump .deadlocks)
      (hk.same.consistent h.changesLocked.consistent) h.changesLocked.sound (s.locks.victimsOf t)
    have hs := hr.sameFiles
    exact h.of_sameFiles ⟨hs.disk_eq, hs.catalog_eq, hs.pageSize_eq⟩ hg fun q page hq =>
      Or.inl (hr.origin q page hq).1
  | commit => exact (h.commit t).matchesFiles
  | abort =>
    have hr := discarded_abort h.changesLocked.consistent h.changesLocked.sound t
    exact h.of_sameFiles hr.sameFiles hg fun q page hq => Or.inl (hr.origin q page hq).1

/-- Every move leaves all pages readable. -/
theorem Move.readable (hm : Move sealed serves t es s s') (h : s.MatchesFiles) (hsealed : sealed)
    (hserves : ∀ table file, serves table file → s.catalog.file table = .ok file)
    (hr : s.Readable) : s'.Readable := by
  cases hm with
  | refresh hf => exact hf.sameFiles.readable hr
  | append hs hroom =>
    have hf := hserves _ _ hs
    exact hr.append (h.indexed _ _ hf ▸ hf) (hroom hsealed)
  | @strike _ k _ _ hk =>
    have hd := discarded_foldl_rollBack (s := { s with locks := k }.bump .deadlocks)
      (hk.same.consistent h.changesLocked.consistent) h.changesLocked.sound (s.locks.victimsOf t)
    exact hd.sameFiles.readable ⟨hr.indexed, hr.readable⟩
  | commit => exact (h.commit t).readable hr
  | abort =>
    exact (discarded_abort h.changesLocked.consistent h.changesLocked.sound t).sameFiles.readable hr
  | _ => exact ⟨hr.indexed, hr.readable⟩

end Store
end TableStore

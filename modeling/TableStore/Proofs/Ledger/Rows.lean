import Mathlib.Data.List.Nodup
import TableStore.Proofs.Ledger.Conservation
import TableStore.Proofs.Ledger.Run

/-!
# The rows in the files

What is committed is what the files hold, up to texts that are too long to be stored.  So no row of
a committed transaction is ever lost in the file of its table, and none is there twice.

## What is here

* `Store.fileRows` — the rows that the file of a table holds.
* `Store.mem_fileRows`, `Store.nodup_fileRows` — these are the rows at the places of the table, each
  of them once.
* `Store.MatchesFiles.stored?_eq` — the files hold the committed rows as they are stored.
* `Session.file_rows_conserved` — the rows in a file are those at first with the changes of the
  committed transactions.
-/

set_option autoImplicit false
namespace TableStore
namespace Store

variable {s : Store} {table : TableId} {file : TableFile} {y : Row}

/-! ## Rows in a file -/

/-- The rows that the file of a table holds, page by page. -/
def fileRows (s : Store) (file : TableFile) : List Row :=
  (List.range (s.wholePages file)).flatMap fun n =>
    match s.readPage (file.page n) with
    | .error _ => []
    | .ok page => page.rows

/-- A row that is stored knows its place. -/
theorem rid_of_stored? {r : RecordId} (h : s.stored? r = some y) : y.rid = some r := by
  rw [stored?] at h
  split at h
  · cases h
  · rename_i page hread
    obtain ⟨file, hh, -⟩ := readPage_home hread
    rw [hh.formed.placed r.slot y h, (of_readPage hread).1]

theorem mem_pageRows {p : PageId} :
    (y ∈ match s.readPage p with
      | .error _ => []
      | .ok page => page.rows) ↔ ∃ i, s.stored? ⟨p, i⟩ = some y := by
  simp only [stored?]
  cases s.readPage p with
  | error e => simp
  | ok page => exact Page.mem_rows

/-- The rows in a file are those at the places of its table. -/
theorem mem_fileRows (hi : s.catalog.Indexed) (hf : s.catalog.file table = .ok file) :
    y ∈ s.fileRows file ↔ ∃ r, r.page.table = table ∧ s.stored? r = some y := by
  have hid := hi table file hf
  rw [fileRows, List.mem_flatMap]
  constructor
  · rintro ⟨n, -, hy⟩
    obtain ⟨i, hy⟩ := mem_pageRows.1 hy
    exact ⟨⟨file.page n, i⟩, hid, hy⟩
  · rintro ⟨⟨⟨table', n⟩, i⟩, rfl, hy⟩
    have hpage : file.page n = ⟨table', n⟩ := congrArg (PageId.mk · n) hid
    refine ⟨n, List.mem_range.2 ?_, mem_pageRows.2 ⟨i, hpage ▸ hy⟩⟩
    rw [stored?] at hy
    split at hy
    · cases hy
    · rename_i page hread
      obtain ⟨file', hh, -⟩ := readPage_home hread
      obtain rfl : file = file' := Except.ok.inj (hf.symm.trans hh.file_eq)
      exact Nat.lt_of_lt_of_le hh.lt (file.pageCount_le_wholePages s.disk s.pageSize)

/-- No row is in a file twice. -/
theorem nodup_fileRows (s : Store) (file : TableFile) : (s.fileRows file).Nodup := by
  rw [fileRows, List.nodup_flatMap]
  constructor
  · intro n _
    split
    · exact List.nodup_nil
    · rename_i page hread
      obtain ⟨file, hh, -⟩ := readPage_home hread
      exact hh.formed.nodup_rows
  · refine List.nodup_range.imp fun {m n} hmn => ?_
    intro y hm hn
    obtain ⟨i, hm⟩ := mem_pageRows.1 hm
    obtain ⟨j, hn⟩ := mem_pageRows.1 hn
    have hplace := rid_of_stored? hm
    rw [rid_of_stored? hn] at hplace
    cases hplace
    exact hmn rfl

/-- The files hold the committed rows as they are stored. -/
theorem MatchesFiles.stored?_eq (h : s.MatchesFiles) (r : RecordId) :
    s.stored? r = (s.ledger.committed r).map Row.stored := by
  by_cases hclean : ∃ page, s.cache.pages.get? r.page = some page ∧ page.dirtier = none
  · obtain ⟨page, hp, hd⟩ := hclean
    exact (h.agrees r.page page hp hd r.slot).symm.trans
      (congrArg _ (committed_of_clean hp hd r.slot).symm)
  · have hc : s.ledger.committed r = s.stored? r :=
      committed_of_not_clean (fun page hp hd => hclean ⟨page, hp, hd⟩) r.slot
    rw [hc, stored?]
    split
    · rfl
    · rename_i page hread
      obtain ⟨-, -, hstored⟩ := readPage_home hread
      exact (hstored r.slot).symm

/-- A row is in the file if it is committed at its place, and otherwise it is not. -/
theorem MatchesReadable.count_fileRows (h : s.MatchesReadable)
    (hf : s.catalog.file table = .ok file)
    {r : RecordId} (hy : y.rid = some r) (ht : r.page.table = table) :
    (s.fileRows file).count y = Ledger.shown (s.ledger.committed r) y := by
  rw [Ledger.shown, ← h.matchesFiles.stored?_eq]
  split
  · rename_i hr
    refine List.count_eq_one_of_mem (nodup_fileRows s file) ?_
    exact (mem_fileRows h.files.indexed hf).2 ⟨r, ht, hr⟩
  · rename_i hr
    refine List.count_eq_zero.2 fun hm => ?_
    obtain ⟨q, -, hq⟩ := (mem_fileRows h.files.indexed hf).1 hm
    have hplace := rid_of_stored? hq
    rw [hy] at hplace
    cases hplace
    exact hr hq

end Store

namespace Session

open Event (committedRows inserted? removed?)

variable {s₀ : Store} {h : List Event} {σ : Session} {table : TableId} {file : TableFile}

/-- **No committed row is lost or doubled.**  Transactions run beside each other in any order, wait
for locks, are granted them, become victims or run out of time, and none of them does anything after
its end.  Then at any time, as long as the files of all tables have room, whatever a transaction may
do next comes to an end.  All pages of a table can be read from its file, and the rows in it are
those that were there at first and those that committed transactions have put in, without those
that they have taken away. -/
theorem file_rows_conserved (hf : s₀.Fresh) (hs : s₀.Readable) (hr : Run s₀ h σ)
    (ho : Event.Once h) (hroom : ∀ table file, s₀.catalog.file table = .ok file →
      file.HasRoom σ.store.disk σ.store.pageSize)
    (hfile : s₀.catalog.file table = .ok file) :
    (∀ t a run, Attempt t σ a run → a.Served s₀.catalog.Serves s₀.catalog → run.1.ends = true) ∧
    (∀ n, n < σ.store.wholePages file → ∃ page, σ.store.readPage (file.page n) = .ok page) ∧
    (σ.store.fileRows file ++ committedRows (removed? table) h).Perm
      (s₀.fileRows file ++ committedRows (inserted? table) h) := by
  have hfollows := hr.followsLedger hf hs.indexed
  have hi := (hr.followsReadable hf hs).matchesReadable
  have hi₀ := hf.matchesReadable hs
  have hfile' : σ.store.catalog.file table = .ok file := hfollows.catalog_eq ▸ hfile
  have hl := hfollows.run.conserved (fun t p => Store.overlay_eq_none fun page hp => by
    rw [hf.cache_eq] at hp
    cases hp) ho
  refine ⟨fun t a run hattempt ha => ?_, fun n hn => ?_, List.perm_iff_count.2 fun y => ?_⟩
  · exact hattempt.ends (hfollows.catalog_eq.symm ▸ ha) hfollows.callsFit hfollows.counted hroom
  · have hcount : σ.store.pageCount file = _ := (hroom table file hfile).pageCount_eq
    exact hi.files.readable table file hfile' n (Nat.lt_of_lt_of_eq hn hcount.symm)
  rw [List.count_append, List.count_append]
  by_cases hy : ∃ r, y.rid = some r ∧ r.page.table = table
  · obtain ⟨r, hy, rfl⟩ := hy
    rw [hi.count_fileRows hfile' hy rfl, hi₀.count_fileRows hfile hy rfl]
    exact hl.settled r y hy
  · -- A row that has no place in the table is nowhere.
    have hstored : ∀ {s : Store}, s.catalog.Indexed → s.catalog.file table = .ok file →
        y ∉ s.fileRows file := fun hi hf hm => by
      obtain ⟨r, ht, hr⟩ := (Store.mem_fileRows hi hf).1 hm
      exact hy ⟨r, Store.rid_of_stored? hr, ht⟩
    have hremoved : y ∉ committedRows (removed? table) h := fun hm => by
      obtain ⟨e, -, -, row, hrow, rfl⟩ := Event.mem_rowsBy.1 hm
      obtain ⟨r, hrid, ht⟩ := Event.place_of_removed? hrow
      exact hy ⟨r, hrid, ht⟩
    have hinserted : y ∉ committedRows (inserted? table) h := fun hm => by
      obtain ⟨e, he, -, row, hrow, rfl⟩ := Event.mem_rowsBy.1 hm
      rw [Event.inserted?_eq_some_iff.1 hrow] at he
      obtain ⟨r, hrid, ht⟩ := hfollows.run.inserted_place he
      exact hy ⟨r, hrid, ht⟩
    rw [List.count_eq_zero.2 (hstored hi.files.indexed hfile'),
      List.count_eq_zero.2 (hstored hs.indexed hfile), List.count_eq_zero.2 hremoved,
      List.count_eq_zero.2 hinserted]

/-- Two transactions look for a free slot, and the second has to wait; a third one takes away the
row of the first. -/
def crowded : Option (List Event × Session) :=
  let place : RecordId := ⟨TableFile.numbers.page 0, 0⟩
  (idle .numbers).play?
    [(⟨1⟩, .begin (.insert TableFile.numbers.id { values := [.int 7] })), (⟨1⟩, .ask),
      (⟨2⟩, .begin (.insert TableFile.numbers.id { values := [.int 8] })), (⟨2⟩, .ask),
      (⟨1⟩, .commit), (⟨2⟩, .wake), (⟨2⟩, .ask), (⟨2⟩, .commit),
      (⟨3⟩, .begin (.remove { values := [.int 7], rid := some place })), (⟨3⟩, .ask),
      (⟨3⟩, .commit)]

theorem file_rows_conserved_crowded :
    Store.numbers.Fresh ∧ Store.numbers.Readable ∧ ∃ h σ, crowded = some (h, σ) ∧
      Run .numbers h σ ∧ Event.Once h ∧
      (∀ table file, Store.numbers.catalog.file table = .ok file →
        file.HasRoom σ.store.disk σ.store.pageSize) ∧
      (committedRows (inserted? TableFile.numbers.id) h).length = 2 ∧
      (σ.store.fileRows .numbers ++ committedRows (removed? TableFile.numbers.id) h).Perm
        (Store.numbers.fileRows .numbers ++ committedRows (inserted? TableFile.numbers.id) h) := by
  have hf : Store.numbers.Fresh := ⟨rfl, rfl⟩
  have hs : Store.numbers.Readable := .single rfl (by decide +kernel)
  have hp : crowded.map (fun run => decide (Event.Once run.1 ∧
      TableFile.numbers.HasRoom run.2.store.disk run.2.store.pageSize ∧
      (committedRows (inserted? TableFile.numbers.id) run.1).length = 2)) = some true := by
    decide +kernel
  obtain ⟨⟨h, σ⟩, hp, hm⟩ := Option.map_eq_some_iff.1 hp
  obtain ⟨ho, hnumbers, hlength⟩ := of_decide_eq_true hm
  have hroom : ∀ table file, Store.numbers.catalog.file table = .ok file →
      file.HasRoom σ.store.disk σ.store.pageSize := fun table file hf => by
    obtain rfl := Catalog.eq_of_file_single hf
    exact hnumbers
  have hr : Run .numbers h σ :=
    Run.start.play (by simp [Action.Served, Call.Served, Catalog.Serves]) hp
  have hfile : Store.numbers.catalog.file TableFile.numbers.id = .ok .numbers :=
    Catalog.file_add _ _ _ _
  exact ⟨hf, hs, h, σ, hp, hr, ho, hroom, hlength,
    (file_rows_conserved hf hs hr ho hroom hfile).2.2⟩

end Session
end TableStore

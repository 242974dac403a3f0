import TableStore.Proofs.Pool.Frame

/-!
# Commits that fail

A commit writes its pages one after the other and stops at the first one that cannot be written.
The pages before that one have been written then and count as clean, so an abort does not take them
back.

## What is here

* `Store.abort_rest` — an abort writes nothing and leaves nothing of its transaction.
* `Store.aborted_after_failure` — what is in the files after a commit that fails and an abort.
* `Store.failure_leaves_writes` — they need not be as they were before the commit.
-/

set_option autoImplicit false
namespace TableStore
namespace Store

variable {s₀ s : Store} {t : TxnId} {p : PageId} {ps : List PageId} {ds : List Deed} {e : Error}

/-- An abort leaves nothing of its transaction, and writes nothing. -/
theorem abort_rest (h : s.NobodyWaits) (t : TxnId) :
    (s.abort t).disk = s.disk ∧ (s.abort t).cache.dirtyPages t = [] ∧
      (∀ p, (s.abort t).holds t p = false) ∧ t ∉ (s.abort t).locks.aborted := by
  have hd := discarded_abort h.locks.consistent h.sound t
  refine ⟨hd.sameFiles.disk_eq, List.eq_nil_iff_forall_not_mem.2 fun p hp => ?_, fun p => ?_,
    fun ha => ?_⟩
  · obtain ⟨page, hpage, hdirty⟩ := Cache.mem_dirtyPages.1 hp
    exact (hd.origin p page hpage).2 t (List.mem_singleton_self t) hdirty
  · rw [holds, LockTable.holds, hd.heldMode?_eq, if_pos (List.mem_singleton_self t)]
    rfl
  · rw [locks_abort] at ha
    exact (LockTable.mem_aborted_complete.1 ha).1 rfl

/-- The files are as they were if the pages that have been written were in them already. -/
theorem Wrote.unchanged_iff {d : Disk} (h : s.Wrote ps d)
    (hd : ∀ p ∈ ps, ∃ page, s.cache.pages.get? p = some page ∧ page.dirtier ≠ none) :
    (∀ q, d.content q = s.disk.content q) ↔
      ∀ p ∈ ps, ∀ page, s.cache.pages.get? p = some page → ∃ file,
        s.catalog.file p.table = .ok file ∧
          s.disk.pageAt s.pageSize file.path p.number = page.encode := by
  constructor
  · intro hsame p hp page hpage
    obtain ⟨page', hpage', hdirty⟩ := hd p hp
    obtain rfl : page' = page := Option.some.inj (hpage'.symm.trans hpage)
    obtain ⟨file, hf, -, hb⟩ := h.bytes p hp page' hpage hdirty
    exact ⟨file, hf, (Disk.pageAt_congr (hsame _) _).symm.trans hb⟩
  · intro hall q
    have hplaces : ∀ n, d.pageAt s.pageSize q n = s.disk.pageAt s.pageSize q n := by
      intro n
      by_cases hn : ∃ p ∈ ps, s.place? p = some (q, n)
      · obtain ⟨p, hp, hplace⟩ := hn
        obtain ⟨page, hpage, hdirty⟩ := hd p hp
        obtain ⟨file, hf, -, hb⟩ := h.bytes p hp page hpage hdirty
        obtain ⟨file', hf', hb'⟩ := hall p hp page hpage
        obtain rfl : file = file' := Except.ok.inj (hf.symm.trans hf')
        rw [place?_of_file hf] at hplace
        cases hplace
        exact hb.trans hb'.symm
      · exact h.other q n fun p hp he => hn ⟨p, hp, he⟩
    exact Disk.content_eq_of_pageAt hplaces

/-- **What an abort after a failed commit leaves in the files.**  A commit that is refused to a victim
has written nothing.  Any other commit that fails has written the changed pages before the first one
that cannot be written, whose table is not registered any more or has no such page; these stay
written, and the files are as before only if they held the same bytes already.  The transaction
keeps its locks until the abort, and has neither locks nor changes afterwards. -/
theorem aborted_after_failure (h₀ : s₀.Fresh) (h : After s₀ ds s)
    (hforeign : ∀ d ∈ ds, d.foreign = false) (hi₀ : s₀.catalog.Indexed)
    (hi : ∀ catalog, .register catalog ∈ ds → catalog.Indexed)
    (he : (s.commit t).1 = .error e) :
    (s.commit t).2.locks = s.locks ∧
    (t ∈ s.locks.aborted ∧ ((s.commit t).2.abort t).disk = s.disk ∨
      ∃ written p rest page, s.cache.dirtyPages t = written ++ p :: rest ∧
        s.cache.pages.get? p = some page ∧ s.Unwritable page e ∧
        s.Wrote written ((s.commit t).2.abort t).disk ∧
        ((∀ q, ((s.commit t).2.abort t).disk.content q = s.disk.content q) ↔
          ∀ p ∈ written, ∀ page, s.cache.pages.get? p = some page → ∃ file,
            s.catalog.file p.table = .ok file ∧
              s.disk.pageAt s.pageSize file.path p.number = page.encode)) ∧
    ((s.commit t).2.abort t).cache.dirtyPages t = [] ∧
    (∀ p, ((s.commit t).2.abort t).holds t p = false) ∧
    t ∉ ((s.commit t).2.abort t).locks.aborted := by
  have hquiet := h.nobodyWaits h₀.nobodyWaits
  have hwithin : ∀ c : Catalog, c.Indexed → Within (fun _ _ => True) c :=
    fun _ _ _ _ _ => trivial
  obtain ⟨hidx, hshaped⟩ := h.shaped h₀ hforeign hi₀ hi hwithin
  obtain ⟨hdisk, hclean⟩ := abort_rest (hquiet.commit t) t
  rw [hdisk]
  rcases commit_cases s t with ⟨ha, hcommit⟩ | ⟨e', -, hr, hcommit⟩ | ⟨-, -, hcommit⟩
  · refine ⟨by rw [hcommit], Or.inl ⟨ha, by rw [hcommit]⟩, hclean⟩
  · refine ⟨by rw [hcommit]; exact locks_flushPages s _, Or.inr ?_, hclean⟩
    rw [hcommit] at he ⊢
    cases he
    obtain ⟨written, rest, hsplit, hw, hend⟩ :=
      flushPages_wrote hidx hquiet.sound hshaped.made.sized (nodup_dirtyPages s.cache t)
    rcases hend with ⟨-, hok⟩ | ⟨p, tail, e', rfl, hp, herr⟩
    · rw [hr] at hok
      cases hok
    · rw [hr] at herr
      cases herr
      obtain ⟨page, hpage, -, hun⟩ := flushPage_eq_error_iff.1 hp
      refine ⟨written, p, tail, page, hsplit, hpage, hun, hw, hw.unchanged_iff fun q hq => ?_⟩
      have hmem : q ∈ s.cache.dirtyPages t := hsplit ▸ List.mem_append_left _ hq
      obtain ⟨page', hpage', hd⟩ := Cache.mem_dirtyPages.1 hmem
      exact ⟨page', hpage', by simp [hd]⟩
  · rw [hcommit] at he
    cases he

end Store

/-! ## A table that is replaced

A page can be written only if its table is registered.  If a table is replaced while a transaction
has changed one of its pages, the commit fails there, and pages that come before it have been
written. -/

/-- The files of two more tables of numbers. -/
def TableFile.tallies : TableFile := .ofPath ⟨[[0x62]]⟩ TableFile.numbers.schema

def TableFile.totals : TableFile := .ofPath ⟨[[0x63]]⟩ TableFile.numbers.schema

namespace Store

/-- A store with two tables of numbers, whose files have a page of one slot each. -/
def paired : Store :=
  let files := Assoc.insert ∅ TableFile.numbers.path (Bytes.zeros 5)
  { numbers with
    disk := { Disk.empty with files := files.insert TableFile.tallies.path (Bytes.zeros 5) }
    catalog := (Catalog.add {} .numbers "numbers" "").add .tallies "tallies" "" }

/-- The tables after another file has been registered in the place of the second one. -/
def replaced : Catalog := paired.catalog.add .totals "tallies" ""

/-- A transaction has put a row into each of the two tables when the second one is replaced. -/
def outlived : Option (Reply × Reply × Store) :=
  let row : Row := { values := [.int 7] }
  (finish 1 (paired.start ⟨1⟩ (.insert TableFile.numbers.id row))).bind fun run =>
    (finish 1 (run.2.start ⟨1⟩ (.insert TableFile.tallies.id row))).map fun run' =>
      (run.1, run'.1, { run'.2 with catalog := replaced })

theorem indexed_paired : paired.catalog.Indexed :=
  (Catalog.Indexed.empty.add _ _ _).add _ _ _

/-- Its commit fails at the second page, and the abort leaves the first one written. -/
theorem outlived_cases : ∃ ds s, After paired ds s ∧ (∀ d ∈ ds, d.foreign = false) ∧
    (∀ catalog, .register catalog ∈ ds → catalog.Indexed) ∧
    (s.commit ⟨1⟩).1 = .error (.unknownTable TableFile.tallies.id) ∧
    ((s.commit ⟨1⟩).2.abort ⟨1⟩).disk.content TableFile.numbers.path ≠
      s.disk.content TableFile.numbers.path := by
  have hd : outlived.map (fun run => decide (
      (run.2.2.commit ⟨1⟩).1 = .error (.unknownTable TableFile.tallies.id) ∧
      ((run.2.2.commit ⟨1⟩).2.abort ⟨1⟩).disk.content TableFile.numbers.path ≠
        run.2.2.disk.content TableFile.numbers.path)) = some true := by
    decide +kernel
  obtain ⟨⟨r, r', s⟩, hs, hd⟩ := Option.map_eq_some_iff.1 hd
  obtain ⟨run, hfirst, hs⟩ := Option.bind_eq_some_iff.1 hs
  obtain ⟨run', hsecond, hs⟩ := Option.map_eq_some_iff.1 hs
  obtain ⟨he, hne⟩ := of_decide_eq_true hd
  cases hs
  have h := ((After.start.deed (.call hfirst)).deed (.call hsecond)).deed (.register _ replaced)
  refine ⟨_, _, h, ?_, fun catalog hm => ?_, he, hne⟩
  · simp [Deed.foreign]
  · have hc : catalog = replaced := by simpa using hm
    exact hc ▸ indexed_paired.add _ _ _

/-- **A failed commit cannot always be undone**: the files are not as they were before it. -/
theorem failure_leaves_writes : ∃ ds s, paired.Fresh ∧ After paired ds s ∧
    (∀ d ∈ ds, d.foreign = false) ∧
    (s.commit ⟨1⟩).1 = .error (.unknownTable TableFile.tallies.id) ∧
    ((s.commit ⟨1⟩).2.abort ⟨1⟩).disk.content TableFile.numbers.path ≠
      s.disk.content TableFile.numbers.path := by
  obtain ⟨ds, s, h, hforeign, -, he, hne⟩ := outlived_cases
  exact ⟨ds, s, ⟨rfl, rfl⟩, h, hforeign, he, hne⟩

/-- What has been written is the page of the table that is still registered. -/
theorem aborted_after_failure_outlived : ∃ (s : Store) (written : List PageId), paired.Fresh ∧
    s.Wrote written ((s.commit ⟨1⟩).2.abort ⟨1⟩).disk ∧ written ≠ [] := by
  obtain ⟨ds, s, h, hforeign, hi, he, hne⟩ := outlived_cases
  have hf : paired.Fresh := ⟨rfl, rfl⟩
  obtain ⟨-, hor, -⟩ := aborted_after_failure hf h hforeign indexed_paired hi he
  rcases hor with ⟨-, hsame⟩ | ⟨written, -, -, -, -, -, -, hw, hiff⟩
  · rw [hsame] at hne
    exact absurd rfl hne
  · refine ⟨s, written, hf, hw, ?_⟩
    rintro rfl
    exact hne (hiff.2 (fun q hq => absurd hq List.not_mem_nil) _)

end Store
end TableStore

import TableStore.Proofs.Pool.Own

/-!
# Changes are written by commits, and only by them

While tables and page size stay the same and nobody else writes to the files, the changes of a
transaction stay in memory until it commits.  A commit writes all of them.  So an abort has nothing
to take back, and what has been committed can be read by whoever opens the files anew.

Pages that are written by hand are an exception to the first, and a changed page that is dropped by
hand to the second.  So is a call that never comes to an end since the pages of its file can not be
counted any more: it writes zeros over pages that are there.

## What is here

* `Store.Spares` — all whole pages are left in the files; `Store.Unstolen` — calls and rollbacks
  leave them, calls in progress as long as the files have room.
* `Store.Durable` — a page that can be read from its file.
* `Store.changes_written_by_commits` — the two meet in every run of deeds.
* `Store.dropped_change_lost` — a commit that does not write what its transaction has inserted, since
  the page has been dropped.
-/

set_option autoImplicit false
namespace TableStore
namespace Store

variable {s₀ s s' : Store} {t : TxnId} {p : PageId} {page : Page} {ds : List Deed} {d : Disk}

/-- No whole page of a file has been touched since the store `s`.  Pages of zeros may have been
added after the last whole page of a file with `grows`. -/
structure Spares (grows : TableFile → Prop) (s m : Store) : Prop where
  grown : ∀ q, m.disk.content q = s.disk.content q ∨ ∃ file, grows file ∧ file.path = q ∧
    Disk.Grown s.pageSize q s.disk m.disk
  pages : ∀ q n, n < (s.disk.content q).length / s.pageSize.bytes →
    m.disk.pageAt s.pageSize q n = s.disk.pageAt s.pageSize q n

/-- Neither a call nor the end of a transaction that loses its changes touches a whole page of a
file.  A call may add pages of zeros to the file that it inserts into.  This is so at any point of
the call, answered or not, as long as the file has room. -/
structure Unstolen (s : Store) : Prop where
  answered : ∀ t call reply s', Does (.call t call reply) s s' →
    s.Spares (call.Grows s.catalog) s'
  underway : ∀ t call progress m, ComesTo t call s (progress, m) →
    (∀ file, call.Grows s.catalog file → file.HasRoom m.disk m.pageSize) →
      s.Spares (call.Grows s.catalog) m
  abort : ∀ t, (s.abort t).disk = s.disk
  rollBack : ∀ t, (s.rollBack t).disk = s.disk

theorem spares_of_content {m : Store} {grows : TableFile → Prop}
    (h : ∀ q, m.disk.content q = s.disk.content q ∨ ∃ file, grows file ∧ file.path = q ∧
      Disk.Grown s.pageSize q s.disk m.disk) : s.Spares grows m where
  grown := h
  pages q n hn := by
    rcases h q with hsame | ⟨file, -, -, hgrown⟩
    · exact Disk.pageAt_congr hsame n
    · exact hgrown.pageAt_eq hn

theorem NobodyWaits.unstolen (h : s.NobodyWaits) : s.Unstolen where
  answered _ _ _ _ hd := spares_of_content (hd.content_call h)
  underway _ _ _ _ hu hroom :=
    spares_of_content ((hu.reached h).content h ((hu.reached h).ends hroom))
  abort t := (discarded_abort h.locks.consistent h.sound t).sameFiles.disk_eq
  rollBack _ := rfl

/-- The page `page` of the store `s` is in the file `file` of the file system `d`: its bytes are in
their place, and whoever opens the file reads its rows, as they are stored. -/
structure Durable (s : Store) (d : Disk) (page : Page) (file : TableFile) : Prop where
  file_eq : s.catalog.file page.id.table = .ok file
  bytes : d.pageAt s.pageSize file.path page.id.number = page.encode
  reads : ∀ b handle, TableFile.openExisting d b file.schema = .ok handle →
    handle.path = file.path → ∃ back, handle.readPage d s.pageSize page.id = .ok back ∧
      ∀ i, back.row? i = (page.row? i).map Row.stored

theorem eq_of_openExisting {b : Bytes} {file handle : TableFile}
    (h : TableFile.openExisting d b file.schema = .ok handle) (hp : handle.path = file.path) :
    handle = file := by
  obtain ⟨path, schema, id, rfl⟩ := file
  rw [TableFile.openExisting] at h
  split at h
  · cases h
  · rename_i path' _
    cases h
    have hpath : path' = path := hp
    rw [hpath]
    rfl

/-- What a commit writes can be read. -/
theorem Forced.durable (hf : s.Forced t) (hi : s.catalog.Indexed) (hs : s.cache.Sound)
    (hh : s.Homed) (hp : s.cache.pages.get? p = some page) (hd : page.dirtier = some t) :
    ∃ file, s.Durable (s.commit t).2.disk page file := by
  obtain rfl := hs.keyed p page hp
  have hmem : page.id ∈ s.cache.dirtyPages t := Cache.mem_dirtyPages.2 ⟨page, hp, hd⟩
  obtain ⟨file, hfile, hlt, hbytes⟩ := hf.wrote.bytes _ hmem page hp (by simp [hd])
  obtain ⟨file', hhome⟩ := hh _ page hp
  obtain rfl : file = file' := Except.ok.inj (hfile.symm.trans hhome.file_eq)
  obtain ⟨back, hback, hrow⟩ := hhome.formed.decode_encode
  refine ⟨file, hfile, hbytes, fun b handle ho hpath => ⟨back, ?_, hrow⟩⟩
  have hhas : file.hasPage (s.commit t).2.disk s.pageSize page.id = true :=
    TableFile.hasPage_iff.2 ⟨(hi _ _ hfile).symm, pageCount_of_length hf.wrote.length_eq file ▸ hlt⟩
  rw [eq_of_openExisting ho hpath, TableFile.readPage, if_pos hhas]
  exact (congrArg _ hbytes).trans hback

/-- **Changes are written by commits, and only by them.**  Calls, aborts and rollbacks change no byte
of a page that is in a file, as long as files have room.  A commit is refused to victims only; if it
succeeds, it writes the changed pages of its transaction, and nothing else.  So a page that has
changed while a transaction ran that did not commit was written by the commit of another one; and
after a commit all pages can be read that the transaction has changed and that have not been dropped
by hand, by whoever opens their files. -/
theorem changes_written_by_commits (h₀ : s₀.Fresh) (hi : s₀.catalog.Indexed) (h : After s₀ ds s)
    (hfixed : ∀ d ∈ ds, d.registers = false ∧ d.foreign = false) :
    s.Unstolen ∧
    (∀ t, t ∉ s.locks.aborted → (s.commit t).1 = .ok ()) ∧
    (∀ t, (s.commit t).1 = .ok () → s.Forced t) ∧
    (∀ t ds' s', After s ds' s' → (∀ d ∈ ds', d.registers = false ∧ d.foreign = false) →
      (∀ d ∈ ds', d.flushes = false) → .commit t (.ok ()) ∉ ds' →
      ∀ q n, n < (s.disk.content q).length / s.pageSize.bytes →
        s'.disk.pageAt s.pageSize q n = s.disk.pageAt s.pageSize q n ∨
        ∃ ds₁ u ds₂ m, u ≠ t ∧ ds' = ds₁ ++ .commit u (.ok ()) :: ds₂ ∧ After s ds₁ m ∧
          ∃ p ∈ m.cache.dirtyPages u, m.place? p = some (q, n)) ∧
    (∀ t, (∀ d ∈ ds, d.flushes = false ∧ d.releases = false) → (s.commit t).1 = .ok () →
      ∀ p page, Deed.changed t p ds = some page → page.id = p ∧
        ∃ file, s.Durable (s.commit t).2.disk page file ∧
          ∀ b, TableFile.openExisting s₀.disk b file.schema = .ok file →
            TableFile.openExisting (s.commit t).2.disk b file.schema = .ok file) := by
  have hquiet := h.nobodyWaits h₀.nobodyWaits
  have ho := h.onward h₀.nobodyWaits h₀.homed.made hfixed
  have hi' : s.catalog.Indexed := ho.catalog_eq ▸ hi
  have hh := ho.homed h₀.homed
  have hforced : ∀ t, (s.commit t).1 = .ok () → s.Forced t := fun t =>
    commit_forced hi' hquiet hh.made.sized
  refine ⟨hquiet.unstolen, fun t ha => ?_, hforced, fun t ds' s' h' hfixed' hflush hn q n hlt => ?_,
    fun t hhand hok p page hchanged => ?_⟩
  · cases hr : (s.commit t).1 with
    | error e => exact absurd (hh.commit_refused hi' hquiet hr).1 ha
    | ok => rfl
  · refine (h'.pageAt_eq hi' hquiet hh hfixed' hflush hlt).imp_right ?_
    rintro ⟨ds₁, u, ds₂, m, rfl, hm⟩
    exact ⟨ds₁, u, ds₂, m, fun hu => hn (by simp [hu]), rfl, hm⟩
  · have ha : t ∉ s.locks.aborted := fun ha => by
      rcases commit_cases s t with ⟨-, he⟩ | ⟨e, hn, -⟩ | ⟨hn, -⟩
      · rw [he] at hok
        cases hok
      · exact hn ha
      · exact hn ha
    rw [← h.own?_eq h₀ hi hfixed hhand ha, own?_eq_some_iff] at hchanged
    obtain ⟨hp, hd⟩ := hchanged
    obtain ⟨file, hdurable⟩ := (hforced t hok).durable hi' hquiet.sound hh hp hd
    have hdisk := ho.disk.trans (onward_commit hh.made t).disk
    exact ⟨hquiet.sound.keyed p page hp, file, hdurable, fun b =>
      TableFile.openExisting_extended hdisk⟩

/-! ## A page that is dropped

A page can be dropped by hand while it holds changes.  Its transaction does not come to know of it,
and its commit has nothing to write. -/

/-- A row that has been put into a page can be read from the file after the commit. -/
theorem changes_written_by_commits_entered : ∃ (s : Store) (page : Page) (file : TableFile),
    numbers.Fresh ∧ page.row? 0 = some ⟨[.int 7], some ⟨TableFile.numbers.page 0, 0⟩⟩ ∧
      s.Durable (s.commit ⟨1⟩).2.disk page file := by
  have hd : entered.map (fun run => decide ((run.2.commit ⟨1⟩).1 = .ok () ∧
      ∃ page ∈ run.1.result.toOption, page.id = TableFile.numbers.page 0 ∧
        page.row? 0 = some ⟨[.int 7], some ⟨TableFile.numbers.page 0, 0⟩⟩)) = some true := by
    decide +kernel
  obtain ⟨⟨⟨result, placed⟩, s⟩, hs, hd⟩ := Option.map_eq_some_iff.1 hd
  obtain ⟨hok, page, hpage, hid, hrow⟩ := of_decide_eq_true hd
  cases result with
  | error e => cases hpage
  | ok page' =>
    cases hpage
    have hf : numbers.Fresh := ⟨rfl, rfl⟩
    have hi : numbers.catalog.Indexed := Catalog.Indexed.empty.add _ _ _
    have h := After.start.deed (.call hs)
    obtain ⟨-, -, -, -, hread⟩ := changes_written_by_commits hf hi h
      (by simp [Deed.registers, Deed.foreign])
    obtain ⟨-, file, hdurable, -⟩ := hread ⟨1⟩ (by simp [Deed.flushes, Deed.releases]) hok
      (TableFile.numbers.page 0) page (if_pos hid)
    exact ⟨s, page, file, hf, hrow, hdurable⟩

/-- **A change that has been dropped by hand is lost**, though its transaction commits. -/
theorem dropped_change_lost : ∃ (reply : Reply) (s : Store) (back : Page),
    After numbers [.call ⟨1⟩ (.insert TableFile.numbers.id { values := [.int 7] }) reply,
      .discard (TableFile.numbers.page 0)] s ∧
    reply.row = some ⟨[.int 7], some ⟨TableFile.numbers.page 0, 0⟩⟩ ∧
    (s.commit ⟨1⟩).1 = .ok () ∧
    TableFile.openExisting (s.commit ⟨1⟩).2.disk TableFile.numbers.path.toBytes
      TableFile.numbers.schema = .ok .numbers ∧
    TableFile.numbers.readPage (s.commit ⟨1⟩).2.disk s.pageSize (TableFile.numbers.page 0) =
      .ok back ∧ back.row? 0 = none := by
  have hd : entered.map (fun run =>
      let s := run.2.discard (TableFile.numbers.page 0)
      let d := (s.commit ⟨1⟩).2.disk
      decide (run.1.row = some ⟨[.int 7], some ⟨TableFile.numbers.page 0, 0⟩⟩ ∧
        (s.commit ⟨1⟩).1 = .ok () ∧
        TableFile.openExisting d TableFile.numbers.path.toBytes TableFile.numbers.schema =
          .ok .numbers ∧
        ∃ back ∈ (TableFile.numbers.readPage d s.pageSize (TableFile.numbers.page 0)).toOption,
          back.row? 0 = none)) = some true := by
    decide +kernel
  obtain ⟨⟨reply, s⟩, hs, hd⟩ := Option.map_eq_some_iff.1 hd
  obtain ⟨hrow, hok, hopen, back, hback, hnone⟩ := of_decide_eq_true hd
  have h := (After.start.deed (.call hs)).deed (.discard s (TableFile.numbers.page 0))
  refine ⟨reply, _, back, h, hrow, hok, hopen, ?_, hnone⟩
  cases hr : TableFile.numbers.readPage _ _ _ with
  | error e =>
    rw [hr] at hback
    cases hback
  | ok page =>
    rw [hr] at hback
    cases hback
    rfl

end Store
end TableStore

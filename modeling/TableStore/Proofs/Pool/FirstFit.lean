import TableStore.Proofs.Pool.Agreement
import TableStore.Proofs.Pool.Search

/-!
# Where a row is put

An insert takes the first free slot of its file, in the order of the pages and of the slots on each
of them.  Whether a slot is free is for the transaction to say that inserts: its own rows are there
already, those of others may be gone before they are ever seen.

## What is here

* `Store.After.matchesFiles` — pages in memory and in files agree between deeds, if no lock has been
  given back by hand.
* `Store.view?_edited` — what a transaction sees after it has changed a page.
* `Store.Fitted` — a row has been put into the first free slot.
* `Store.insert_first_fit` — every insert ends, and this is what has become of its row.
-/

set_option autoImplicit false
namespace TableStore
namespace Store

variable {s₀ s m s' : Store} {t : TxnId} {file : TableFile} {table : TableId} {row placed : Row}
  {n i : Nat} {page copy : Page} {reply : Reply} {ds : List Deed}

/-! ## Between deeds -/

/-- While tables and page size stay the same, nobody else writes to the files and no lock is given
back by hand, pages in memory and in files agree. -/
theorem After.matchesFiles (h₀ : s₀.Fresh) (hi : s₀.catalog.Indexed) (h : After s₀ ds s)
    (hfixed : ∀ d ∈ ds, d.registers = false ∧ d.foreign = false)
    (hhand : ∀ d ∈ ds, d.releases = false) : s.MatchesFiles where
  changesLocked := h.changesLocked h₀.changesLocked hhand
  indexed := (h.onward h₀.nobodyWaits h₀.homed.made hfixed).catalog_eq ▸ hi
  homes := (h.onward h₀.nobodyWaits h₀.homed.made hfixed).homed h₀.homed
  agrees p page hp hclean i := by
    obtain ⟨back, hback, hrows⟩ := h.agrees h₀ hi hfixed p page hp hclean
    rw [stored?_of_readPage hback, hrows]

/-! ## A row that has been put in

What a transaction sees is its own copy of a page, and the file where it has none.  The search looks
at pages in memory, so it has to be shown that it sees the same. -/

/-- A transaction that has changed a page sees its copy of it, and everything else as before. -/
theorem view?_edited (s : Store) (t : TxnId) (copy : Page) (r : RecordId) :
    (s.edited t copy).view? t r =
      if r.page = copy.id then (copy.row? r.slot).map Row.stored else s.view? t r := by
  by_cases hr : r.page = copy.id
  · have hown : (s.edited t copy).own? t r.page = some { copy with dirtier := some t } := by
      refine own?_eq_some_iff.2 ⟨?_, rfl⟩
      rw [edited, Cache.get?_put, if_pos hr]
    rw [if_pos hr, view?_of_own hown]
    rfl
  · have hown : (s.edited t copy).own? t r.page = s.own? t r.page := by
      rw [own?, own?, get?_edited hr]
    have hfiles : SameFiles s (s.edited t copy) := ⟨rfl, rfl, rfl⟩
    rw [if_neg hr, view?, view?, hown, hfiles.stored?_eq]

/-- The row `row` has been put into slot `i` of page `n`, the first slot that `t` saw free in `s`.
-/
structure Fitted (s : Store) (t : TxnId) (file : TableFile) (row : Row) (n i : Nat) (page : Page)
    (placed : Row) (s' : Store) : Prop where
  /-- The page was there, or it is the one page that has been appended. -/
  available : Available s file n s'
  filled : ∀ k, k < n → s.Filled t file k
  lt : i < s.slotsOf file
  free : s.view? t ⟨file.page n, i⟩ = none
  first : ∀ j, j < i → s.view? t ⟨file.page n, j⟩ ≠ none
  placed_eq : placed = { row with rid := some ⟨file.page n, i⟩ }
  row?_eq : page.row? i = some placed
  cached : s'.cache.pages.get? (file.page n) = some page
  dirtier_eq : page.dirtier = some t
  locked : s'.locks.heldMode? t (file.page n) = some .exclusive
  others : ∀ r, r ≠ ⟨file.page n, i⟩ → s'.view? t r = s.view? t r
  /-- The locks on the full pages before it have been given back, unless they were held before. -/
  passed : ∀ k, k < n → s.holds t (file.page k) = false → s'.holds t (file.page k) = false

/-- **A search that comes to an end with a row has put it into the first free slot.** -/
theorem Arrived.fitted (h : Arrived s t file n m) (hquiet : s.NobodyWaits) (ht : s.MatchesFiles)
    (hf : s.catalog.file file.id = .ok file) (htypes : row.types = file.schema.types)
    (hp : m.cache.pages.get? (file.page n) = some page)
    (he : page.insert row = .ok (copy, placed)) :
    ∃ i, Fitted s t file row n i { copy with dirtier := some t } placed (m.edited t copy) := by
  have hformed := h.formed hquiet ht hf hp
  have hid : page.id = file.page n := (h.changes.nobodyWaits hquiet).sound.keyed _ page hp
  have hcopy : copy.id = file.page n := (Page.insert_id he).trans hid
  have hfree : page.freeSlots ≠ [] := by
    intro hfull
    rw [Page.insert, hfull] at he
    split at he <;> cases he
  obtain ⟨i, copy', he', hlt, hnone, hfirst, hrows⟩ := hformed.insert_first htypes hfree
  rw [hid] at he' hrows
  obtain ⟨rfl, rfl⟩ : copy' = copy ∧ { row with rid := some ⟨file.page n, i⟩ } = placed := by
    simpa using he'.symm.trans he
  have hview : ∀ j, (page.row? j).map Row.stored = s.view? t ⟨file.page n, j⟩ :=
    h.row?_eq hquiet ht hf hp
  refine ⟨i, h.available, h.filled ht, Nat.lt_of_lt_of_eq hlt hformed.length_slots, ?_,
    fun j hj => ?_, rfl, ?_, ?_, rfl, h.locked, fun r hr => ?_, fun k hk hheld => ?_⟩
  · rw [← hview, hnone]
    rfl
  · rw [← hview]
    simpa using hfirst j hj
  · exact (hrows i).trans (if_pos rfl)
  · rw [edited, Cache.get?_put, if_pos hcopy.symm]
  · rw [view?_edited, hcopy]
    by_cases hpage : r.page = file.page n
    · have hslot : r.slot ≠ i := by
        intro hi
        exact hr (by rw [← hpage, ← hi])
      rw [if_pos hpage, hrows, if_neg hslot, hview, ← hpage]
    · rw [if_neg hpage, h.view?_eq hquiet ht.indexed hf]
  · have hne : file.page k ≠ file.page n := fun he => Nat.ne_of_lt hk (congrArg PageId.number he)
    have hs : s.locks.heldMode? t (file.page k) = none := by
      simpa [Store.holds, LockTable.holds] using hheld
    have hm : m.locks.heldMode? t (file.page k) = none := by
      rcases h.others _ hne with he | ⟨hn, -⟩
      · exact he.trans hs
      · exact absurd hs hn
    show m.locks.holds t (file.page k) = false
    simp [LockTable.holds, hm]

/-! ## The whole call -/

theorem Landed.disk (h : Landed s t file row reply s') :
    s'.disk = s.disk ∨ s'.disk = (file.appendPage s.disk s.pageSize).2 := by
  cases h with
  | refused e h => exact h.available.imp And.left fun ha => ha.2.2
  | placed h _ _ => exact h.available.imp And.left fun ha => ha.2.2

/-- **An insert ends, and puts its row into the first free slot of its table**, between any deeds
that give back no lock by hand, while tables and page size stay the same and nobody else writes to
the files, as long as there is room for one more page that can be counted.  Free is what the
transaction sees so: in its own copy of a page if it has one, and in the file otherwise.  If there
is no such slot, the row goes to the one page that has been appended.  What the transaction sees
elsewhere is as before, and it has given back the locks that it had to take on the way. -/
theorem insert_first_fit (h₀ : s₀.Fresh) (hi : s₀.catalog.Indexed) (h : After s₀ ds s)
    (hfixed : ∀ d ∈ ds, d.registers = false ∧ d.foreign = false)
    (hhand : ∀ d ∈ ds, d.releases = false)
    (hslots : ∀ file, s.catalog.file table = .ok file → 0 < s.slotsOf file)
    (hroom : ∀ file, s.catalog.file table = .ok file → file.HasRoom s.disk s.pageSize) (t : TxnId)
    (row : Row) :
    ∃ reply s', s.perform t (.insert table row) = some (reply, s') ∧
      (s'.disk = s.disk ∨ ∃ file, s.catalog.file table = .ok file ∧
        s'.disk = (file.appendPage s.disk s.pageSize).2) ∧
      ∀ page, reply.result = .ok page → ∃ file placed n i, s.catalog.file table = .ok file ∧
        reply.row = some placed ∧ Fitted s t file row n i page placed s' := by
  have hquiet := h.nobodyWaits h₀.nobodyWaits
  have hmatch := h.matchesFiles h₀ hi hfixed hhand
  have hid : ∀ file, s.catalog.file table = .ok file → s.catalog.file file.id = .ok file := by
    intro file hf
    exact (hmatch.indexed _ _ hf).symm ▸ hf
  obtain ⟨path, hlaid₀⟩ := hi.laidOut
  obtain ⟨hlaid, hcontained⟩ := h.contained h₀ hlaid₀ (fun d hd => (hfixed d hd).2)
    fun catalog hm => absurd (hfixed _ hm).1 (by simp [Deed.registers])
  have habsent := fun file hf => hcontained.absent hlaid (hid file hf)
  obtain ⟨reply, s', hperform, hins⟩ | ⟨file, hf, hfull, -⟩ :=
    hquiet.perform_insert hmatch.indexed hslots habsent t row
  case inr => exact absurd (hroom file hf) hfull
  refine ⟨reply, s', hperform, ?_⟩
  cases hins with
  | refused e => exact ⟨Or.inl rfl, fun page hok => by cases hok⟩
  | @searched file _ _ hf htypes hl =>
    refine ⟨hl.disk.imp_right fun hd => ⟨file, hf, hd⟩, ?_⟩
    intro page hok
    cases hl with
    | refused e _ => cases hok
    | @placed n m _ copy placed harr hp he =>
      cases hok
      obtain ⟨i, hfit⟩ := harr.fitted hquiet hmatch (hid file hf) htypes hp he
      exact ⟨file, placed, n, i, hf, rfl, hfit⟩

/-- A transaction that has filled the first page puts its next row into the second one. -/
theorem insert_first_fit_entered : numbers.Fresh ∧ numbers.catalog.Indexed ∧
    ∃ (ds : List Deed) (s s' : Store) (reply : Reply) (page : Page), After numbers ds s ∧
      s.perform ⟨1⟩ (.insert TableFile.numbers.id { values := [.int 8] }) = some (reply, s') ∧
      reply.result = .ok page ∧ s.Filled ⟨1⟩ TableFile.numbers 0 ∧
      page.row? 0 = some ⟨[.int 8], some ⟨TableFile.numbers.page 1, 0⟩⟩ ∧
      s'.cache.pages.get? (TableFile.numbers.page 1) = some page := by
  have hf : numbers.Fresh := ⟨rfl, rfl⟩
  have hi : numbers.catalog.Indexed := Catalog.Indexed.empty.add _ _ _
  have hd : entered.map (fun run => decide (
      TableFile.numbers.HasRoom run.2.disk run.2.pageSize ∧
      ∃ run' ∈ run.2.perform ⟨1⟩ (.insert TableFile.numbers.id { values := [.int 8] }),
        ∃ page ∈ run'.1.result.toOption,
          run'.1.row = some ⟨[.int 8], some ⟨TableFile.numbers.page 1, 0⟩⟩)) = some true := by
    decide +kernel
  obtain ⟨⟨reply, s⟩, hs, hd⟩ := Option.map_eq_some_iff.1 hd
  obtain ⟨hroom, ⟨reply', s'⟩, hperform, page, hpage, hrow⟩ := of_decide_eq_true hd
  have h := After.start.deed (.call hs)
  have hfixed : ∀ d ∈ [Deed.call ⟨1⟩ (.insert TableFile.numbers.id { values := [.int 7] }) reply],
      d.registers = false ∧ d.foreign = false := by simp [Deed.registers, Deed.foreign]
  have ho := h.onward hf.nobodyWaits hf.homed.made hfixed
  have hslots : ∀ file, s.catalog.file TableFile.numbers.id = .ok file →
      file = TableFile.numbers ∧ 0 < s.slotsOf file := by
    intro file hfile
    exact slotsOf_numbers ho.catalog_eq ho.pageSize_eq hfile
  obtain ⟨reply'', s'', hperform', -, hok⟩ :=
    insert_first_fit hf hi h hfixed (by simp [Deed.releases])
      (fun file hfile => (hslots file hfile).2) (fun file hfile => (hslots file hfile).1 ▸ hroom)
      ⟨1⟩ { values := [.int 8] }
  cases hperform.symm.trans hperform'
  have hresult := eq_ok_of_mem_toOption hpage
  obtain ⟨file, placed, n, i, hfile, hplaced, hfit⟩ := hok page hresult
  obtain ⟨rfl, -⟩ := hslots file hfile
  have hrid := hfit.placed_eq
  rw [Option.some.inj (hplaced.symm.trans hrow)] at hrid
  obtain ⟨rfl, rfl⟩ : 1 = n ∧ 0 = i := by simpa [TableFile.page] using hrid
  refine ⟨hf, hi, _, s, s', reply', page, h, hperform, hresult, hfit.filled 0 (by decide), ?_,
    hfit.cached⟩
  rw [hfit.row?_eq, hfit.placed_eq]

end Store
end TableStore

import TableStore.Proofs.Page.Clipped
import TableStore.Proofs.Pool.Backing
import TableStore.Proofs.Pool.Eviction
import TableStore.Proofs.Pool.Visit

/-!
# What is read again

A clean page has come from its file, or has been written to it.  In both cases the file holds its
rows, as they are stored, while nobody else writes to the files.  So it makes no difference to
readers whether the page is still in memory, except for texts that are too long: those are cut when
they are stored, and seen at full length until the page is read again.

## What is here

* `Store.Agrees` — the clean pages in memory agree with the files; `Store.After.agrees` says that
  they always do.
* `Store.NobodyWaits.fetch` — a call that fetches a page where nobody else runs.
* `Store.clean_pages_read_again` — what a reader is handed before and after a clean page has been
  dropped.
* `Store.overlong_text_read_again` — a text that is too long is not the same before and after.
-/

set_option autoImplicit false
namespace TableStore
namespace Store

variable {s₀ s m s' : Store} {t : TxnId} {p q : PageId} {page back : Page} {grows : TableFile → Prop}
  {keeps : Bool} {reply : Reply} {d : Deed} {ds : List Deed}

/-! ## Pages in memory and in files -/

/-- Every clean page in memory can be read from its file, which holds its rows as they are stored.
-/
def Agrees (s : Store) : Prop :=
  ∀ p page, s.cache.pages.get? p = some page → page.dirtier = none →
    ∃ back, s.readPage p = .ok back ∧ ∀ i, back.row? i = (page.row? i).map Row.stored

/-- While tables and page size stay the same and nobody else writes to the files, the clean pages in
memory agree with them. -/
theorem After.agrees (h₀ : s₀.Fresh) (hi : s₀.catalog.Indexed) (h : After s₀ ds s)
    (hfixed : ∀ d ∈ ds, d.registers = false ∧ d.foreign = false) : s.Agrees := by
  intro p page hp hclean
  obtain ⟨back, hback, hb⟩ := h.backed h₀ hi hfixed p page hp
  exact ⟨back, hback, hb.rows hclean⟩

/-! ## Fetching a page

A call that fetches a page takes its lock, and then the page is in memory or it is read.  Either way
the caller is handed the same rows, as they are stored. -/

/-- **A call that fetches a page goes on with its lock, unless its transaction is a victim.** -/
theorem NobodyWaits.fetch (h : s.NobodyWaits) (ha : t ∉ s.locks.aborted) (p : PageId)
    (access : Access) :
    ∃ w, Yielded t s w ∧ ∀ reply m, w.resume ⟨⟨t, p, access.mode⟩, .read⟩ = (.done reply, m) →
      s.perform t (.fetch p access) = some (reply, m) := by
  obtain ⟨k, w, -, hk, hfin, hw⟩ := h.seize ⟨⟨t, p, access.mode⟩, .read⟩ ha
  refine ⟨w, hw.toYielded, fun reply m hr => ?_⟩
  refine perform_of_finish rfl (Nat.le_trans hk (three_le_turns s)) fun i => ?_
  rw [hfin, hr, finish]

/-- The page is handed out if it is in memory. -/
theorem load_of_cached (ha : t ∉ s.locks.aborted) (hp : s.cache.pages.get? p = some page) :
    (s.load t p).1 = .ok page := by
  rw [load, if_neg (by simpa [LockTable.isAborted] using ha), hp]

/-- If it is not, and there is room, it is read from its file. -/
theorem load_of_missing (ha : t ∉ s.locks.aborted) (hp : s.cache.pages.get? p = none)
    (hroom : s.cache.size < s.capacity) (hr : s.readPage p = .ok back) :
    (s.load t p).1 = .ok back := by
  have hm : (s.bump .misses).makeRoom = .ok (s.bump .misses) := if_pos hroom
  have hr' : (s.bump .misses).readPage p = .ok back := hr
  rw [load, if_neg (by simpa [LockTable.isAborted] using ha), hp]
  dsimp only
  rw [hm]
  dsimp only
  rw [hr']

theorem resume_read (access : Access) (hl : (s.load t p).1 = .ok page) :
    ∃ m, s.resume ⟨⟨t, p, access.mode⟩, .read⟩ = (.done ⟨.ok page, none⟩, m) := by
  rw [resume]
  dsimp only
  cases hload : s.load t p with
  | mk result m =>
    rw [hload] at hl
    cases hl
    exact ⟨m, rfl⟩

/-- **A clean page in memory is what is handed out.** -/
theorem NobodyWaits.fetch_cached (h : s.NobodyWaits) (ha : t ∉ s.locks.aborted)
    (hp : s.cache.pages.get? p = some page) (hclean : page.dirtier = none) (access : Access) :
    ∃ m, s.perform t (.fetch p access) = some (⟨.ok page, none⟩, m) := by
  obtain ⟨w, hw, hperform⟩ := h.fetch ha p access
  obtain ⟨m, hm⟩ := resume_read access (load_of_cached hw.active (hw.clean p page hp hclean))
  exact ⟨m, hperform _ m hm⟩

/-- **A page that is not in memory is read from its file**, if there is room. -/
theorem NobodyWaits.fetch_missing (h : s.NobodyWaits) (ha : t ∉ s.locks.aborted)
    (hp : s.cache.pages.get? p = none) (hroom : s.cache.size < s.capacity)
    (hr : s.readPage p = .ok back) (access : Access) :
    ∃ m, s.perform t (.fetch p access) = some (⟨.ok back, none⟩, m) := by
  obtain ⟨w, hw, hperform⟩ := h.fetch ha p access
  have hroom' : w.cache.size < w.capacity :=
    Nat.lt_of_le_of_lt hw.size_le (hw.capacity_eq ▸ hroom)
  have hr' : w.readPage p = .ok back := (hw.files.readPage_eq p).trans hr
  obtain ⟨m, hm⟩ := resume_read access (load_of_missing hw.active (hw.missing p hp) hroom' hr')
  exact ⟨m, hperform _ m hm⟩

/-! ## Before and after -/

/-- `back` is what is read back of the page `page`: the rows are in their places, with what is left
of each value, and rows without long texts are the same. -/
structure SameRows (page back : Page) : Prop where
  clipped : ∀ i, Option.Rel Row.Clipped (page.row? i) (back.row? i)
  same : ∀ i row, page.row? i = some row → row.Short → back.row? i = some row

theorem sameRows_of_stored (h : ∀ i, back.row? i = (page.row? i).map Row.stored) :
    SameRows page back where
  clipped i := by
    rw [h i]
    cases page.row? i with
    | none => exact .none
    | some row => exact .some row.clipped_stored
  same i row hrow hshort := by
    rw [h i, hrow, Option.map_some, hshort.stored_eq]

/-- **A clean page is the same in memory and in its file, but for texts that are too long**, while
tables and page size stay the same and nobody else writes to the files.  So a transaction that
fetches it is handed the same rows before and after the page has been dropped, by hand or because it
has been evicted; only texts that are too long are cut then. -/
theorem clean_pages_read_again (h₀ : s₀.Fresh) (hi : s₀.catalog.Indexed) (h : After s₀ ds s)
    (hfixed : ∀ d ∈ ds, d.registers = false ∧ d.foreign = false) :
    (∀ p page, s.cache.pages.get? p = some page → page.dirtier = none →
      ∃ back, s.readPage p = .ok back ∧ SameRows page back ∧
        ∀ t access, t ∉ s.locks.aborted →
          (∃ m, s.perform t (.fetch p access) = some (⟨.ok page, none⟩, m)) ∧
          ∃ m, (s.discard p).perform t (.fetch p access) = some (⟨.ok back, none⟩, m)) ∧
    ∀ c, s.cache.evict? = some c →
      ∃ p, s.cache.isClean p = true ∧ { s with cache := c } = s.discard p := by
  have hquiet := h.nobodyWaits h₀.nobodyWaits
  obtain ⟨log, hused⟩ := Session.Used.after h
  have hs : s.Stocked s₀.capacity log := hused.stocked h₀
  have hagrees := h.agrees h₀ hi hfixed
  constructor
  · intro p page hp hclean
    obtain ⟨back, hback, hrows⟩ := hagrees p page hp hclean
    refine ⟨back, hback, sameRows_of_stored hrows, fun t access ha => ⟨?_, ?_⟩⟩
    · exact hquiet.fetch_cached ha hp hclean access
    · have hmissing : (s.discard p).cache.pages.get? p = none := by
        rw [Store.discard, Cache.get?_drop, if_pos rfl]
      have hsize : (s.discard p).cache.size + 1 = s.cache.size :=
        Assoc.size_erase (Assoc.mem_keys_iff.2 ⟨page, hp⟩)
      have hroom : (s.discard p).cache.size < (s.discard p).capacity := by
        have hle := hs.size_le
        have hcap : (s.discard p).capacity = s₀.capacity := hs.capacity_eq
        omega
      have hquiet' : (s.discard p).NobodyWaits := ⟨hquiet.locks, hquiet.sound.drop p⟩
      exact hquiet'.fetch_missing ha hmissing hroom hback access
  · intro c hc
    obtain ⟨p, rfl, hst⟩ := hs.kept.evict? hc
    exact ⟨p, hst.clean, rfl⟩

/-! ## Two texts -/

/-- A transaction puts a text into the first page and commits. -/
def noted (text : String) : Option (Reply × Store) :=
  finish 1 (notes.start ⟨1⟩ (.insert TableFile.notes.id { values := [.text text] }))

/-- A short text is the same before and after. -/
theorem clean_pages_read_again_noted :
    notes.Fresh ∧ ∃ (ds : List Deed) (s : Store) (page back : Page) (m : Store), After notes ds s ∧
      page.row? 0 = some ⟨[.text "x"], some ⟨TableFile.notes.page 0, 0⟩⟩ ∧
      (s.discard (TableFile.notes.page 0)).perform ⟨2⟩ (.fetch (TableFile.notes.page 0) .readOnly) =
        some (⟨.ok back, none⟩, m) ∧ back.row? 0 = page.row? 0 := by
  have hf : notes.Fresh := ⟨rfl, rfl⟩
  have hi : notes.catalog.Indexed := Catalog.Indexed.empty.add _ _ _
  have hd : (noted "x").map (fun run => decide (⟨2⟩ ∉ (run.2.commit ⟨1⟩).2.locks.aborted ∧
      ∃ page ∈ (run.2.commit ⟨1⟩).2.cache.pages.get? (TableFile.notes.page 0),
        page.dirtier = none ∧
        page.row? 0 = some ⟨[.text "x"], some ⟨TableFile.notes.page 0, 0⟩⟩)) = some true := by
    decide +kernel
  obtain ⟨⟨reply, s⟩, hs, hd⟩ := Option.map_eq_some_iff.1 hd
  obtain ⟨ha, page, hp, hclean, hrow⟩ := of_decide_eq_true hd
  have h := (After.start.deed (.call hs)).deed (.commit s ⟨1⟩)
  obtain ⟨hread, -⟩ := clean_pages_read_again hf hi h (by simp [Deed.registers, Deed.foreign])
  obtain ⟨back, -, hsame, hfetch⟩ := hread _ page hp hclean
  obtain ⟨m, hm⟩ := (hfetch ⟨2⟩ .readOnly ha).2
  refine ⟨hf, _, _, page, back, m, h, hrow, hm, ?_⟩
  have hshort : (Utf8.encode "x").length ≤ textCapacity := by decide +kernel
  rw [hrow]
  exact hsame.same 0 _ hrow (List.forall_mem_singleton.2 hshort)

/-- **A text that is too long is not the same**: it is in memory at full length, and cut in its
file. -/
theorem overlong_text_read_again :
    notes.Fresh ∧ notes.catalog.Indexed ∧ ∃ (ds : List Deed) (s : Store) (page back : Page),
      After notes ds s ∧ (∀ d ∈ ds, d.registers = false ∧ d.foreign = false) ∧
      s.cache.pages.get? (TableFile.notes.page 0) = some page ∧ page.dirtier = none ∧
      s.readPage (TableFile.notes.page 0) = .ok back ∧ back.row? 0 ≠ page.row? 0 := by
  have hf : notes.Fresh := ⟨rfl, rfl⟩
  have hi : notes.catalog.Indexed := Catalog.Indexed.empty.add _ _ _
  have hd : (noted (String.ofList (List.replicate 129 'x'))).map (fun run => decide (
      ∃ page ∈ (run.2.commit ⟨1⟩).2.cache.pages.get? (TableFile.notes.page 0),
        page.dirtier = none ∧
        ∃ back ∈ ((run.2.commit ⟨1⟩).2.readPage (TableFile.notes.page 0)).toOption,
          back.row? 0 ≠ page.row? 0)) = some true := by
    decide +kernel
  obtain ⟨⟨reply, s⟩, hs, hd⟩ := Option.map_eq_some_iff.1 hd
  obtain ⟨page, hp, hclean, back, hback, hne⟩ := of_decide_eq_true hd
  have h := (After.start.deed (.call hs)).deed (.commit s ⟨1⟩)
  cases hr : (s.commit ⟨1⟩).2.readPage (TableFile.notes.page 0) with
  | error e =>
    rw [hr] at hback
    cases hback
  | ok back' =>
    rw [hr] at hback
    cases hback
    exact ⟨hf, hi, _, _, page, back, h, by simp [Deed.registers, Deed.foreign], hp, hclean, hr, hne⟩

end Store
end TableStore

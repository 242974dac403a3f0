import TableStore.Proofs.Pool.Frame

/-!
# What files hold of the pages in memory

A page in memory has come from the file of its table, and may have been changed and written since.
Its before-image is set when it is read and when it is written, and only then; every other write
goes to another place, and a page that is added to a file comes after all others.  So the file goes
on holding the before-image, and with it the page as it was before it was changed.

## What is here

* `Store.Backing` — what a page in memory and the page in its file have in common.
* `Store.Backed` — every page in memory has such a page in its file.
* `Store.Does.backed` — every deed keeps this up, and `Store.After.backed` — so it always holds.
-/

set_option autoImplicit false
namespace TableStore
namespace Store

variable {s₀ s m s' : Store} {t : TxnId} {p q : PageId} {page back : Page}
  {grows : TableFile → Prop} {keeps : Bool} {reply : Reply} {d : Deed} {ds : List Deed}

/-- `back` is what the file holds of the page `page` in memory: its before-image, and its rows as
they are stored, unless they have changed since. -/
structure Backing (page back : Page) : Prop where
  image : back.beforeImage = page.beforeImage
  rows : page.dirtier = none → ∀ i, back.row? i = (page.row? i).map Row.stored

/-- Every page in memory can be read from its file, which holds its before-image. -/
def Backed (s : Store) : Prop :=
  ∀ p page, s.cache.pages.get? p = some page → ∃ back, s.readPage p = .ok back ∧ Backing page back

theorem Fresh.backed (h : s.Fresh) : s.Backed := by
  intro p page hp
  rw [h.cache_eq] at hp
  cases hp

/-- A page that has just been read is as its file has it. -/
theorem backing_of_readPage (hr : s.readPage p = .ok page) : Backing page page := by
  obtain ⟨file, -, hstored⟩ := readPage_home hr
  exact ⟨rfl, fun _ i => (hstored i).symm⟩

/-- Pages may come from their files and be dropped. -/
theorem Backed.of_sameFiles (h : s.Backed) (hs : SameFiles s s')
    (ho : ∀ q page, s'.cache.pages.get? q = some page →
      s.cache.pages.get? q = some page ∨ s.readPage q = .ok page) : s'.Backed := by
  intro q page hq
  rw [hs.readPage_eq]
  rcases ho q page hq with hq | hr
  · exact h q page hq
  · exact ⟨page, hr, backing_of_readPage hr⟩

/-! ## Writing

A write renews the before-image of its page.  Other pages share the file but not the place, so their
before-images stay what the file holds. -/

/-- A page that is in a file stays as it is when a page is added, also by the handle of somebody who
knows the file by another schema. -/
theorem readPage_append {file : TableFile} (hroom : file.HasRoom s.disk s.pageSize)
    (h : s.readPage q = .ok back) :
    { s with disk := (file.appendPage s.disk s.pageSize).2 }.readPage q = .ok back := by
  rw [readPage] at h ⊢
  cases hg : s.catalog.file q.table with
  | error e =>
    rw [hg] at h
    cases h
  | ok g =>
    rw [hg] at h
    dsimp only at h ⊢
    by_cases hpath : g.path = file.path
    · have hcount : file.pageCount s.disk s.pageSize = g.pageCount s.disk s.pageSize :=
        TableFile.pageCount_of_path hpath.symm
      have hne : q ≠ g.page (g.pageCount s.disk s.pageSize) := by
        intro he
        rw [TableFile.readPage] at h
        split at h
        · rename_i hhas
          have hlt := (TableFile.hasPage_iff.1 hhas).2
          rw [he] at hlt
          exact Nat.lt_irrefl _ hlt
        · cases h
      have hlen : (Page.zeroed s.pageSize).length = s.pageSize.bytes := Bytes.length_zeros _
      have hread := TableFile.readPage_writeAt hlen (hroom.takes.of_path hpath) q
      rw [hcount, if_neg hne] at hread
      rw [TableFile.appendPage, hcount, ← hpath]
      exact hread.trans h
    · exact (TableFile.readPage_congr (TableFile.content_writeAt_of_ne hpath _ _) q).trans h

theorem Backed.append (h : s.Backed) {file : TableFile} (hroom : file.HasRoom s.disk s.pageSize) :
    { s with disk := (file.appendPage s.disk s.pageSize).2 }.Backed := by
  intro q page hq
  obtain ⟨back, hback, hb⟩ := h q page hq
  exact ⟨back, readPage_append hroom hback, hb⟩

/-- A page that is written is what its file holds, and no other page of a file is touched. -/
theorem Backed.flushPage (h : s.Backed) (hi : s.catalog.Indexed) (hc : s.cache.Sound)
    (hh : s.Homed) (hf : s.flushPage p = .ok s') : s'.Backed := by
  rcases flushPage_writeAt hc hh.made.sized hf with
    ⟨rfl, -⟩ | ⟨page, file, hp, hfile, hlt, hlen, rfl⟩
  · exact h
  · have hid : file.id = p.table := hi _ _ hfile
    have hplace : p = file.page p.number := by rw [TableFile.page, hid]
    have hread := readPage_patched hi (hid ▸ hfile) hlen (Or.inl hlt)
    intro q page' hq
    rw [settled, Assoc.get?_insert] at hq
    split at hq
    · rename_i hqp
      cases hq
      obtain ⟨file', hhome⟩ := hh p page hp
      obtain rfl : file = file' := Except.ok.inj (hfile.symm.trans hhome.file_eq)
      obtain ⟨back, hback, hrows⟩ := hhome.formed.decode_encode
      rw [hc.keyed p page hp] at hback
      refine ⟨back, ?_, Page.beforeImage_of_decode hback, fun _ => hrows⟩
      rw [hqp]
      exact (hread p).trans ((if_pos hplace).trans hback)
    · rename_i hqp
      obtain ⟨back, hback, hb⟩ := h q page' hq
      have hne : q ≠ file.page p.number := fun he => hqp (he.trans hplace.symm)
      exact ⟨back, (hread q).trans ((if_neg hne).trans hback), hb⟩

/-- So are the pages of a list that have been written, also if writing has stopped halfway. -/
theorem Backed.flushPages (h : s.Backed) (hi : s.catalog.Indexed) (hc : s.NobodyWaits)
    (hh : s.Homed) (ps : List PageId) : (s.flushPages ps).2.Backed := by
  refine (flushPages_induction
    (P := fun m => m.Backed ∧ m.catalog.Indexed ∧ m.NobodyWaits ∧ m.Homed)
    (fun m p m' hm hf => ?_) ps ⟨h, hi, hc, hh⟩).1
  obtain ⟨hb, hi, hc, hh⟩ := hm
  have ho := onward_flushPage hh.made hf
  exact ⟨hb.flushPage hi hc.sound hh hf, ho.catalog_eq ▸ hi, hc.flushPage hf, ho.homed hh⟩

/-! ## Deeds -/

theorem Change.backed (hc : Change t grows s s') (hquiet : s.NobodyWaits) (h : s.Backed) :
    s'.Backed := by
  cases hc with
  | refresh hr =>
    exact h.of_sameFiles hr.sameFiles fun q page hq => (hr.origin q page hq).imp_right fun h => h.2.2
  | giveBack => exact h
  | append _ hroom => exact h.append hroom
  | look => exact h
  | strike _ hl _ =>
    have hd := discarded_strike hquiet hl
    have hs := hd.sameFiles
    exact h.of_sameFiles ⟨hs.disk_eq, hs.catalog_eq, hs.pageSize_eq⟩ fun q page hq =>
      Or.inl (hd.origin q page hq).1

theorem Changes.backed (hc : Changes t grows s s') (hquiet : s.NobodyWaits) (h : s.Backed) :
    s'.Backed := by
  induction hc with
  | refl => exact h
  | tail hm hc ih => exact hc.backed (Changes.nobodyWaits hm hquiet) ih

/-- A page that is edited keeps its before-image. -/
theorem Ended.backed (he : Ended t keeps m reply s') (h : m.Backed) : s'.Backed := by
  cases he with
  | plain => exact h
  | edit _ _ hp _ hb =>
    intro q page hq
    rw [edited, Cache.get?_put] at hq
    split at hq
    · rename_i hid
      cases hq
      obtain ⟨back, hback, hbacking⟩ := h _ _ hp
      exact ⟨back, hid.symm ▸ hback, hbacking.image.trans hb.symm, fun hclean => by cases hclean⟩
    · exact h q page hq

theorem Does.backed (hd : Does d s s') (hquiet : s.NobodyWaits) (hi : s.catalog.Indexed)
    (hh : s.Homed)
    (hr : d.registers = false) (hforeign : d.foreign = false) (h : s.Backed) : s'.Backed := by
  cases hd with
  | call hf =>
    obtain ⟨m, hm, he⟩ := finish_changes hquiet hf
    exact he.backed (hm.backed hquiet h)
  | commit _ t =>
    have hf := h.flushPages hi hquiet hh (s.cache.dirtyPages t)
    rcases commit_cases s t with ⟨-, he⟩ | ⟨e, -, -, he⟩ | ⟨-, -, he⟩
    · rw [he]
      exact h
    · rw [he]
      exact hf
    · rw [he]
      exact hf
  | abort _ t =>
    have hd := discarded_abort hquiet.locks.consistent hquiet.sound t
    exact h.of_sameFiles hd.sameFiles fun q page hq => Or.inl (hd.origin q page hq).1
  | release _ t p =>
    rw [releasePage]
    split
    · exact h
    · exact h
  | flushPage hf => exact h.flushPage hi hquiet.sound hh hf
  | flushTxn _ t => exact h.flushPages hi hquiet hh _
  | flushAll => exact h.flushPages hi hquiet hh _
  | discard _ p =>
    refine h.of_sameFiles ⟨rfl, rfl, rfl⟩ fun q page hq => Or.inl ?_
    rw [Store.discard, Cache.get?_drop] at hq
    split at hq
    · cases hq
    · exact hq
  | register => cases hr
  | outside => cases hforeign

/-- **While tables and page size stay the same and nobody else writes to the files, every page in
memory is backed by its file.** -/
theorem After.backed (h₀ : s₀.Fresh) (hi : s₀.catalog.Indexed) (h : After s₀ ds s)
    (hfixed : ∀ d ∈ ds, d.registers = false ∧ d.foreign = false) : s.Backed := by
  induction h with
  | start => exact h₀.backed
  | @deed ds d s s' h hd ih =>
    obtain ⟨hinit, hlast⟩ := List.forall_mem_append.1 hfixed
    obtain ⟨hr, hforeign⟩ := hlast d (List.mem_singleton_self d)
    have ho := h.onward h₀.nobodyWaits h₀.homed.made hinit
    exact hd.backed (h.nobodyWaits h₀.nobodyWaits) (ho.catalog_eq ▸ hi) (ho.homed h₀.homed) hr
      hforeign (ih hinit)

end Store
end TableStore

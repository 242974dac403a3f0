import TableStore.Proofs.Pool.Apart
import TableStore.Proofs.Pool.Failure
import TableStore.Proofs.Pool.Reordered

/-!
# Results depend on no order of enumeration

Pages are written one after the other, in the order in which the pages in memory are enumerated.
Each has a place of its own in the files, so if all of them can be written, the files are the same in
the end, and so is everything else.  If one of them cannot be written, those before it stay written,
and that does depend on the order.

## What is here

* `Store.flushPages_eq_filter` — pages without changes do not count.
* `Store.Cleaned`, `Store.flushPages_cleaned` — what writing pages does apart from their bytes.
* `Store.Reordered.flushPages` — writing pages in any order.
* `Store.Spread`, `Store.After.spread` — pages have places of their own in the files, and
  `Store.Laid.does` — a deed leaves them there.
* `Store.enumeration_independent` — the whole: writing pages, commits, aborts and taking locks.
* `Store.reversed` — every store has another order, backwards.
-/

set_option autoImplicit false
namespace TableStore

/-- Adding twice is adding the sum. -/
theorem Stats.add_add (s : Stats) (c : Counter) (m n : UInt64) :
    (s.add c m).add c n = s.add c (m + n) := by
  cases c <;> simp only [add, UInt64.add_assoc]

namespace Recency

/-- Marks are no matter of stamps. -/
theorem setEvictable_rest (r : Recency) (p : PageId) (on : Bool) :
    r.setEvictable p on = { r with evictable := (r.setEvictable p on).evictable } := by
  rw [setEvictable]
  split <;> rfl

/-- A page that is marked bears the mark if it has a stamp. -/
theorem mem_setEvictable_true {r : Recency} {p q : PageId} :
    q ∈ (r.setEvictable p true).evictable ↔
      if q = p then q ∈ r.stamps.keys else q ∈ r.evictable := by
  rw [setEvictable, Bool.true_and]
  split
  · rename_i hp
    have hp := Assoc.contains_iff.1 hp
    rw [Distinct.mem_insert]
    by_cases hq : q = p <;> simp [hq, hp]
  · rename_i hp
    rw [Assoc.contains_iff] at hp
    rw [Distinct.mem_erase]
    by_cases hq : q = p <;> simp [hq, hp]

end Recency

/-- Whether a page is in memory with changes. -/
def Cache.isDirty (c : Cache) (p : PageId) : Bool := (c.pages.get? p).any Page.isDirty

theorem Cache.isDirty_iff {c : Cache} {p : PageId} : c.isDirty p = true ↔
    ∃ page, c.pages.get? p = some page ∧ page.dirtier ≠ none := by
  rw [isDirty, Option.any_eq_true]
  simp only [Page.isDirty, Option.isSome_iff_ne_none]

/-- File systems with the same files and the same contents are the same. -/
theorem Disk.eq_of_content {d d' : Disk} (hdirectories : d'.directories = d.directories)
    (hkeys : d'.files.keys = d.files.keys) (hcontent : ∀ q, d'.content q = d.content q) :
    d' = d := by
  have hfile : ∀ q ∈ d'.files.keys, d'.files.get? q = d.files.get? q := fun q hq => by
    obtain ⟨bytes, hbytes⟩ := Assoc.mem_keys_iff.1 hq
    obtain ⟨bytes', hbytes'⟩ := Assoc.mem_keys_iff.1 (hkeys ▸ hq)
    have hsame := hcontent q
    rw [content, content, hbytes, hbytes'] at hsame
    rw [hbytes, hbytes']
    exact congrArg some hsame
  exact Disk.mk.injEq .. ▸ ⟨hdirectories, Assoc.eq_of_keys hkeys hfile⟩

namespace Store

variable {a a' b b' s₀ s s' : Store} {t : TxnId} {p : PageId} {ps ps' : List PageId} {ds : List Deed}
  {d : Deed}

/-! ## Writing pages -/

theorem flushPage_of_not_dirty (h : s.cache.isDirty p = false) : s.flushPage p = .ok s := by
  rw [Cache.isDirty] at h
  rw [flushPage]
  cases hp : s.cache.pages.get? p with
  | none => rfl
  | some page =>
    rw [hp, Option.any_some] at h
    dsimp only
    rw [h]
    rfl

/-- Writing pages is writing those of them that have changes. -/
theorem flushPages_eq_filter (hps : ps.Nodup) :
    s.flushPages ps = s.flushPages (ps.filter s.cache.isDirty) := by
  induction ps generalizing s with
  | nil => rfl
  | cons p ps ih =>
    obtain ⟨hp, hps⟩ := List.nodup_cons.1 hps
    cases hd : s.cache.isDirty p with
    | false =>
      rw [List.filter_cons_of_neg (by simp [hd]), flushPages, flushPage_of_not_dirty hd]
      exact ih hps
    | true =>
      rw [List.filter_cons_of_pos hd, flushPages, flushPages]
      cases hf : s.flushPage p with
      | error e => rfl
      | ok m =>
        have hsame : ∀ q ∈ ps, m.cache.isDirty q = s.cache.isDirty q := fun q hq => by
          rw [Cache.isDirty, Cache.isDirty, get?_flushPage hf fun he => hp (he ▸ hq)]
        rw [← List.filter_congr hsame]
        exact ih hps

/-- The pages `ps` have been written, all of which had changes: they are counted and may be evicted,
and apart from that and from their bytes, nothing else has changed. -/
structure Cleaned (s : Store) (ps : List PageId) (s' : Store) : Prop where
  pageSize_eq : s'.pageSize = s.pageSize
  catalog_eq : s'.catalog = s.catalog
  locks_eq : s'.locks = s.locks
  capacity_eq : s'.capacity = s.capacity
  timeout_eq : s'.timeout = s.timeout
  stats_eq : s'.stats = s.stats.add .writes (.ofNat ps.length)
  recency_eq :
    s'.cache.recency = { s.cache.recency with evictable := s'.cache.recency.evictable }
  evictable_iff : ∀ q, q ∈ s'.cache.recency.evictable ↔
    if q ∈ ps then q ∈ s.cache.recency.stamps.keys else q ∈ s.cache.recency.evictable
  directories_eq : s'.disk.directories = s.disk.directories
  files : s'.disk.files.keys = s.disk.files.keys

theorem Cleaned.nil (s : Store) : s.Cleaned [] s where
  pageSize_eq := rfl
  catalog_eq := rfl
  locks_eq := rfl
  capacity_eq := rfl
  timeout_eq := rfl
  stats_eq := by simp [Stats.add]
  recency_eq := rfl
  evictable_iff q := by simp
  directories_eq := rfl
  files := rfl

/-- The pages of the file are there before one of them is written. -/
theorem keys_writePage {file : TableFile} {disk disk' : Disk} {size : PageSize} {page : Page}
    (h : file.writePage disk size page = .ok disk') :
    disk'.directories = disk.directories ∧ disk'.files.keys = disk.files.keys := by
  rw [TableFile.writePage] at h
  split at h
  · rename_i hhas
    cases h
    refine ⟨rfl, ?_⟩
    rw [Disk.writeAt, Assoc.keys_insert, if_pos]
    by_contra hnone
    have hcount := (TableFile.hasPage_iff.1 hhas).2
    rw [TableFile.pageCount, TableFile.wholePages, Disk.content,
      Assoc.get?_eq_none_iff.2 hnone] at hcount
    simp at hcount
  · cases h

theorem Cleaned.cons {m : Store} (h : m.Cleaned ps s') (hf : s.flushPage p = .ok m)
    (hd : s.cache.isDirty p = true) : s.Cleaned (p :: ps) s' := by
  obtain ⟨page, hp, hdirty⟩ := Cache.isDirty_iff.1 hd
  rcases flushPage_cases hf with ⟨-, hclean⟩ | ⟨page', file, disk, -, -, -, hw, rfl⟩
  · exact absurd (hclean page hp) hdirty
  · obtain ⟨hdirectories, hfiles⟩ := keys_writePage hw
    have hmark := s.cache.recency.setEvictable_rest p true
    refine ⟨h.pageSize_eq, h.catalog_eq, h.locks_eq, h.capacity_eq, h.timeout_eq, ?_, ?_,
      fun q => ?_, h.directories_eq.trans hdirectories, h.files.trans hfiles⟩
    · rw [h.stats_eq, settled, Stats.bump, Stats.add_add, List.length_cons, UInt64.ofNat_add,
        UInt64.add_comm]
      rfl
    · refine h.recency_eq.trans ?_
      rw [settled, hmark]
    · rw [h.evictable_iff, settled]
      dsimp only
      rw [Recency.mem_setEvictable_true, hmark]
      by_cases hq : q = p <;> by_cases hps : q ∈ ps <;> simp [hq, hps]

theorem flushPages_cleaned (hps : ps.Nodup) (hd : ∀ p ∈ ps, s.cache.isDirty p = true)
    (hok : (s.flushPages ps).1 = .ok ()) : s.Cleaned ps (s.flushPages ps).2 := by
  induction ps generalizing s with
  | nil => exact .nil s
  | cons p ps ih =>
    obtain ⟨hp, hps⟩ := List.nodup_cons.1 hps
    obtain ⟨hdp, hd⟩ := List.forall_mem_cons.1 hd
    rw [flushPages] at hok ⊢
    cases hf : s.flushPage p with
    | error e =>
      rw [hf] at hok
      cases hok
    | ok m =>
      rw [hf] at hok
      refine Cleaned.cons (ih hps (fun q hq => ?_) hok) hf hdp
      rw [Cache.isDirty, get?_flushPage hf fun he => hp (he ▸ hq)]
      exact hd q hq

/-! ## Writing pages in another order

Pages do not share places, so they may be written in any order, if all of them can be written.  If
one cannot, the order decides which pages have been written before it. -/

/-- Every table is found under its identity, every page in memory under its own name, and all pages
take as many bytes as the page size says.  So pages have places of their own in the files. -/
structure Spread (s : Store) : Prop where
  indexed : s.catalog.Indexed
  sound : s.cache.Sound
  sized : s.Sized

theorem Reordered.spread (h : a.Reordered b) (ha : a.Spread) : b.Spread where
  indexed := h.catalog_eq ▸ ha.indexed
  sound := by
    refine ⟨fun p page hp => ha.sound.keyed p page (h.cache.get?_eq p ▸ hp), fun p hp => ?_⟩
    rw [h.cache.get?_eq]
    exact ha.sound.clean p ((Distinct.reordered_iff.1 h.cache.recency.evictable p).2 hp)
  sized p page hp := by
    rw [h.pageSize_eq]
    exact ha.sized p page (h.cache.get?_eq p ▸ hp)

/-- If all pages can be written, then all of them are in their places in the end. -/
theorem Spread.wrote (h : s.Spread) (hps : ps.Nodup) (hok : (s.flushPages ps).1 = .ok ()) :
    s.Wrote ps (s.flushPages ps).2.disk := by
  obtain ⟨written, rest, hsplit, hw, hend⟩ := flushPages_wrote h.indexed h.sound h.sized hps
  obtain rfl : rest = [] := by
    rcases hend with ⟨hnil, -⟩ | ⟨p, tail, e, -, -, herr⟩
    · exact hnil
    · rw [hok] at herr
      cases herr
  rw [List.append_nil] at hsplit
  exact hsplit ▸ hw

/-- If all pages can be written in one order, they can be written in any other. -/
theorem Reordered.flushPages_ok (h : a.Reordered b) (ha : a.Spread) (hps : ps.Nodup)
    (hperm : ps.Perm ps') (hok : (a.flushPages ps).1 = .ok ()) : (b.flushPages ps').1 = .ok () := by
  have hb := h.spread ha
  obtain ⟨written, rest, hsplit, -, ⟨-, hok'⟩ | ⟨p, tail, e, rfl, herr, -⟩⟩ :=
    flushPages_wrote hb.indexed hb.sound hb.sized (hperm.nodup_iff.1 hps)
  · exact hok'
  exfalso
  obtain ⟨page, hp, hd, hun⟩ := flushPage_eq_error_iff.1 herr
  have hmem : p ∈ ps := hperm.mem_iff.2 (hsplit ▸ List.mem_append_right _ List.mem_cons_self)
  obtain ⟨file, hfile, hlt, -⟩ :=
    (ha.wrote hps hok).bytes p hmem page ((h.cache.get?_eq p).symm.trans hp) hd
  rw [Unwritable, hb.sound.keyed p page hp, h.catalog_eq, hfile] at hun
  rcases hun with he | ⟨file', hfile', hnone, -⟩
  · cases he
  · cases hfile'
    refine hnone (TableFile.hasPage_iff.2 ⟨(ha.indexed _ _ hfile).symm, ?_⟩)
    rw [h.disk_eq, h.pageSize_eq]
    exact hlt

/-- All places are written alike. -/
theorem Reordered.content_eq (h : a.Reordered b) {disk disk' : Disk} (hw : a.Wrote ps disk)
    (hw' : b.Wrote ps' disk') (hperm : ps.Perm ps') (hd : ∀ p ∈ ps, a.cache.isDirty p = true)
    (q : Path) : disk'.content q = disk.content q := by
  have hplace : ∀ p, b.place? p = a.place? p := fun p => by rw [place?, place?, h.catalog_eq]
  suffices hpages : ∀ n, disk'.pageAt a.pageSize q n = disk.pageAt a.pageSize q n from
    Disk.content_eq_of_pageAt hpages
  intro n
  by_cases hn : ∃ p ∈ ps, a.place? p = some (q, n)
  · obtain ⟨p, hp, hpn⟩ := hn
    obtain ⟨page, hpage, hdirty⟩ := Cache.isDirty_iff.1 (hd p hp)
    obtain ⟨file, hfile, -, hbytes⟩ := hw.bytes p hp page hpage hdirty
    obtain ⟨file', hfile', -, hbytes'⟩ := hw'.bytes p (hperm.mem_iff.1 hp) page
      ((h.cache.get?_eq p).trans hpage) hdirty
    rw [h.catalog_eq, hfile] at hfile'
    cases hfile'
    rw [place?_of_file hfile] at hpn
    cases hpn
    rw [h.pageSize_eq] at hbytes'
    exact hbytes'.trans hbytes.symm
  · have hother := hw.other q n fun p hp he => hn ⟨p, hp, he⟩
    have hother' := hw'.other q n fun p hp he =>
      hn ⟨p, hperm.mem_iff.2 hp, (hplace p).symm.trans he⟩
    rw [h.pageSize_eq, h.disk_eq] at hother'
    exact hother'.trans hother.symm

/-- What is left in memory after the same pages have been written. -/
theorem Reordered.get?_flushPages (h : a.Reordered b) (hps : ps.Nodup) (hperm : ps.Perm ps')
    (hok : (a.flushPages ps).1 = .ok ()) (hok' : (b.flushPages ps').1 = .ok ()) (q : PageId) :
    (b.flushPages ps').2.cache.pages.get? q = (a.flushPages ps).2.cache.pages.get? q := by
  by_cases hq : q ∈ ps
  · have hq' := hperm.mem_iff.1 hq
    rw [get?_flushPages_of_mem hps hok hq,
      get?_flushPages_of_mem (hperm.nodup_iff.1 hps) hok' hq', h.cache.get?_eq]
  · have hq' := mt hperm.mem_iff.2 hq
    rw [Store.get?_flushPages hq, Store.get?_flushPages hq', h.cache.get?_eq]

/-- Once the same pages have been written, the stores differ in nothing if they do not differ in the
pages that are left in memory and in what is written. -/
theorem Reordered.cleaned (h : a.Reordered b) (hc : a.Cleaned ps a') (hc' : b.Cleaned ps' b')
    (hperm : ps.Perm ps') (hpages : ∀ q, b'.cache.pages.get? q = a'.cache.pages.get? q)
    (hcontent : ∀ q, b'.disk.content q = a'.disk.content q) : a'.Reordered b' where
  pageSize_eq := hc'.pageSize_eq.trans (h.pageSize_eq.trans hc.pageSize_eq.symm)
  disk_eq := by
    refine Disk.eq_of_content ?_ ?_ hcontent
    · rw [hc.directories_eq, hc'.directories_eq, h.disk_eq]
    · rw [hc.files, hc'.files, h.disk_eq]
  catalog_eq := hc'.catalog_eq.trans (h.catalog_eq.trans hc.catalog_eq.symm)
  cache := by
    have hstamps := Assoc.reordered_iff.1 h.cache.recency.stamps
    have hevictable : a'.cache.recency.evictable.Reordered b'.cache.recency.evictable := by
      refine Distinct.reordered_iff.2 fun q => ?_
      rw [hc.evictable_iff, hc'.evictable_iff, Assoc.mem_keys_iff, Assoc.mem_keys_iff, hstamps,
        Distinct.reordered_iff.1 h.cache.recency.evictable]
      by_cases hq : q ∈ ps
      · rw [if_pos hq, if_pos (hperm.mem_iff.1 hq)]
      · rw [if_neg hq, if_neg (mt hperm.mem_iff.2 hq)]
    refine ⟨Assoc.reordered_iff.2 hpages, ?_⟩
    rw [hc.recency_eq, hc'.recency_eq]
    exact { h.cache.recency with evictable := hevictable }
  locks := by
    rw [hc.locks_eq, hc'.locks_eq]
    exact h.locks
  stats_eq := by rw [hc.stats_eq, hc'.stats_eq, h.stats_eq, hperm.length_eq]
  capacity_eq := hc'.capacity_eq.trans (h.capacity_eq.trans hc.capacity_eq.symm)
  timeout_eq := hc'.timeout_eq.trans (h.timeout_eq.trans hc.timeout_eq.symm)

/-- **Pages with changes may be written in any order.** -/
theorem Reordered.flushPages_dirty (h : a.Reordered b) (ha : a.Spread) (hps : ps.Nodup)
    (hperm : ps.Perm ps') (hd : ∀ p ∈ ps, a.cache.isDirty p = true)
    (hok : (a.flushPages ps).1 = .ok ()) :
    (b.flushPages ps').1 = .ok () ∧ (a.flushPages ps).2.Reordered (b.flushPages ps').2 := by
  have hps' := hperm.nodup_iff.1 hps
  have hok' := h.flushPages_ok ha hps hperm hok
  have hd' : ∀ p ∈ ps', b.cache.isDirty p = true := fun p hp => by
    rw [Cache.isDirty, h.cache.get?_eq]
    exact hd p (hperm.mem_iff.2 hp)
  have hcontent := h.content_eq (ha.wrote hps hok) ((h.spread ha).wrote hps' hok') hperm hd
  exact ⟨hok', h.cleaned (flushPages_cleaned hps hd hok) (flushPages_cleaned hps' hd' hok') hperm
    (h.get?_flushPages hps hperm hok hok') hcontent⟩

/-- **Pages may be written in any order**, if all of them can be written. -/
theorem Reordered.flushPages (h : a.Reordered b) (ha : a.Spread) (hps : ps.Nodup)
    (hperm : ps.Perm ps') (hok : (a.flushPages ps).1 = .ok ()) :
    (b.flushPages ps').1 = .ok () ∧ (a.flushPages ps).2.Reordered (b.flushPages ps').2 := by
  have hdirty : b.cache.isDirty = a.cache.isDirty := funext fun p => by
    rw [Cache.isDirty, Cache.isDirty, h.cache.get?_eq]
  rw [flushPages_eq_filter hps] at hok ⊢
  rw [flushPages_eq_filter (hperm.nodup_iff.1 hps), hdirty]
  exact h.flushPages_dirty ha (hps.filter _) (hperm.filter _) (fun p hp => (List.mem_filter.1 hp).2)
    hok

theorem flushTxn_eq (s : Store) (t : TxnId) : s.flushTxn t =
    ((s.flushPages (s.cache.dirtyPages t)).1.map fun _ => (s.cache.dirtyPages t).length,
      (s.flushPages (s.cache.dirtyPages t)).2) := rfl

theorem Reordered.flushTxn (h : a.Reordered b) (ha : a.Spread) {n : Nat}
    (hok : (a.flushTxn t).1 = .ok n) :
    (b.flushTxn t).1 = .ok n ∧ (a.flushTxn t).2.Reordered (b.flushTxn t).2 := by
  have hperm := h.cache.dirtyPages t
  rw [flushTxn_eq] at hok ⊢
  rw [flushTxn_eq, ← hperm.length_eq]
  cases hr : (a.flushPages (a.cache.dirtyPages t)).1 with
  | error e =>
    rw [hr] at hok
    cases hok
  | ok =>
    rw [hr] at hok
    obtain ⟨hok', hsame⟩ := h.flushPages ha (nodup_dirtyPages a.cache t) hperm hr
    exact ⟨by rw [hok']; exact hok, hsame⟩

theorem Reordered.flushAll (h : a.Reordered b) (ha : a.Spread) (hok : a.flushAll.1 = .ok ()) :
    b.flushAll.1 = .ok () ∧ a.flushAll.2.Reordered b.flushAll.2 :=
  h.flushPages ha a.cache.pages.nodup_keys (h.cache.pages.map _) hok

/-- A commit depends on no order if all changes can be written. -/
theorem Reordered.commit (h : a.Reordered b) (ha : a.Spread) {n : Nat}
    (hok : (a.flushTxn t).1 = .ok n) :
    (b.commit t).1 = (a.commit t).1 ∧ (a.commit t).2.Reordered (b.commit t).2 := by
  obtain ⟨hok', hsame⟩ := h.flushTxn ha hok
  rw [Store.commit, Store.commit, h.locks.isAborted_eq]
  split
  · exact ⟨rfl, h⟩
  · generalize a.flushTxn t = x, b.flushTxn t = x' at hok hok' hsame
    obtain ⟨result, m⟩ := x
    obtain ⟨result', m'⟩ := x'
    dsimp only at hok hok' hsame
    subst hok hok'
    exact ⟨rfl, hsame.withLocks (hsame.locks.complete t)⟩

/-! ## Between any deeds -/

/-- Every table is found under its identity, and the pages in memory are laid out for pages of the
size `size`, as the whole store is. -/
structure Laid (size : PageSize) (s : Store) : Prop where
  pageSize_eq : s.pageSize = size
  indexed : s.catalog.Indexed
  shaped : Shaped (fun _ _ => True) s

/-- A deed keeps it so, if the tables that it registers are found and the page size stays. -/
theorem Laid.does {size : PageSize} (h : s.Laid size) (hd : Does d s s') (hquiet : s.NobodyWaits)
    (hi : ∀ catalog, d = .register catalog → catalog.Indexed)
    (hsize : ∀ disk n, d = .outside disk n → n = size) : s'.Laid size := by
  cases hr : d.registers with
  | true =>
    cases hd with
    | register _ catalog => exact ⟨h.pageSize_eq, hi catalog rfl, h.shaped⟩
    | _ => cases hr
  | false =>
    cases hforeign : d.foreign with
    | true =>
      cases hd with
      | outside _ disk n =>
        have hn := hsize disk n rfl
        refine ⟨hn, h.indexed, fun p page hp => ?_⟩
        have hformed := h.shaped p page hp
        rw [h.pageSize_eq, ← hn] at hformed
        exact hformed
      | _ => cases hforeign
    | false =>
      have ho := hd.onward hquiet h.shaped.made hr hforeign
      exact ⟨ho.pageSize_eq.trans h.pageSize_eq, ho.catalog_eq ▸ h.indexed,
        ho.shaped (fun _ _ _ => trivial) h.shaped⟩

theorem After.laid (h₀ : s₀.Fresh) (h : After s₀ ds s) (hi₀ : s₀.catalog.Indexed)
    (hi : ∀ catalog, .register catalog ∈ ds → catalog.Indexed)
    (hsize : ∀ disk size, .outside disk size ∈ ds → size = s₀.pageSize) :
    s.Laid s₀.pageSize := by
  induction h with
  | start =>
    refine ⟨rfl, hi₀, fun p page hp => ?_⟩
    rw [h₀.cache_eq] at hp
    cases hp
  | deed h hd ih =>
    refine (ih (fun catalog hm => hi catalog (List.mem_append_left _ hm)) fun disk size hm =>
      hsize disk size (List.mem_append_left _ hm)).does hd (h.nobodyWaits h₀.nobodyWaits) ?_ ?_
    · rintro catalog rfl
      exact hi catalog (by simp)
    · rintro disk size rfl
      exact hsize disk size (by simp)

/-- What the order of writing rests on holds between any deeds, as long as the page size stays. -/
theorem After.spread (h₀ : s₀.Fresh) (h : After s₀ ds s) (hi₀ : s₀.catalog.Indexed)
    (hi : ∀ catalog, .register catalog ∈ ds → catalog.Indexed)
    (hsize : ∀ disk size, .outside disk size ∈ ds → size = s₀.pageSize) : s.Spread :=
  have hlaid := h.laid h₀ hi₀ hi hsize
  ⟨hlaid.indexed, (h.nobodyWaits h₀.nobodyWaits).sound, hlaid.shaped.made.sized⟩

/-- A lock is taken, or refused to a victim, in two requests at most. -/
theorem NobodyWaits.lock_two (h : s.NobodyWaits) (r : Request) : ∃ x s', s.lock 2 r = some
    (x, s') := by
  by_cases hr : r.txn ∈ s.locks.aborted
  · rw [lock, LockTable.acquire, LockTable.ask_of_aborted hr]
    exact ⟨_, _, rfl⟩
  · rcases h.lock_cases hr with ⟨l, -, -, hl⟩ | ⟨us, l, m, -, -, -, hl⟩
    · exact ⟨_, _, hl⟩
    · exact ⟨_, _, hl⟩

/-- **Results depend on no order of enumeration.**  Between any deeds with a fixed page size, let
the pages in memory, the locks, the holders of locks and the victims be enumerated in any two orders.
An abort leaves the same store in both.  If all changes of a transaction can be written in one order,
they can be written in the other, and writing them and committing have the same result and leave the
same store; so has writing all pages.  A lock is taken with the same result, and its victims are
rolled back to the same store, even if the order of enumeration changes on the way. -/
theorem enumeration_independent (h₀ : s₀.Fresh) (h : After s₀ ds s) (hi₀ : s₀.catalog.Indexed)
    (hi : ∀ catalog, .register catalog ∈ ds → catalog.Indexed)
    (hsize : ∀ disk size, .outside disk size ∈ ds → size = s₀.pageSize)
    (ha : s.Reordered a) (hb : s.Reordered b) :
    (∀ t, (a.abort t).Reordered (b.abort t)) ∧
    (∀ t n, (a.flushTxn t).1 = .ok n →
      (b.flushTxn t).1 = .ok n ∧ (a.flushTxn t).2.Reordered (b.flushTxn t).2 ∧
      (b.commit t).1 = (a.commit t).1 ∧ (a.commit t).2.Reordered (b.commit t).2) ∧
    (a.flushAll.1 = .ok () → b.flushAll.1 = .ok () ∧ a.flushAll.2.Reordered b.flushAll.2) ∧
    ∀ r, ∃ x s', s.lock 2 r = some (x, s') ∧ a.Takes r x s' ∧
      ∀ y b', b.Takes r y b' → y = x ∧ s'.Reordered b' := by
  have hab := ha.symm.trans hb
  have hspread := ha.spread (h.spread h₀ hi₀ hi hsize)
  refine ⟨hab.abort, fun t n hok => ?_, hab.flushAll hspread, fun r => ?_⟩
  · obtain ⟨hok', hsame⟩ := hab.flushTxn hspread hok
    exact ⟨hok', hsame, hab.commit hspread hok⟩
  · obtain ⟨x, s', hl⟩ := (h.nobodyWaits h₀.nobodyWaits).lock_two r
    have htakes := takes_of_lock hl
    exact ⟨x, s', hl, htakes.of_reordered ha.symm, fun y b' hb' => htakes.unique hb' hb⟩

end Store

/-! ## Everything backwards

Every map and every set of a store is turned around at once.  That is one of the other orders, and
it shows that there are some. -/

/-- The same members, backwards. -/
def Distinct.reverse {α : Type} (s : Distinct α) : Distinct α :=
  ⟨s.toList.reverse, List.nodup_reverse.2 s.nodup⟩

/-- The same entries, backwards. -/
def Assoc.reverse {κ ν : Type} (m : Assoc κ ν) : Assoc κ ν :=
  ⟨m.entries.reverse, by rw [List.map_reverse]; exact List.nodup_reverse.2 m.nodup⟩

namespace Store

/-- The same store, with pages, locks and victims enumerated backwards. -/
def reversed (s : Store) : Store :=
  { s with
    cache :=
      { pages := s.cache.pages.reverse
        recency := { s.cache.recency with
          stamps := s.cache.recency.stamps.reverse
          evictable := s.cache.recency.evictable.reverse } }
    locks := { s.locks with
      pages := s.locks.pages.reverse
      holdings := s.locks.holdings.reverse
      aborted := s.locks.aborted.reverse } }

theorem reordered_reversed (s : Store) : s.Reordered s.reversed where
  pageSize_eq := rfl
  disk_eq := rfl
  catalog_eq := rfl
  cache :=
    { pages := (List.reverse_perm _).symm
      recency := ⟨rfl, (List.reverse_perm _).symm, rfl, (List.reverse_perm _).symm⟩ }
  locks :=
    { pages := Assoc.Reordered.matches (List.reverse_perm _).symm .refl
      holdings := Assoc.Reordered.matches (List.reverse_perm _).symm .refl
      aborted := (List.reverse_perm _).symm
      signals_eq := rfl }
  stats_eq := rfl
  capacity_eq := rfl
  timeout_eq := rfl

/-- A transaction has put a row into each of two tables and has not committed yet. -/
def bothEntered : Option (Reply × Reply × Store) :=
  let row : Row := { values := [.int 7] }
  (finish 1 (paired.start ⟨1⟩ (.insert TableFile.numbers.id row))).bind fun run =>
    (finish 1 (run.2.start ⟨1⟩ (.insert TableFile.tallies.id row))).map fun run' =>
      (run.1, run'.1, run'.2)

/-- Its commit writes the two pages in either order. -/
theorem enumeration_independent_backwards : paired.Fresh ∧ ∃ (ds : List Deed) (s : Store),
    After paired ds s ∧ s.reversed.cache.dirtyPages ⟨1⟩ ≠ s.cache.dirtyPages ⟨1⟩ ∧
    (s.commit ⟨1⟩).1 = .ok () ∧ (s.reversed.commit ⟨1⟩).1 = .ok () ∧
    (s.commit ⟨1⟩).2.Reordered (s.reversed.commit ⟨1⟩).2 := by
  have hf : paired.Fresh := ⟨rfl, rfl⟩
  have hd : bothEntered.map (fun run => decide (
      run.2.2.reversed.cache.dirtyPages ⟨1⟩ ≠ run.2.2.cache.dirtyPages ⟨1⟩ ∧
      (run.2.2.flushTxn ⟨1⟩).1 = .ok 2 ∧ (run.2.2.commit ⟨1⟩).1 = .ok ())) = some true := by
    decide +kernel
  obtain ⟨⟨r, r', s⟩, hs, hd⟩ := Option.map_eq_some_iff.1 hd
  obtain ⟨hne, hflush, hcommit⟩ := of_decide_eq_true hd
  obtain ⟨run, hfirst, hs⟩ := Option.bind_eq_some_iff.1 hs
  obtain ⟨run', hsecond, hs⟩ := Option.map_eq_some_iff.1 hs
  cases hs
  have h := (After.start.deed (.call hfirst)).deed (.call hsecond)
  obtain ⟨-, hwrite, -⟩ := enumeration_independent hf h indexed_paired
    (fun _ hm => by simp at hm) (fun _ _ hm => by simp at hm) (.refl _)
    (reordered_reversed run'.2)
  obtain ⟨-, -, hresult, hsame⟩ := hwrite ⟨1⟩ 2 hflush
  exact ⟨hf, _, _, h, hne, hcommit, hresult.trans hcommit, hsame⟩

end Store
end TableStore

import Mathlib.Data.List.Perm.Subperm
import TableStore.Proofs.Pool.Agreement

/-!
# Before-images

A page in memory carries the bytes that it had when it was read or last written.  They are what its
file holds at the place of the page, whatever has happened to the page and to other pages since.  So
they can always be decoded, and the page in them is the one that is read again once the page has
been dropped.

## What is here

* `Store.Drops` — the ways in which the changes of a page are undone: the page is dropped by hand,
  or its transaction is aborted or becomes the victim of a deadlock.
* `Store.Drops.dropped` — all of them take the page out of memory and leave the files alone.
* `Store.before_images_are_stored` — the before-image of every page in memory.
-/

set_option autoImplicit false
namespace TableStore

/-- A cache that has lost a page, and has no new ones, is smaller. -/
theorem Cache.size_lt {c c' : Cache} {p : PageId} {page : Page}
    (ho : ∀ q page, c'.pages.get? q = some page → c.pages.get? q = some page)
    (hp : c.pages.get? p = some page) (hn : c'.pages.get? p = none) : c'.size < c.size := by
  have hsub : p :: c'.pages.keys ⊆ c.pages.keys := by
    refine List.cons_subset.2 ⟨Assoc.mem_keys_iff.2 ⟨page, hp⟩, fun q hq => ?_⟩
    obtain ⟨page', hq⟩ := Assoc.mem_keys_iff.1 hq
    exact Assoc.mem_keys_iff.2 ⟨page', ho q page' hq⟩
  have hnodup : (p :: c'.pages.keys).Nodup :=
    List.nodup_cons.2 ⟨Assoc.get?_eq_none_iff.1 hn, c'.pages.nodup_keys⟩
  have hle := (List.subperm_of_subset hnodup hsub).length_le
  rw [List.length_cons, Assoc.length_keys, Assoc.length_keys] at hle
  exact hle

namespace Store

variable {s₀ s s' : Store} {t u : TxnId} {p : PageId} {page back : Page} {ds : List Deed}

/-! ## Dropping a page

There are three ways for a page with changes to go.  What comes after is the same for all of them:
the page is missing, and the next one who asks for it reads the file. -/

/-- The page `page` is dropped: by hand, with all changes of the transaction that has changed it, or
because that transaction is among the victims of a deadlock. -/
inductive Drops (p : PageId) (page : Page) (s : Store) : Store → Prop where
  | discard : Drops p page s (s.discard p)
  | abort {u : TxnId} (hd : page.dirtier = some u) : Drops p page s (s.abort u)
  | strike {u : TxnId} {r : Request} {us : List TxnId} {l : LockTable}
      (h : s.locks.acquire r = (.deadlock us, l)) (hu : u ∈ us) (hd : page.dirtier = some u) :
      Drops p page s (us.foldl rollBack ({ s with locks := l }.bump .deadlocks))

/-- A page has gone from memory, and files and other pages have stayed as they were. -/
structure Dropped (p : PageId) (s s' : Store) : Prop where
  nobodyWaits : s'.NobodyWaits
  files : SameFiles s s'
  capacity_eq : s'.capacity = s.capacity
  origin : ∀ q page, s'.cache.pages.get? q = some page → s.cache.pages.get? q = some page
  missing : s'.cache.pages.get? p = none

/-- Whoever loses its changes loses this page. -/
theorem Discarded.missing {us : List TxnId} (h : Discarded us s s')
    (hp : s.cache.pages.get? p = some page) (hu : u ∈ us) (hd : page.dirtier = some u) :
    s'.cache.pages.get? p = none := by
  refine Option.eq_none_iff_forall_ne_some.2 fun page' hp' => ?_
  obtain ⟨hp'', hn⟩ := h.origin p page' hp'
  rw [hp] at hp''
  cases hp''
  exact hn u hu hd

theorem capacity_abort (s : Store) (t : TxnId) : (s.abort t).capacity = s.capacity := by
  rw [Store.abort]
  split <;> rfl

theorem Drops.dropped (h : Drops p page s s') (hquiet : s.NobodyWaits)
    (hp : s.cache.pages.get? p = some page) : Dropped p s s' := by
  cases h with
  | discard =>
    refine ⟨⟨hquiet.locks, hquiet.sound.drop p⟩, ⟨rfl, rfl, rfl⟩, rfl, fun q page hq => ?_, ?_⟩
    · rw [Store.discard, Cache.get?_drop] at hq
      split at hq
      · cases hq
      · exact hq
    · rw [Store.discard, Cache.get?_drop, if_pos rfl]
  | @abort u hd =>
    have hdis := discarded_abort hquiet.locks.consistent hquiet.sound u
    exact ⟨hquiet.abort u, hdis.sameFiles, capacity_abort s u,
      fun q page hq => (hdis.origin q page hq).1,
      hdis.missing hp (List.mem_singleton_self u) hd⟩
  | @strike u r us l ha hu hd =>
    rcases hquiet.locks.consistent.acquire_cases r with
      ⟨m, he, -⟩ | ⟨m, he, -⟩ | ⟨vs, m, he, hs, hw⟩
    · rw [ha] at he
      cases he
    · rw [ha] at he
      cases he
    · rw [ha] at he
      cases he
      have hchange : Change r.txn (fun _ => False) s _ := .strike rfl hs hw
      have hdis := discarded_strike hquiet hs
      have hfiles := hdis.sameFiles
      exact ⟨hchange.nobodyWaits hquiet, ⟨hfiles.disk_eq, hfiles.catalog_eq, hfiles.pageSize_eq⟩,
        capacity_foldl_rollBack _ us, fun q page hq => (hdis.origin q page hq).1,
        hdis.missing hp hu hd⟩

/-- A page that has been dropped is read again from its file. -/
theorem Dropped.fetch (h : Dropped p s s') (hp : s.cache.pages.get? p = some page)
    (hle : s.cache.size ≤ s.capacity) (hr : s.readPage p = .ok back) (ha : t ∉ s'.locks.aborted)
    (access : Access) : ∃ m, s'.perform t (.fetch p access) = some (⟨.ok back, none⟩, m) := by
  have hroom : s'.cache.size < s'.capacity := by
    rw [h.capacity_eq]
    exact Nat.lt_of_lt_of_le (Cache.size_lt h.origin hp h.missing) hle
  exact h.nobodyWaits.fetch_missing ha h.missing hroom ((h.files.readPage_eq p).trans hr) access

/-! ## What before-images hold -/

/-- The before-image of a page that is backed by its file can be decoded, and is what its file
holds. -/
theorem Backing.before (h : Backing page back) (hr : s.readPage p = .ok back) (hid : page.id = p)
    {file : TableFile} (hh : s.Home p page file) :
    page.beforeImage = s.disk.pageAt s.pageSize file.path p.number ∧
      page.before s.pageSize = .ok back := by
  have hfile := hh.file_eq
  rw [readPage, hfile] at hr
  dsimp only at hr
  rw [TableFile.readPage] at hr
  split at hr
  · have himage : page.beforeImage = s.disk.pageAt s.pageSize file.path p.number :=
      h.image.symm.trans (Page.beforeImage_of_decode hr)
    refine ⟨himage, ?_⟩
    rw [Page.before, himage, hid, hh.formed.schema_eq]
    exact hr
  · cases hr

/-- **The before-image of every page in memory, clean or not, is what its file holds at the place of
the page**, while tables and page size stay the same and nobody else writes to the files.  So it can
be decoded, and the page in it is the one that is handed out once the page has been dropped. -/
theorem before_images_are_stored (h₀ : s₀.Fresh) (hi : s₀.catalog.Indexed) (h : After s₀ ds s)
    (hfixed : ∀ d ∈ ds, d.registers = false ∧ d.foreign = false) :
    ∀ p page, s.cache.pages.get? p = some page → ∃ file back,
      s.catalog.file p.table = .ok file ∧ p.number < s.pageCount file ∧
      page.beforeImage = s.disk.pageAt s.pageSize file.path p.number ∧
      page.before s.pageSize = .ok back ∧
      ∀ s', Drops p page s s' → s'.cache.pages.get? p = none ∧ s'.readPage p = .ok back ∧
        ∀ t access, t ∉ s'.locks.aborted →
          ∃ m, s'.perform t (.fetch p access) = some (⟨.ok back, none⟩, m) := by
  intro p page hp
  have hquiet := h.nobodyWaits h₀.nobodyWaits
  obtain ⟨log, hused⟩ := Session.Used.after h
  have hs : s.Stocked s₀.capacity log := hused.stocked h₀
  obtain ⟨file, hh⟩ := (h.onward h₀.nobodyWaits h₀.homed.made hfixed).homed h₀.homed p page hp
  obtain ⟨back, hback, hb⟩ := h.backed h₀ hi hfixed p page hp
  obtain ⟨himage, hbefore⟩ := hb.before hback (hquiet.sound.keyed p page hp) hh
  refine ⟨file, back, hh.file_eq, hh.lt, himage, hbefore, fun s' hdrop => ?_⟩
  have hd := hdrop.dropped hquiet hp
  refine ⟨hd.missing, (hd.files.readPage_eq p).trans hback, fun t access ha => ?_⟩
  exact hd.fetch hp (hs.capacity_eq.symm ▸ hs.size_le) hback ha access

/-- A transaction has put a row into an empty page.  Its before-image is that of the empty page,
which is handed out once the transaction has been aborted. -/
theorem before_images_are_stored_entered : numbers.Fresh ∧ numbers.catalog.Indexed ∧
    ∃ (ds : List Deed) (s : Store) (page back : Page) (m : Store), After numbers ds s ∧
      s.cache.pages.get? (TableFile.numbers.page 0) = some page ∧ page.dirtier = some ⟨1⟩ ∧
      page.row? 0 ≠ none ∧ page.before s.pageSize = .ok back ∧ back.row? 0 = none ∧
      (s.abort ⟨1⟩).perform ⟨2⟩ (.fetch (TableFile.numbers.page 0) .readOnly) =
        some (⟨.ok back, none⟩, m) := by
  have hf : numbers.Fresh := ⟨rfl, rfl⟩
  have hi : numbers.catalog.Indexed := Catalog.Indexed.empty.add _ _ _
  have hd : entered.map (fun run => decide (⟨2⟩ ∉ (run.2.abort ⟨1⟩).locks.aborted ∧
      ∃ page ∈ run.2.cache.pages.get? (TableFile.numbers.page 0), page.dirtier = some ⟨1⟩ ∧
        page.row? 0 ≠ none ∧
        ∃ back ∈ (page.before run.2.pageSize).toOption, back.row? 0 = none)) = some true := by
    decide +kernel
  obtain ⟨⟨reply, s⟩, hs, hd⟩ := Option.map_eq_some_iff.1 hd
  obtain ⟨ha, page, hp, hdirty, hrow, back, hback, hnone⟩ := of_decide_eq_true hd
  have h := After.start.deed (.call hs)
  obtain ⟨file, back', -, -, -, hbefore, hdrop⟩ :=
    before_images_are_stored hf hi h (by simp [Deed.registers, Deed.foreign]) _ page hp
  rw [hbefore] at hback
  cases hback
  obtain ⟨-, -, hfetch⟩ := hdrop _ (.abort hdirty)
  obtain ⟨m, hm⟩ := hfetch ⟨2⟩ .readOnly ha
  exact ⟨hf, hi, _, s, page, back, m, h, hp, hdirty, hrow, hbefore, hnone, hm⟩

end Store
end TableStore

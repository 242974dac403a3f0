import TableStore.Proofs.Pool.Data

/-!
# The places of pages in files

Page `n` of a file is the `n`-th stretch of its bytes.  Files change in two ways only: a page is
written to its place, which touches no other place, and a page of zeros is added after the last whole
page.

## What is here

* `Disk.pageAt` — the bytes at a place, and `Disk.pageAt_writeAt` — after one place has been written.
* `Disk.Grown` — a file to which pages have been added; `Grown.pageAt_eq` says that all whole pages
  are still there.
* `Disk.Extended` — a file system from which nothing has been removed; `Extended.openFile` says that
  its files can still be opened.
* `Store.Wrote` — the pages of a list have been written to their places, and nothing else has.
* `Store.flushPages_wrote` — writing pages one after the other does that for all of them, or for
  those before the first one that cannot be written.
-/

set_option autoImplicit false
namespace TableStore

/-! ## Bytes -/

namespace Bytes

theorem zeros_append (m n : Nat) : zeros m ++ zeros n = zeros (m + n) :=
  List.replicate_append_replicate

/-- A patch that covers the end of the bytes. -/
theorem overwrite_end {b patch : Bytes} {start : Nat} (h : start ≤ b.length)
    (hp : b.length ≤ start + patch.length) : b.overwrite start patch = b.take start ++ patch := by
  rw [overwrite, resize, Nat.sub_eq_zero_of_le h, List.drop_eq_nil_of_le hp, List.append_nil]
  exact congrArg (· ++ patch) (List.append_nil _)

end Bytes

namespace Disk

variable {d d' : Disk} {size : PageSize} {q : Path} {n : Nat}

/-! ## Places

Page `n` has the bytes from `n` times the page size on.  Places do not overlap, and together they
make up the file, so a file is known if its places are. -/

/-- The bytes at the place of a page.  There are fewer than a page takes at the end of the file, and
none after it. -/
def pageAt (d : Disk) (size : PageSize) (q : Path) (n : Nat) : Bytes :=
  (d.content q).slice (n * size.bytes) size.bytes

theorem pageAt_congr (h : d'.content q = d.content q) (n : Nat) :
    d'.pageAt size q n = d.pageAt size q n := by
  rw [pageAt, pageAt, h]

/-- Two places do not overlap. -/
theorem places_disjoint {k n : Nat} (h : k ≠ n) (size : Nat) :
    k * size + size ≤ n * size ∨ n * size + size ≤ k * size := by
  rw [← Nat.succ_mul, ← Nat.succ_mul]
  rcases Nat.lt_or_gt_of_ne h with hlt | hgt
  · exact Or.inl (Nat.mul_le_mul_right _ hlt)
  · exact Or.inr (Nat.mul_le_mul_right _ hgt)

/-- Only the place that is written to changes. -/
theorem pageAt_writeAt {bytes : Bytes} (hb : bytes.length = size.bytes)
    (hn : n * size.bytes ≤ (d.content q).length) (q' : Path) (k : Nat) :
    (d.writeAt q (n * size.bytes) bytes).pageAt size q' k =
      if q' = q ∧ k = n then bytes else d.pageAt size q' k := by
  rw [pageAt, pageAt, content_writeAt]
  by_cases hq : q' = q
  · subst hq
    rw [if_pos rfl]
    by_cases hk : k = n
    · subst hk
      have := Bytes.slice_overwrite (d.content q') (k * size.bytes) bytes
      rw [hb] at this
      rw [if_pos ⟨rfl, rfl⟩, this]
    · rw [if_neg fun h => hk h.2, Bytes.slice_overwrite_of_disjoint hn]
      rw [hb]
      exact places_disjoint hk size.bytes
  · rw [if_neg hq, if_neg fun h => hq h.1]

/-- A file is known if the bytes at all places are. -/
theorem content_eq_of_pageAt (h : ∀ n, d'.pageAt size q n = d.pageAt size q n) :
    d'.content q = d.content q := by
  refine List.ext_getElem? fun i => ?_
  have hi := congrArg (·[i % size.bytes]?) (h (i / size.bytes))
  have hlt := Nat.mod_lt i size.pos
  simpa only [pageAt, Bytes.getElem?_slice, if_pos hlt, Nat.div_add_mod'] using hi

/-! ## Growing -/

/-- Pages of zeros have been added to a file.  They stand after its last whole page; whatever was
there has been written over. -/
def Grown (size : PageSize) (q : Path) (d d' : Disk) : Prop :=
  ∃ j, d'.content q =
    (d.content q).take ((d.content q).length / size.bytes * size.bytes) ++
      Bytes.zeros ((j + 1) * size.bytes)

theorem Grown.pageAt_eq (h : Grown size q d d') (hn : n < (d.content q).length / size.bytes) :
    d'.pageAt size q n = d.pageAt size q n := by
  obtain ⟨j, hj⟩ := h
  have hle := Nat.div_mul_le_self (d.content q).length size.bytes
  have hend : n * size.bytes + size.bytes ≤ (d.content q).length / size.bytes * size.bytes := by
    rw [← Nat.succ_mul]
    exact Nat.mul_le_mul_right _ hn
  refine List.ext_getElem? fun i => ?_
  rw [pageAt, pageAt, Bytes.getElem?_slice, Bytes.getElem?_slice, hj]
  by_cases hi : i < size.bytes
  · rw [if_pos hi, if_pos hi, List.getElem?_append_left, List.getElem?_take, if_pos (by omega)]
    rw [List.length_take]
    omega
  · rw [if_neg hi, if_neg hi]

theorem content_appendPage_of_ne {f : TableFile} (h : q ≠ f.path) :
    (f.appendPage d size).2.content q = d.content q := by
  rw [TableFile.appendPage, content_writeAt, if_neg h]

theorem content_appendPage {f : TableFile} (h : f.HasRoom d size) :
    (f.appendPage d size).2.content f.path =
      (d.content f.path).take ((d.content f.path).length / size.bytes * size.bytes) ++
        Bytes.zeros size.bytes := by
  rw [TableFile.appendPage, content_writeAt, if_pos rfl, h.pageCount_eq]
  refine Bytes.overwrite_end (Nat.div_mul_le_self _ _) ?_
  rw [Page.zeroed, Bytes.length_zeros]
  exact Nat.le_of_lt (Nat.lt_div_mul_add size.pos)

theorem grown_appendPage {f : TableFile} (h : f.HasRoom d size) :
    Grown size f.path d (f.appendPage d size).2 :=
  ⟨0, by rw [content_appendPage h, Nat.zero_add, Nat.one_mul]⟩

/-- A file that has grown ends with a whole page, and may go on growing. -/
theorem Grown.append {f : TableFile} (h : Grown size f.path d d') (hroom : f.HasRoom d' size) :
    Grown size f.path d (f.appendPage d' size).2 := by
  obtain ⟨j, hj⟩ := h
  have hlen : (d'.content f.path).length =
      ((d.content f.path).length / size.bytes + (j + 1)) * size.bytes := by
    rw [hj, List.length_append, List.length_take_of_le (Nat.div_mul_le_self _ _),
      Bytes.length_zeros]
    exact (Nat.add_mul _ _ _).symm
  refine ⟨j + 1, ?_⟩
  rw [content_appendPage hroom, hlen, Nat.mul_div_cancel _ size.pos, ← hlen, List.take_length, hj,
    List.append_assoc, Bytes.zeros_append, ← Nat.succ_mul]

/-! ## Nothing is removed

To open a file is to find it, and its directories, in the file system.  Writing adds files and makes
them longer, so what could be opened can be opened again. -/

/-- A file system that has been written to: files may be new and longer, and none is gone. -/
structure Extended (d d' : Disk) : Prop where
  directories_eq : d'.directories = d.directories
  contains : ∀ p, d.files.contains p = true → d'.files.contains p = true
  length_le : ∀ p, (d.content p).length ≤ (d'.content p).length

theorem Extended.refl (d : Disk) : d.Extended d :=
  ⟨rfl, fun _ h => h, fun _ => Nat.le_refl _⟩

theorem Extended.trans {m : Disk} (h : d.Extended m) (h' : m.Extended d') : d.Extended d' where
  directories_eq := h'.directories_eq.trans h.directories_eq
  contains p hp := h'.contains p (h.contains p hp)
  length_le p := Nat.le_trans (h.length_le p) (h'.length_le p)

/-- A file is new, or its bytes are replaced by at least as many. -/
theorem extended_insert {bytes : Bytes} (h : (d.content q).length ≤ bytes.length) :
    d.Extended { d with files := d.files.insert q bytes } where
  directories_eq := rfl
  contains p hp := by
    rw [Assoc.contains, Assoc.get?_insert]
    split
    · rfl
    · exact hp
  length_le p := by
    rw [content, content, Assoc.get?_insert]
    split
    · rename_i hp
      subst hp
      exact h
    · exact Nat.le_refl _

theorem extended_writeAt (d : Disk) (q : Path) (start : Nat) (bytes : Bytes) :
    d.Extended (d.writeAt q start bytes) := by
  refine extended_insert ?_
  rw [Bytes.length_overwrite]
  exact Nat.le_max_left _ _

namespace Extended

theorem isDirectory_eq (h : d.Extended d') (p : Path) : d'.isDirectory p = d.isDirectory p := by
  rw [isDirectory, isDirectory, h.directories_eq]

theorem has (h : d.Extended d') {p : Path} (hp : d.has p = true) : d'.has p = true := by
  rw [Disk.has, Bool.or_eq_true] at hp ⊢
  exact hp.imp (fun hd => (h.isDirectory_eq p).trans hd) (h.contains p)

/-- What has been found is found again. -/
theorem walk (h : d.Extended d') {p : Path} {steps : List Step} (hw : d.walk p steps = .ok q) :
    d'.walk p steps = .ok q := by
  fun_induction Disk.walk d p steps with
  | case1 p => exact hw
  | case2 => cases hw
  | case3 p steps hd ih =>
    rw [Disk.walk, h.isDirectory_eq, if_neg hd]
    exact ih hw
  | case4 p steps hd ih =>
    rw [Disk.walk, h.isDirectory_eq, if_neg hd]
    exact ih hw
  | case5 => cases hw
  | case6 p steps hd name hlen hhas ih =>
    rw [Disk.walk, h.isDirectory_eq, if_neg hd, if_neg hlen, if_pos (h.has hhas)]
    exact ih hw
  | case7 => cases hw

theorem locate (h : d.Extended d') {b : Bytes} (hl : d.locate b = .ok q) :
    d'.locate b = .ok q := by
  rw [Disk.locate] at hl ⊢
  split at hl
  · cases hl
  · rename_i hb
    rw [if_neg hb]
    dsimp only at hl ⊢
    split at hl
    · cases hl
    · rename_i p hw
      rw [h.walk hw]
      dsimp only
      rw [h.isDirectory_eq]
      exact hl

/-- A file that could be opened can be opened again. -/
theorem openFile (h : d.Extended d') {b : Bytes} (ho : d.openFile b = .ok q) :
    d'.openFile b = .ok q := by
  rw [Disk.openFile, reach] at ho ⊢
  cases hc : checkPath b with
  | error e =>
    rw [hc] at ho
    cases ho
  | ok u =>
    rw [hc] at ho
    dsimp only at ho ⊢
    cases hl : d.locate b with
    | error e =>
      rw [hl] at ho
      cases ho
    | ok p =>
      rw [hl] at ho
      rw [h.locate hl]
      dsimp only at ho ⊢
      rw [h.isDirectory_eq]
      exact ho

end Extended

end Disk

theorem TableFile.openExisting_extended {d d' : Disk} (h : d.Extended d') {b : Bytes}
    {schema : Schema} {file : TableFile} (ho : openExisting d b schema = .ok file) :
    openExisting d' b schema = .ok file := by
  rw [openExisting] at ho ⊢
  split at ho
  · cases ho
  · rename_i path hp
    rw [h.openFile hp]
    exact ho

/-! ## Writing pages to their places

Pages of several tables are written in one loop.  It stops at a page that has no place, and then the
earlier pages have been written. -/

namespace Store

variable {s s' : Store} {p : PageId} {ps : List PageId}

/-- The place of a page, if its table is registered. -/
def place? (s : Store) (p : PageId) : Option (Path × Nat) :=
  match s.catalog.file p.table with
  | .error _ => none
  | .ok file => some (file.path, p.number)

theorem place?_of_file {file : TableFile} (h : s.catalog.file p.table = .ok file) :
    s.place? p = some (file.path, p.number) := by
  rw [place?, h]

/-- Two pages do not share a place. -/
theorem eq_of_place? (hi : s.catalog.Indexed) {p' : PageId} {place : Path × Nat}
    (h : s.place? p = some place) (h' : s.place? p' = some place) : p = p' := by
  rw [place?] at h h'
  split at h
  · cases h
  · rename_i file hf
    split at h'
    · cases h'
    · rename_i file' hf'
      cases h
      obtain ⟨hpath, hnum⟩ := Prod.mk.inj (Option.some.inj h')
      have htable : p.table = p'.table := by
        rw [← hi _ _ hf, ← hi _ _ hf', file.id_eq, file'.id_eq, hpath]
      obtain ⟨table, n⟩ := p
      obtain ⟨table', n'⟩ := p'
      exact congrArg₂ PageId.mk htable hnum.symm

/-- All pages in memory take as many bytes as the page size says. -/
def Sized (s : Store) : Prop :=
  ∀ p page, s.cache.pages.get? p = some page → page.size = s.pageSize.bytes

/-- The pages `ps` of the store `s` have been written to their places in the file system `d`, and
nothing else has been written. -/
structure Wrote (s : Store) (ps : List PageId) (d : Disk) : Prop where
  bytes : ∀ p ∈ ps, ∀ page, s.cache.pages.get? p = some page → page.dirtier ≠ none →
    ∃ file, s.catalog.file p.table = .ok file ∧ p.number < s.pageCount file ∧
      d.pageAt s.pageSize file.path p.number = page.encode
  other : ∀ q n, (∀ p ∈ ps, s.place? p ≠ some (q, n)) →
    d.pageAt s.pageSize q n = s.disk.pageAt s.pageSize q n
  length_eq : ∀ q, (d.content q).length = (s.disk.content q).length

theorem Wrote.nil (s : Store) : Wrote s [] s.disk where
  bytes _ h := by cases h
  other _ _ _ := rfl
  length_eq _ := rfl

/-- What writing one page does. -/
theorem flushPage_writeAt (hs : s.cache.Sound) (hz : s.Sized) (hf : s.flushPage p = .ok s') :
    s' = s ∧ (∀ page, s.cache.pages.get? p = some page → page.dirtier = none) ∨
    ∃ page file, s.cache.pages.get? p = some page ∧ s.catalog.file p.table = .ok file ∧
      p.number < s.pageCount file ∧ page.encode.length = s.pageSize.bytes ∧
      s' = s.settled p page
        (s.disk.writeAt file.path (p.number * s.pageSize.bytes) page.encode) := by
  rcases flushPage_cases hf with h | ⟨page, file, disk, hp, -, hfile, hw, rfl⟩
  · exact Or.inl h
  · have hid := hs.keyed p page hp
    rw [hid] at hfile
    rw [TableFile.writePage, hid] at hw
    split at hw
    · rename_i hhas
      cases hw
      exact Or.inr ⟨page, file, hp, hfile, (TableFile.hasPage_iff.1 hhas).2,
        (Page.length_encode page).trans (hz p page hp), rfl⟩
    · cases hw

theorem pageCount_of_length {d : Disk} (h : ∀ q, (d.content q).length = (s.disk.content q).length)
    (file : TableFile) : file.pageCount d s.pageSize = s.pageCount file := by
  rw [pageCount, TableFile.pageCount, TableFile.pageCount, TableFile.wholePages,
    TableFile.wholePages, h]

/-- One page is written before the others. -/
theorem Wrote.cons (hi : s.catalog.Indexed) (hs : s.cache.Sound) (hz : s.Sized)
    (hf : s.flushPage p = .ok s') (hp : p ∉ ps) {d : Disk} (h : Wrote s' ps d) :
    Wrote s (p :: ps) d := by
  have hcache : ∀ q ∈ ps, s'.cache.pages.get? q = s.cache.pages.get? q := fun q hq =>
    get?_flushPage hf fun he => hp (he ▸ hq)
  rcases flushPage_writeAt hs hz hf with ⟨rfl, hclean⟩ | ⟨page, file, hpage, hfile, hlt, hb, rfl⟩
  · refine ⟨fun q hq page hpage hd => ?_, fun q n hn => ?_, h.length_eq⟩
    · rcases List.mem_cons.1 hq with rfl | hq
      · exact absurd (hclean page hpage) hd
      · exact h.bytes q hq page hpage hd
    · exact h.other q n fun r hr => hn r (List.mem_cons_of_mem _ hr)
  · have hwhole : p.number < file.wholePages s.disk s.pageSize :=
      Nat.lt_of_lt_of_le hlt (file.pageCount_le_wholePages _ _)
    have hstart : p.number * s.pageSize.bytes ≤ (s.disk.content file.path).length :=
      (Nat.le_div_iff_mul_le s.pageSize.pos).1 (Nat.le_of_lt hwhole)
    have hat := Disk.pageAt_writeAt hb hstart
    have hplace := place?_of_file hfile
    have hlen := TableFile.length_writeAt hb hwhole
    refine ⟨fun q hq page' hpage' hd => ?_, fun q n hn => ?_, fun q => ?_⟩
    · rcases List.mem_cons.1 hq with rfl | hq
      · obtain rfl : page = page' := Option.some.inj (hpage.symm.trans hpage')
        -- no other page is written to this place
        refine ⟨file, hfile, hlt, (h.other file.path q.number fun r hr he => hp ?_).trans ?_⟩
        · exact eq_of_place? hi hplace he ▸ hr
        · exact (hat file.path q.number).trans (if_pos ⟨rfl, rfl⟩)
      · obtain ⟨g, hg, hn, hbytes⟩ := h.bytes q hq page' ((hcache q hq).trans hpage') hd
        exact ⟨g, hg, Nat.lt_of_lt_of_eq hn (pageCount_of_length hlen g), hbytes⟩
    · refine (h.other q n fun r hr => hn r (List.mem_cons_of_mem _ hr)).trans ?_
      refine (hat q n).trans (if_neg fun he => hn p List.mem_cons_self ?_)
      rw [hplace, he.1, he.2]
    · exact (h.length_eq q).trans (hlen q)

/-- A page cannot be written: its table is not registered, or the file has no such page. -/
def Unwritable (s : Store) (page : Page) (e : Error) : Prop :=
  s.catalog.file page.id.table = .error e ∨
  ∃ file, s.catalog.file page.id.table = .ok file ∧
    ¬ file.hasPage s.disk s.pageSize page.id = true ∧ e = .pageNotFound page.id

theorem flushPage_eq_error_iff {e : Error} : s.flushPage p = .error e ↔
    ∃ page, s.cache.pages.get? p = some page ∧ page.dirtier ≠ none ∧ s.Unwritable page e := by
  rw [flushPage]
  cases hp : s.cache.pages.get? p with
  | none => simp
  | some page =>
    simp only [Option.some.injEq, exists_eq_left']
    cases hd : page.dirtier with
    | none => simp [Page.isDirty, hd]
    | some u =>
      have hdirty : (!page.isDirty) = false := by simp [Page.isDirty, hd]
      rw [hdirty, if_neg Bool.false_ne_true, writePage, Unwritable]
      cases hf : s.catalog.file page.id.table with
      | error e' => simp
      | ok file =>
        dsimp only
        rw [TableFile.writePage]
        by_cases hh : file.hasPage s.disk s.pageSize page.id = true
        · rw [if_pos hh]
          simp [hh]
        · rw [if_neg hh]
          constructor
          · intro he
            cases he
            exact ⟨Option.some_ne_none u, Or.inr ⟨file, rfl, hh, rfl⟩⟩
          · rintro ⟨-, he | ⟨g, -, -, rfl⟩⟩
            · cases he
            · rfl

/-- Writing other pages does not make a page writable. -/
theorem Wrote.flushPage_error (h : Wrote s ps s'.disk) {e : Error}
    (he : s'.flushPage p = .error e) (hcache : s'.cache.pages.get? p = s.cache.pages.get? p)
    (hcat : s'.catalog = s.catalog) (hsize : s'.pageSize = s.pageSize) :
    s.flushPage p = .error e := by
  obtain ⟨page, hp, hd, hw⟩ := flushPage_eq_error_iff.1 he
  refine flushPage_eq_error_iff.2 ⟨page, hcache.symm.trans hp, hd, ?_⟩
  rw [Unwritable, hcat] at hw
  refine hw.imp_right ?_
  rintro ⟨file, hf, hn, he⟩
  refine ⟨file, hf, fun hh => hn ?_, he⟩
  rw [TableFile.hasPage_iff] at hh ⊢
  rw [hsize, pageCount_of_length h.length_eq]
  exact hh

/-- A page that has been written leaves the rest of the store alone. -/
theorem flushPage_rest (hf : s.flushPage p = .ok s') :
    s'.catalog = s.catalog ∧ s'.pageSize = s.pageSize := by
  rcases flushPage_cases hf with ⟨rfl, -⟩ | ⟨page, file, disk, -, -, -, -, rfl⟩
  · exact ⟨rfl, rfl⟩
  · exact ⟨rfl, rfl⟩

theorem Sized.flushPage (h : s.Sized) (hf : s.flushPage p = .ok s') : s'.Sized := by
  rcases flushPage_cases hf with ⟨rfl, -⟩ | ⟨page, file, disk, hp, -, -, -, rfl⟩
  · exact h
  · intro q page' hq
    rw [settled, Assoc.get?_insert] at hq
    split at hq
    · cases hq
      exact h p page hp
    · exact h q page' hq

/-- **Pages are written one after the other until one cannot be written.**  Those before it are in
their places then, and nothing else has changed. -/
theorem flushPages_wrote (hi : s.catalog.Indexed) (hs : s.cache.Sound) (hz : s.Sized)
    (hps : ps.Nodup) :
    ∃ written rest, ps = written ++ rest ∧ s.Wrote written (s.flushPages ps).2.disk ∧
      (rest = [] ∧ (s.flushPages ps).1 = .ok () ∨
        ∃ p tail e, rest = p :: tail ∧ s.flushPage p = .error e ∧
          (s.flushPages ps).1 = .error e) := by
  induction ps generalizing s with
  | nil => exact ⟨[], [], rfl, .nil s, Or.inl ⟨rfl, rfl⟩⟩
  | cons p ps ih =>
    obtain ⟨hp, hps⟩ := List.nodup_cons.1 hps
    rw [flushPages]
    cases hf : s.flushPage p with
    | error e => exact ⟨[], p :: ps, rfl, .nil s, Or.inr ⟨p, ps, e, rfl, hf, rfl⟩⟩
    | ok m =>
      obtain ⟨hcat, hsize⟩ := flushPage_rest hf
      have hsound : m.cache.Sound := by
        rcases flushPage_cases hf with ⟨rfl, -⟩ | ⟨page, file, disk, hpage, -, -, -, rfl⟩
        · exact hs
        · exact hs.settle (hs.keyed p page hpage)
      obtain ⟨written, rest, rfl, hw, hend⟩ := ih (hcat ▸ hi) hsound (hz.flushPage hf) hps
      have hpw : p ∉ written := fun hm => hp (List.mem_append_left _ hm)
      refine ⟨p :: written, rest, rfl, hw.cons hi hs hz hf hpw, hend.imp_right ?_⟩
      rintro ⟨q, tail, e, rfl, he, hr⟩
      have hq : q ≠ p := fun hq => hp (List.mem_append_right _ (hq ▸ List.mem_cons_self))
      have hone := (Wrote.nil m).cons hi hs hz hf List.not_mem_nil
      exact ⟨q, tail, e, rfl, hone.flushPage_error he (get?_flushPage hf hq) hcat hsize, hr⟩

end Store
end TableStore

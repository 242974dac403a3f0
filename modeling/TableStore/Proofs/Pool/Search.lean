import TableStore.Proofs.Pool.Own
import TableStore.Proofs.Pool.Visit

/-!
# The search for a free slot

An insert visits the pages of a file in the order of their numbers, and goes on from those that are
full.  A lock that it had to take for that is given back.  When all pages have been visited an empty
one is appended; it has a free slot, so that is the last page that is visited.

Where nobody else runs, each visit comes to its end, but it may drop the changes of others.  What
the transaction itself sees of the file stays the same until it has found its slot.

## What is here

* `Store.view?` — what a transaction sees at a place, and `Store.Filled` — a page that it sees full.
* `Store.Sought` — a search on its way; `Store.Passed`, `Store.Nearing` and `Store.Arrived` are the
  stages of a visit: before the page is asked for, while it is asked for, and when it has been
  loaded.
* `Store.Landed` — the end of a search.
* `Store.Nearing.visit` — one visit: the search ends, or it goes on to the next page.
* `Store.Nearing.finish`, `Store.NobodyWaits.perform_insert` — all of them, in as many looks as a
  call has.
-/

set_option autoImplicit false
namespace TableStore
namespace Store

variable {s m w : Store} {t : TxnId} {file : TableFile} {table : TableId} {row : Row} {n : Nat}
  {page : Page} {reply : Reply} {s' : Store}

/-! ## What a transaction sees -/

/-- The row that `t` sees at a place, as it would be stored: the one in its own copy of the page, or
else the one in the file. -/
def view? (s : Store) (t : TxnId) (r : RecordId) : Option Row :=
  match s.own? t r.page with
  | some page => (page.row? r.slot).map Row.stored
  | none => s.stored? r

/-- The number of slots on each page of a file. -/
def slotsOf (s : Store) (file : TableFile) : Nat :=
  Page.slotCount s.pageSize.bytes file.schema.rowSize

/-- There is no free slot on a page, as `t` sees it. -/
def Filled (s : Store) (t : TxnId) (file : TableFile) (n : Nat) : Prop :=
  ∀ i, i < s.slotsOf file → s.view? t ⟨file.page n, i⟩ ≠ none

theorem view?_of_own {r : RecordId} (h : s.own? t r.page = some page) :
    s.view? t r = (page.row? r.slot).map Row.stored := by
  rw [view?, h]

theorem view?_of_none {r : RecordId} (h : s.own? t r.page = none) : s.view? t r = s.stored? r := by
  rw [view?, h]

/-- Who has a lock on a page sees what is in memory. -/
theorem MatchesFiles.view?_eq (h : s.MatchesFiles) {p : PageId}
    (hp : s.cache.pages.get? p = some page) (hl : s.locks.heldMode? t p ≠ none) (i : Nat) :
    s.view? t ⟨p, i⟩ = (page.row? i).map Row.stored := by
  cases hd : page.dirtier with
  | none =>
    have hown : s.own? t p = none := by
      rw [own?, hp, Option.filter_some, hd]
      rfl
    rw [view?_of_none hown]
    exact (h.agrees p page hp hd i).symm
  | some u =>
    obtain ⟨mode, hmode⟩ := Option.ne_none_iff_exists'.1 hl
    obtain rfl := h.changesLocked.eq_of_owned hp hd hmode
    exact view?_of_own (own?_eq_some_iff.2 ⟨hp, hd⟩)

/-! ## On the way

A search asks for one page after the other.  It is described by three states, between two pages,
before a request and after it, and each of them tells what has been found on the pages before. -/

/-- The locks of `t` are those of `s`, some of them stronger. -/
def Upgraded (t : TxnId) (s m : Store) (q : PageId) : Prop :=
  m.locks.heldMode? t q = s.locks.heldMode? t q ∨
    s.locks.heldMode? t q ≠ none ∧ m.locks.heldMode? t q = some .exclusive

/-- Page `n` is there in `m`: it was there in `s` and the files are the same, or it is the one page
that has been appended since, for which there was room. -/
def Available (s : Store) (file : TableFile) (n : Nat) (m : Store) : Prop :=
  m.disk = s.disk ∧ n < s.pageCount file ∨
    n = s.pageCount file ∧ file.HasRoom s.disk s.pageSize ∧
      m.disk = (file.appendPage s.disk s.pageSize).2

/-- A search of `t` for a free slot in a file was begun in `s`, and has left the pages before page
`n` behind it.  The store is `m` now. -/
structure Sought (s : Store) (t : TxnId) (file : TableFile) (n : Nat) (m : Store) : Prop where
  changes : Changes t (· = file) s m
  active : t ∉ m.locks.aborted
  matchesFiles : s.MatchesFiles → m.MatchesFiles
  filled : s.MatchesFiles → ∀ k, k < n → s.Filled t file k

/-- Page `n` has not been asked for yet, and may have to be appended. -/
structure Passed (s : Store) (t : TxnId) (file : TableFile) (n : Nat) (m : Store) : Prop
    extends Sought s t file n m where
  disk_eq : m.disk = s.disk
  le : n ≤ s.pageCount file
  locks : ∀ q, Upgraded t s m q
  absent : file.HasRoom s.disk s.pageSize →
    m.cache.pages.get? (file.page (s.pageCount file)) = none

/-- Page `n` is asked for. -/
structure Nearing (s : Store) (t : TxnId) (file : TableFile) (n : Nat) (m : Store) : Prop
    extends Sought s t file n m where
  available : Available s file n m
  locks : ∀ q, Upgraded t s m q
  absent : file.HasRoom s.disk s.pageSize →
    m.cache.pages.get? (file.page (s.pageCount file)) = none

/-- Page `n` has been locked, and loaded if that was possible. -/
structure Arrived (s : Store) (t : TxnId) (file : TableFile) (n : Nat) (m : Store) : Prop
    extends Sought s t file n m where
  available : Available s file n m
  locked : m.locks.heldMode? t (file.page n) = some .exclusive
  others : ∀ q, q ≠ file.page n → Upgraded t s m q

/-- The end of a search: it is given up, or the row is put into the page that it has come to. -/
inductive Landed (s : Store) (t : TxnId) (file : TableFile) (row : Row) : Reply → Store → Prop where
  | refused {n : Nat} {m : Store} (e : Error) (h : Arrived s t file n m) :
      Landed s t file row { result := .error e } m
  | placed {n : Nat} {m : Store} {page copy : Page} {placed : Row} (h : Arrived s t file n m)
      (hp : m.cache.pages.get? (file.page n) = some page)
      (he : page.insert row = .ok (copy, placed)) :
      Landed s t file row ⟨.ok { copy with dirtier := some t }, some placed⟩ (m.edited t copy)

/-- The search of an insert that is about to ask for page `n`. -/
def tries (s : Store) (t : TxnId) (file : TableFile) (row : Row) (n : Nat) : Pending :=
  { request := ⟨t, file.page n, .exclusive⟩
    goal := .place
      { file, row, next := n + 1, count := s.pageCount file
        held := s.holds t (file.page n), keep := true } }

/-! ### Files -/

theorem Available.sameFiles (h : Available s file n m) (hc : m.catalog = s.catalog)
    (hz : m.pageSize = s.pageSize) : SameFiles s m ∧ n < s.pageCount file ∨
      n = s.pageCount file ∧ file.HasRoom s.disk s.pageSize ∧
        SameFiles { s with disk := (file.appendPage s.disk s.pageSize).2 } m := by
  rcases h with ⟨hd, hlt⟩ | ⟨hn, hroom, hd⟩
  · exact Or.inl ⟨⟨hd, hc, hz⟩, hlt⟩
  · exact Or.inr ⟨hn, hroom, hd, hc, hz⟩

theorem Available.congr (h : Available s file n m) (hd : w.disk = m.disk) :
    Available s file n w := by
  rw [Available, hd]
  exact h

/-- Nothing that `t` sees changes on the way. -/
theorem Arrived.view?_eq (h : Arrived s t file n m) (hquiet : s.NobodyWaits)
    (hi : s.catalog.Indexed)
    (hf : s.catalog.file file.id = .ok file) (r : RecordId) : m.view? t r = s.view? t r := by
  have ho := h.changes.onward hquiet
  have hstored : m.stored? r = s.stored? r := by
    rcases h.available.sameFiles ho.catalog_eq ho.pageSize_eq with ⟨hs, -⟩ | ⟨-, hroom, hs⟩
    · exact hs.stored?_eq r
    · exact (hs.stored?_eq r).trans (stored?_append hi hf hroom r)
  rw [view?, view?, h.changes.own?_eq hquiet, hstored]

/-- The page that has been loaded holds what `t` sees. -/
theorem Arrived.row?_eq (h : Arrived s t file n m) (hquiet : s.NobodyWaits) (ht : s.MatchesFiles)
    (hf : s.catalog.file file.id = .ok file)
    (hp : m.cache.pages.get? (file.page n) = some page) (i : Nat) :
    (page.row? i).map Row.stored = s.view? t ⟨file.page n, i⟩ := by
  have hl : m.locks.heldMode? t (file.page n) ≠ none := by simp [h.locked]
  exact ((h.matchesFiles ht).view?_eq hp hl i).symm.trans (h.view?_eq hquiet ht.indexed hf _)

/-- It is made for the file. -/
theorem Arrived.formed (h : Arrived s t file n m) (hquiet : s.NobodyWaits) (ht : s.MatchesFiles)
    (hf : s.catalog.file file.id = .ok file)
    (hp : m.cache.pages.get? (file.page n) = some page) : page.Formed s.pageSize file.schema := by
  have ho := h.changes.onward hquiet
  obtain ⟨g, hg⟩ := (h.matchesFiles ht).homes _ page hp
  have hgf : g = file := by
    have hfile := hg.file_eq
    rw [ho.catalog_eq] at hfile
    exact Except.ok.inj (hfile.symm.trans hf)
  exact hgf ▸ ho.pageSize_eq ▸ hg.formed

/-- A page that has just been appended can be read, and holds no row. -/
theorem readPage_appended (hi : s.catalog.Indexed) (hf : s.catalog.file file.id = .ok file)
    (hroom : file.HasRoom s.disk s.pageSize) :
    ∃ page, { s with disk := (file.appendPage s.disk s.pageSize).2 }.readPage
        (file.page (s.pageCount file)) = .ok page ∧
      page.Formed s.pageSize file.schema ∧ ∀ i, page.row? i = none := by
  obtain ⟨page, hdecode, hnone⟩ :=
    Page.decode_zeroed s.pageSize (file.page (s.pageCount file)) file.schema
  have hread := (readPage_patched hi hf (Bytes.length_zeros s.pageSize.bytes) hroom.takes
    (file.page (s.pageCount file))).trans (if_pos rfl)
  exact ⟨page, hread.trans hdecode, (Page.formed_of_decode hdecode).1, hnone⟩

/-- So there are free slots on it. -/
theorem free_of_appended (hi : s.catalog.Indexed) (hf : s.catalog.file file.id = .ok file)
    (hroom : file.HasRoom s.disk s.pageSize) (hslots : 0 < s.slotsOf file)
    (hm : SameFiles { s with disk := (file.appendPage s.disk s.pageSize).2 } m)
    (hr : m.readPage (file.page (s.pageCount file)) = .ok page) : page.freeSlots ≠ [] := by
  obtain ⟨page', hread, hformed, hnone⟩ := readPage_appended hi hf hroom
  obtain rfl : page' = page := by
    rw [hm.readPage_eq] at hr
    exact Except.ok.inj (hread.symm.trans hr)
  intro hfull
  exact hformed.freeSlots_eq_nil_iff.1 hfull 0 (hformed.length_slots.symm ▸ hslots) (hnone 0)

/-! ### From page to page

A page that is passed was full in the eyes of its transaction, and stays so: its lock is given back
only if the transaction has no copy of it, and its file is not written to on the way. -/

/-- The next page is asked for, and appended first if all have been visited.  Without room for it
the search never comes to an end. -/
theorem Passed.seek (h : Passed s t file n m) (hquiet : s.NobodyWaits)
    (hf : s.catalog.file file.id = .ok file) (row : Row) (held : Bool) :
    (∃ m', m.seek t ⟨file, row, n, s.pageCount file, held, true⟩ =
        (.asking (m'.tries t file row n), m') ∧ Nearing s t file n m') ∨
      ¬ file.HasRoom s.disk s.pageSize ∧
        (m.seek t ⟨file, row, n, s.pageCount file, held, true⟩).1 = .endless := by
  have ho := h.changes.onward hquiet
  have hcount : m.pageCount file = s.pageCount file := by
    rw [Store.pageCount, Store.pageCount, h.disk_eq, ho.pageSize_eq]
  have hroom : file.HasRoom m.disk m.pageSize ↔ file.HasRoom s.disk s.pageSize := by
    rw [h.disk_eq, ho.pageSize_eq]
  rcases m.seek_cases t ⟨file, row, n, s.pageCount file, held, true⟩ with
    ⟨hlt, he⟩ | ⟨hge, ⟨hlt, he⟩ | ⟨hle, he⟩⟩
  · refine Or.inl ⟨m, ?_, h.toSought, Or.inl ⟨h.disk_eq, hlt⟩, h.locks, h.absent⟩
    rw [he, tryNext, tries, hcount]
  · have hm : file.HasRoom m.disk m.pageSize := by
      refine TableFile.hasRoom_of_growUpTo (fun _ => ?_) hlt
      exact Nat.le_trans (Nat.le_of_eq hcount) hge
    have hgrow := (hm.growPast (Nat.le_trans h.le (Nat.le_of_eq hcount.symm))).1
    have hgrown : m.grown file n = { m with disk := (file.appendPage m.disk m.pageSize).2 } :=
      congrArg (fun disk => { m with disk }) hgrow
    rw [he, hgrown]
    refine Or.inl ⟨_, rfl, ⟨h.changes.tail (.append rfl hm), h.active, fun ht => ?_, h.filled⟩,
      Or.inr ⟨Nat.le_antisymm h.le hge, hroom.1 hm, ?_⟩, h.locks, h.absent⟩
    · exact (h.matchesFiles ht).append (ho.catalog_eq ▸ hf) hm
    · show (file.appendPage m.disk m.pageSize).2 = (file.appendPage s.disk s.pageSize).2
      rw [h.disk_eq, ho.pageSize_eq]
  · refine Or.inr ⟨fun hs => ?_, by rw [he]⟩
    have hend := ((hroom.2 hs).growPast (Nat.le_trans h.le (Nat.le_of_eq hcount.symm))).2
    exact Nat.not_lt.2 hle hend

theorem Nearing.arrived (h : Nearing s t file n m) {result : Except Error Page}
    (hv : Visited m ⟨t, file.page n, .exclusive⟩ result w) : Arrived s t file n w where
  changes := h.changes.trans (hv.changes _)
  active := hv.active
  matchesFiles ht := hv.matchesFiles (h.matchesFiles ht)
  filled := h.filled
  available := h.available.congr hv.files.disk_eq
  locked := by
    have hadded := hv.added (file.page n)
    rw [if_pos rfl, ite_self] at hadded
    exact hadded
  others q hq := by
    have hadded := hv.added q
    rw [if_neg hq] at hadded
    rw [Upgraded, hadded]
    exact h.locks q

/-- A page that has been loaded without free slots is one more full page. -/
theorem Arrived.filled_succ (h : Arrived s t file n w) (hquiet : s.NobodyWaits)
    (hf : s.catalog.file file.id = .ok file) (hp : w.cache.pages.get? (file.page n) = some page)
    (hfull : page.freeSlots = []) (ht : s.MatchesFiles) : ∀ k, k < n + 1 → s.Filled t file k := by
  intro k hk
  rcases Nat.lt_succ_iff_lt_or_eq.1 hk with hk | rfl
  · exact h.filled ht k hk
  · intro i hi
    have hformed := h.formed hquiet ht hf hp
    have hrow := hformed.freeSlots_eq_nil_iff.1 hfull i (hformed.length_slots.symm ▸ hi)
    rw [← h.row?_eq hquiet ht hf hp i]
    simpa using hrow

/-- A lock that was held before the visit is an upgrade of the one in the beginning. -/
theorem Arrived.upgraded (h : Arrived s t file n w) (hnear : Nearing s t file n m)
    (hold : m.holds t (file.page n) = true) (q : PageId) : Upgraded t s w q := by
  by_cases hq : q = file.page n
  · refine hq ▸ Or.inr ⟨fun hnone => ?_, h.locked⟩
    have hm : m.locks.heldMode? t (file.page n) ≠ none := Option.isSome_iff_ne_none.1 hold
    rcases hnear.locks (file.page n) with he | ⟨hn, -⟩
    · exact hm (he.trans hnone)
    · exact hn hnone
  · exact h.others q hq

/-- A full page is passed.  Its lock is given back unless it was held before. -/
theorem Arrived.skip (h : Arrived s t file n w) (hnear : Nearing s t file n m)
    (hquiet : s.NobodyWaits) (hf : s.catalog.file file.id = .ok file) (hlt : n < s.pageCount file)
    (habsent : file.HasRoom s.disk s.pageSize →
      w.cache.pages.get? (file.page (s.pageCount file)) = none)
    (hmw : Changes t (· = file) m w) (hp : w.cache.pages.get? (file.page n) = some page)
    (hfull : page.freeSlots = []) (search : SlotSearch)
    (hheld : search.held = m.holds t (file.page n)) :
    ∃ m', w.skipFull t (file.page n) search = m'.seek t search ∧ Passed s t file (n + 1) m' := by
  have hfilled := h.filled_succ hquiet hf hp hfull
  have hdisk : w.disk = s.disk := by
    rcases h.available with ⟨hd, -⟩ | ⟨hn, -⟩
    · exact hd
    · omega
  rw [skipFull, hheld]
  by_cases hold : m.holds t (file.page n) = true
  · exact ⟨w, if_pos hold, ⟨h.changes, h.active, h.matchesFiles, hfilled⟩, hdisk, hlt,
      h.upgraded hnear hold, habsent⟩
  · have hm : m.locks.heldMode? t (file.page n) = none := by
      simpa [Store.holds, LockTable.holds] using hold
    have hs : s.locks.heldMode? t (file.page n) = none := by
      rcases hnear.locks (file.page n) with he | ⟨-, hx⟩
      · exact he.symm.trans hm
      · rw [hm] at hx
        cases hx
    have hquietw := h.changes.nobodyWaits hquiet
    have hholds : w.locks.holds t (file.page n) = true := by
      simp [LockTable.holds, h.locked]
    obtain ⟨lock, hlock⟩ := hquietw.locks.consistent.get?_of_holds hholds
    rw [if_neg hold, releasePage]
    cases hr : w.locks.release t (file.page n) with
    | error e =>
      rw [LockTable.release, Assoc.contains, hlock, Option.isSome_some, if_pos rfl] at hr
      cases hr
    | ok l =>
      refine ⟨{ w with locks := l }, rfl, ⟨h.changes.tail (.giveBack hr), ?_, fun ht => ?_,
        hfilled⟩, hdisk, hlt, fun q => ?_, habsent⟩
      · exact (LockTable.aborted_release hr).symm ▸ h.active
      · refine (h.matchesFiles ht).relock
          ((h.matchesFiles ht).changesLocked.giveBack h.active ?_ hr)
        intro page' hp' hd
        -- a page with changes of `t` would have been locked before
        have hpm := hmw.dirty_of (hnear.changes.nobodyWaits hquiet) (by simp [hd]) hp'
        have hx := (hnear.matchesFiles ht).changesLocked.owned t _ page' hpm hd
        rw [hm] at hx
        cases hx
      · rw [Upgraded]
        show LockTable.heldMode? l t q = _ ∨ _ ∧ LockTable.heldMode? l t q = _
        rw [LockTable.heldMode?_release hr]
        by_cases hq : q = file.page n
        · rw [if_pos ⟨rfl, hq⟩, hq, hs]
          exact Or.inl rfl
        · rw [if_neg fun he => hq he.2]
          exact h.others q hq

/-! ### A visit -/

/-- What has been loaded decides about the end of the search. -/
theorem Arrived.landed (h : Arrived s t file n w)
    (hp : w.cache.pages.get? (file.page n) = some page) (hquiet : s.NobodyWaits) (row : Row) :
    ∃ reply s', w.finishEdit t true (page.insert row) = (.done reply, s') ∧
      Landed s t file row reply s' := by
  cases he : page.insert row with
  | error e => exact ⟨_, w, rfl, .refused e h⟩
  | ok result =>
    obtain ⟨copy, placed⟩ := result
    have hid : copy.id = file.page n :=
      (Page.insert_id he).trans ((h.changes.nobodyWaits hquiet).sound.keyed _ page hp)
    exact ⟨_, _, finishEdit_of_cached placed h.active (hid ▸ hp), .placed h hp he⟩

/-- A search is given up if its page cannot be loaded. -/
theorem resume_tries_error {e : Error} (hload : w.load t (file.page n) = (.error e, s')) :
    w.resume (m.tries t file row n) = (.refuse e, s') := by
  simp only [Store.resume, tries, hload]

theorem resume_tries (hload : w.load t (file.page n) = (.ok page, s')) :
    w.resume (m.tries t file row n) =
      if page.freeSlots = [] then
        s'.skipFull t (file.page n)
          ⟨file, row, n + 1, m.pageCount file, m.holds t (file.page n), true⟩
      else s'.finishEdit t true (page.insert row) := by
  simp only [Store.resume, tries, hload]

/-- **One visit**: the search ends, or it goes on to the next page, or never comes to an end.  It
ends in any case with a page that has been appended. -/
theorem Nearing.visit (h : Nearing s t file n m) (hquiet : s.NobodyWaits) (hi : s.catalog.Indexed)
    (hf : s.catalog.file file.id = .ok file) (hslots : 0 < s.slotsOf file) (row : Row) :
    ∃ k, k ≤ 3 ∧
      ((∃ reply s', Landed s t file row reply s' ∧
          ∀ i, finish (i + k) (.asking (m.tries t file row n), m) = some (reply, s')) ∨
        (n < s.pageCount file ∧ ∃ m', Nearing s t file (n + 1) m' ∧
          ∀ i, finish (i + k) (.asking (m.tries t file row n), m) =
            finish i (.asking (m'.tries t file row (n + 1)), m')) ∨
        ¬ file.HasRoom s.disk s.pageSize ∧
          ∀ i, finish (i + k) (.asking (m.tries t file row n), m) = none) := by
  have ho := h.changes.onward hquiet
  have hquiet' := h.changes.nobodyWaits hquiet
  obtain ⟨k, w, -, hk, hfin, hw⟩ := hquiet'.seize (m.tries t file row n) h.active
  refine ⟨k, hk, ?_⟩
  have hdone : ∀ {reply : Reply} {s' : Store},
      w.resume (m.tries t file row n) = (.done reply, s') →
      ∀ i, finish (i + k) (.asking (m.tries t file row n), m) = some (reply, s') := by
    intro reply s' hr i
    rw [hfin, hr, Store.finish]
  cases hload : w.load t (file.page n) with
  | mk result w' =>
    have hv := hw.visited hquiet' hload
    have har := h.arrived hv
    cases result with
    | error e => exact Or.inl ⟨_, w', .refused e har, hdone (resume_tries_error hload)⟩
    | ok page =>
      have hp := hv.cached page rfl
      have hresume : w.resume (m.tries t file row n) = _ := resume_tries hload
      by_cases hfull : page.freeSlots = []
      · rw [if_pos hfull] at hresume
        rcases h.available.sameFiles ho.catalog_eq ho.pageSize_eq with
          ⟨hs, hlt⟩ | ⟨hn, hroom, hs⟩
        · have hne : file.page (s.pageCount file) ≠ file.page n := fun he =>
            Nat.ne_of_gt hlt (congrArg PageId.number he)
          obtain ⟨m₁, hskip, hpassed⟩ := har.skip h hquiet hf hlt
            (fun hroom => hv.missing _ hne (h.absent hroom)) (hv.changes _) hp hfull
            ⟨file, row, n + 1, s.pageCount file, m.holds t (file.page n), true⟩ rfl
          rw [hs.pageCount_eq, hskip] at hresume
          rcases hpassed.seek hquiet hf row (m.holds t (file.page n)) with
            ⟨m', hseek, hnear⟩ | ⟨hfull, hend⟩
          · refine Or.inr (Or.inl ⟨hlt, m', hnear, fun i => ?_⟩)
            rw [hfin, hresume, hseek]
          · refine Or.inr (Or.inr ⟨hfull, fun i => ?_⟩)
            rw [hfin, hresume, finish_of_endless hend]
        · rw [hn] at hv
          exact absurd hfull
            (free_of_appended hi hf hroom hslots hs (hv.read (h.absent hroom) page rfl))
      · rw [if_neg hfull] at hresume
        obtain ⟨reply, s', he, hl⟩ := har.landed hp hquiet row
        exact Or.inl ⟨reply, s', hl, hdone (hresume.trans he)⟩

/-- **A search ends**, after no more visits than there are pages, and one more, or it never does.
The induction is on the pages that are left. -/
theorem Nearing.finish (h : Nearing s t file n m) (hquiet : s.NobodyWaits) (hi : s.catalog.Indexed)
    (hf : s.catalog.file file.id = .ok file) (hslots : 0 < s.slotsOf file) (row : Row) (left : Nat)
    (hleft : s.pageCount file ≤ n + left) :
    ∃ k, k ≤ 3 * (left + 1) ∧
      ((∃ reply s', Landed s t file row reply s' ∧
          ∀ i, Store.finish (i + k) (.asking (m.tries t file row n), m) = some (reply, s')) ∨
        ¬ file.HasRoom s.disk s.pageSize ∧
          ∀ i, Store.finish (i + k) (.asking (m.tries t file row n), m) = none) := by
  induction left generalizing n m with
  | zero =>
    obtain ⟨k, hk, hl | ⟨hlt, -⟩ | hend⟩ := h.visit hquiet hi hf hslots row
    · exact ⟨k, by omega, Or.inl hl⟩
    · omega
    · exact ⟨k, by omega, Or.inr hend⟩
  | succ left ih =>
    obtain ⟨k, hk, hl | ⟨hlt, m', hnear, hfin⟩ | hend⟩ := h.visit hquiet hi hf hslots row
    · exact ⟨k, by omega, Or.inl hl⟩
    · obtain ⟨k', hk', hrest⟩ := ih hnear (by omega)
      have hsame : ∀ i, Store.finish (i + (k' + k)) (.asking (m.tries t file row n), m) =
          Store.finish (i + k') (.asking (m'.tries t file row (n + 1)), m') := fun i => by
        rw [← Nat.add_assoc, hfin]
      simp only [← hsame] at hrest
      exact ⟨k' + k, by omega, hrest⟩
    · exact ⟨k, by omega, Or.inr hend⟩

/-! ## The whole call -/

/-- A call has enough looks to visit all pages of a file, and one more. -/
theorem pageCount_le_turns (s : Store) (file : TableFile) :
    3 * (s.pageCount file + 2) ≤ s.turns := by
  have hfold : ∀ (bs : List Bytes) (k : Nat),
      k ≤ bs.foldl (fun n b => n + b.length / s.pageSize.bytes) k ∧
        ∀ b ∈ bs, b.length / s.pageSize.bytes ≤
          bs.foldl (fun n b => n + b.length / s.pageSize.bytes) k := by
    intro bs
    induction bs with
    | nil => exact fun k => ⟨Nat.le_refl k, fun b hb => by cases hb⟩
    | cons c bs ih =>
      intro k
      obtain ⟨hle, hall⟩ := ih (k + c.length / s.pageSize.bytes)
      rw [List.foldl_cons]
      refine ⟨Nat.le_trans (Nat.le_add_right _ _) hle, fun b hb => ?_⟩
      rcases List.mem_cons.1 hb with rfl | hb
      · exact Nat.le_trans (Nat.le_add_left _ _) hle
      · exact hall b hb
  have hcount : s.pageCount file ≤
      s.disk.files.values.foldl (fun n b => n + b.length / s.pageSize.bytes) 0 := by
    refine Nat.le_trans (file.pageCount_le_wholePages _ _) ?_
    rw [TableFile.wholePages, Disk.content]
    cases hb : s.disk.files.get? file.path with
    | none => simp
    | some b => exact (hfold _ 0).2 b (Assoc.mem_values.2 ⟨file.path, hb⟩)
  rw [turns]
  omega

/-- How an insert ends: it is refused before it has done anything, or its search ends. -/
inductive Inserted (s : Store) (t : TxnId) (table : TableId) (row : Row) :
    Reply → Store → Prop where
  | refused (e : Error) : Inserted s t table row { result := .error e } s
  | searched {file : TableFile} {reply : Reply} {s' : Store}
      (hf : s.catalog.file table = .ok file) (ht : row.types = file.schema.types)
      (h : Landed s t file row reply s') : Inserted s t table row reply s'

/-- **An insert ends**, where nobody else runs and the pages of its table have slots, or it is never
answered, since its file has no room. -/
theorem NobodyWaits.perform_insert (h : s.NobodyWaits) (hi : s.catalog.Indexed)
    (hslots : ∀ file, s.catalog.file table = .ok file → 0 < s.slotsOf file)
    (habsent : ∀ file, s.catalog.file table = .ok file → file.HasRoom s.disk s.pageSize →
      s.cache.pages.get? (file.page (s.pageCount file)) = none) (t : TxnId) (row : Row) :
    (∃ reply s', s.perform t (.insert table row) = some (reply, s') ∧
      Inserted s t table row reply s') ∨
    ∃ file, s.catalog.file table = .ok file ∧ ¬ file.HasRoom s.disk s.pageSize ∧
      ∀ n, finish n (s.start t (.insert table row)) = none := by
  by_cases ha : t ∈ s.locks.aborted
  · have hstart : s.start t (.insert table row) = (.refuse (.aborted t), s) := by
      rw [start, if_pos (by simpa [LockTable.isAborted] using ha)]
    exact Or.inl ⟨_, s, perform_of_refused hstart, .refused _⟩
  · have hactive : ¬ s.locks.isAborted t = true := by simpa [LockTable.isAborted] using ha
    cases hf : s.catalog.file table with
    | error e =>
      have hstart : s.start t (.insert table row) = (.refuse e, s) := by
        rw [start, if_neg hactive, hf]
      exact Or.inl ⟨_, s, perform_of_refused hstart, .refused e⟩
    | ok file =>
      have hstart : s.start t (.insert table row) = s.startInsert t file row true := by
        rw [start, if_neg hactive, hf]
      by_cases htypes : row.types = file.schema.types
      · have hid : s.catalog.file file.id = .ok file := (hi _ _ hf).symm ▸ hf
        have hpassed : Passed s t file 0 s := ⟨⟨.refl, ha, id, fun _ k hk => by omega⟩, rfl,
          Nat.zero_le _, fun q => Or.inl rfl, habsent file hf⟩
        rw [startInsert, if_neg (not_not_intro htypes)] at hstart
        rcases hpassed.seek h hid row false with ⟨m, hseek, hnear⟩ | ⟨hfull, hend⟩
        · rw [hseek] at hstart
          obtain ⟨k, hk, ⟨reply, s', hl, hfin⟩ | ⟨hfull, hfin⟩⟩ :=
            hnear.finish h hi hid (hslots file hf) row (s.pageCount file) (by omega)
          · have hle : k ≤ m.turns := by
              have hturns := pageCount_le_turns m file
              have hcount := (hnear.changes.onward h).pageCount_le file
              omega
            exact Or.inl ⟨reply, s', perform_of_finish hstart hle hfin, .searched hf htypes hl⟩
          · refine Or.inr ⟨file, rfl, hfull, fun n => Option.eq_none_iff_forall_ne_some.2 ?_⟩
            intro x hx
            have := finish_add hx k
            rw [hstart, hfin] at this
            cases this
        · exact Or.inr ⟨file, rfl, hfull, fun n => finish_of_endless (hstart ▸ hend)⟩
      · rw [startInsert, if_pos htypes] at hstart
        exact Or.inl ⟨_, s, perform_of_refused hstart, .refused _⟩

/-! ## Numbers -/

/-- The pages of the table of numbers have slots, and it is the only table. -/
theorem slotsOf_numbers (hc : s.catalog = numbers.catalog) (hz : s.pageSize = numbers.pageSize)
    (hf : s.catalog.file table = .ok file) :
    file = TableFile.numbers ∧ 0 < s.slotsOf file := by
  obtain rfl : file = TableFile.numbers := Catalog.eq_of_file_single (hc ▸ hf)
  refine ⟨rfl, ?_⟩
  rw [slotsOf, hz]
  decide +kernel

end Store
end TableStore

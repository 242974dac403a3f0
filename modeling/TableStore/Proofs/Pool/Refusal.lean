import TableStore.Proofs.Pool.Search

/-!
# Inserts and removals that are refused

Many things can go wrong on the way to a page: its table may not be known, the row may not fit or
bear no record id, the page may be broken or the pool full.  By then locks may have been taken,
pages dropped from memory, others rolled back and a page appended.  Nothing that the transaction has
changed is touched by any of that.  Once the page has been found nothing goes wrong any more, so a
row is never marked as put in or taken away unless it is.

Tables may be registered and unregistered between the calls, as long as each identity stands for
the same path whenever it is in use.

## What is here

* `Store.Unscathed` — what a call that is refused leaves as it was.
* `Store.Removed`, `Store.NobodyWaits.perform_remove` — how a removal ends.
* `Store.edits_all_or_nothing` — both together.
* `Store.several_pages_added` — a refused insert that leaves several pages, where two paths have the
  same checksum.
-/

set_option autoImplicit false
namespace TableStore
namespace Store

variable {s₀ s m s' : Store} {t : TxnId} {file : TableFile} {row : Row} {n : Nat} {p : PageId}
  {page : Page} {reply : Reply} {ds : List Deed} {grows grows' : TableFile → Prop} {call : Call}
  {path : TableId → Path} {result : Except Error Page}

/-! ## What is left as it was

A call that is refused may have evicted clean pages, taken locks, struck others and added an empty
page.  None of this changes a row of a file, or one that the transaction has changed. -/

/-- The store `s'` is what is left of `s` after a call of `t` that has been refused.  The changes of
`t` are in memory as before, and nobody has new ones.  It has kept its locks.  The pages of all
files are as before; an empty one may have been added to one file. -/
structure Unscathed (s : Store) (t : TxnId) (grows : TableFile → Prop) (s' : Store) : Prop where
  own?_eq : ∀ p, s'.own? t p = s.own? t p
  changed : ∀ p page, s'.cache.pages.get? p = some page → page.dirtier ≠ none →
    s.cache.pages.get? p = some page
  covered : ∀ p mode, s.locks.Covered ⟨t, p, mode⟩ → s'.locks.Covered ⟨t, p, mode⟩
  pageAt_eq : ∀ q n, n < (s.disk.content q).length / s.pageSize.bytes →
    s'.disk.pageAt s.pageSize q n = s.disk.pageAt s.pageSize q n
  files : s'.disk = s.disk ∨ ∃ file, grows file ∧
    (∀ q, q ≠ file.path → s'.disk.content q = s.disk.content q) ∧
    s'.pageCount file = s.pageCount file + 1 ∧
    ∃ back, s'.readPage (file.page (s.pageCount file)) = .ok back ∧ ∀ i, back.row? i = none

theorem Unscathed.refl (s : Store) (t : TxnId) (grows : TableFile → Prop) :
    Unscathed s t grows s where
  own?_eq _ := rfl
  changed _ _ hp _ := hp
  covered _ _ hc := hc
  pageAt_eq _ _ _ := rfl
  files := Or.inl rfl

/-- It is enough that some changes have been made, that every lock is as before or exclusive, and
that at most one page has been appended. -/
theorem Changes.unscathed (hc : Changes t grows s m) (hquiet : s.NobodyWaits)
    (hi : s.catalog.Indexed) (hlocks : ∀ q, m.locks.heldMode? t q = s.locks.heldMode? t q ∨
      m.locks.heldMode? t q = some .exclusive)
    (hdisk : m.disk = s.disk ∨ ∃ file, grows' file ∧ s.catalog.file file.id = .ok file ∧
      file.HasRoom s.disk s.pageSize ∧ m.disk = (file.appendPage s.disk s.pageSize).2) :
    Unscathed s t grows' m where
  own?_eq := hc.own?_eq hquiet
  changed _ _ hp hd := hc.dirty_of hquiet hd hp
  covered q mode hcov := by
    rcases hlocks q with he | hx
    · exact hcov.congr he
    · exact Or.inr hx
  pageAt_eq q n hn := by
    rcases hdisk with hd | ⟨file, -, -, hroom, hd⟩
    · rw [hd]
    · rw [hd]
      by_cases hq : q = file.path
      · exact hq ▸ (Disk.grown_appendPage hroom).pageAt_eq (hq ▸ hn)
      · exact Disk.pageAt_congr (Disk.content_appendPage_of_ne hq) n
  files := by
    refine hdisk.imp_right ?_
    rintro ⟨file, hg, hf, hroom, hd⟩
    have ho := hc.onward hquiet
    have hm : SameFiles { s with disk := (file.appendPage s.disk s.pageSize).2 } m :=
      ⟨hd, ho.catalog_eq, ho.pageSize_eq⟩
    obtain ⟨back, hread, -, hnone⟩ := readPage_appended hi hf hroom
    refine ⟨file, hg, fun q hq => ?_, ?_, back, (hm.readPage_eq _).trans hread, hnone⟩
    · rw [hd, Disk.content_appendPage_of_ne hq]
    · exact (hm.pageCount_eq file).trans (TableFile.pageCount_appendPage hroom)

/-- A search that is given up leaves everything as it was. -/
theorem Arrived.unscathed (h : Arrived s t file n m) (hquiet : s.NobodyWaits)
    (hi : s.catalog.Indexed)
    (hf : s.catalog.file file.id = .ok file) (hg : grows file) : Unscathed s t grows m := by
  refine h.changes.unscathed hquiet hi (fun q => ?_) ?_
  · by_cases hq : q = file.page n
    · exact Or.inr (hq ▸ h.locked)
    · exact (h.others q hq).imp_right And.right
  · exact h.available.imp And.left fun ⟨_, hroom, hd⟩ => ⟨file, hg, hf, hroom, hd⟩

/-- So does a visit to a single page. -/
theorem Visited.unscathed (h : Visited s ⟨t, p, .exclusive⟩ result m) (hquiet : s.NobodyWaits)
    (hi : s.catalog.Indexed) (grows : TableFile → Prop) : Unscathed s t grows m := by
  refine (h.changes fun _ => False).unscathed hquiet hi (fun q => ?_) (Or.inl h.files.disk_eq)
  have hadded := h.added q
  by_cases hq : q = p
  · rw [if_pos hq, ite_self] at hadded
    exact Or.inr hadded
  · rw [if_neg hq] at hadded
    exact Or.inl hadded

/-! ## Removals -/

/-- How a removal ends: it is refused before it has done anything or after the visit to its page, or
the row is taken away from the page. -/
inductive Removed (s : Store) (t : TxnId) (row : Row) : Reply → Store → Prop where
  | refused (e : Error) : Removed s t row { result := .error e } s
  | failed {p : PageId} {result : Except Error Page} {m : Store} (e : Error)
      (h : Visited s ⟨t, p, .exclusive⟩ result m) : Removed s t row { result := .error e } m
  | taken {p : PageId} {page copy : Page} {bare : Row} {m : Store}
      (h : Visited s ⟨t, p, .exclusive⟩ (.ok page) m) (hr : page.remove row = .ok (copy, bare)) :
      Removed s t row ⟨.ok { copy with dirtier := some t }, some bare⟩ (m.edited t copy)

/-- What is done with the page decides about the end of the removal. -/
theorem Visited.removed (h : Visited s ⟨t, p, .exclusive⟩ result m) (hquiet : s.NobodyWaits)
    {w : Store} (hload : w.load t p = (result, m)) (row : Row) :
    ∃ reply s', w.resume ⟨⟨t, p, .exclusive⟩, .take row true⟩ = (.done reply, s') ∧
      Removed s t row reply s' := by
  simp only [Store.resume, hload]
  cases result with
  | error e => exact ⟨_, m, rfl, .failed e h⟩
  | ok page =>
    dsimp only
    cases hr : page.remove row with
    | error e => exact ⟨_, m, rfl, .failed e h⟩
    | ok edit =>
      obtain ⟨copy, bare⟩ := edit
      have hp := h.cached page rfl
      have hid : copy.id = p :=
        (Page.remove_id hr).trans
          (((h.changes fun _ => False).nobodyWaits hquiet).sound.keyed p page hp)
      exact ⟨_, _, finishEdit_of_cached bare h.active (hid ▸ hp), .taken h hr⟩

/-- **A removal ends**, where nobody else runs. -/
theorem NobodyWaits.perform_remove (h : s.NobodyWaits) (t : TxnId) (row : Row) :
    ∃ reply s', s.perform t (.remove row) = some (reply, s') ∧ Removed s t row reply s' := by
  have hrefuse : ∀ {e : Error}, s.start t (.remove row) = (.refuse e, s) →
      ∃ reply s', s.perform t (.remove row) = some (reply, s') ∧ Removed s t row reply s' := by
    intro e hstart
    exact ⟨_, s, perform_of_refused hstart, .refused e⟩
  by_cases ha : t ∈ s.locks.aborted
  · exact hrefuse (e := .aborted t) (by simp [start, LockTable.isAborted, ha])
  · have hactive : ¬ s.locks.isAborted t = true := by simpa [LockTable.isAborted] using ha
    cases hrid : row.rid with
    | none => exact hrefuse (e := .noRecordId) (by simp [start, hactive, hrid])
    | some rid =>
      cases hf : s.catalog.file rid.page.table with
      | error e => exact hrefuse (e := e) (by simp [start, hactive, hrid, hf])
      | ok file =>
        have hstart : s.start t (.remove row) = s.startRemove t file row true := by
          simp only [start, if_neg hactive, hrid, hf]
        rw [startRemove, hrid] at hstart
        by_cases htable : rid.page.table = file.id
        · replace hstart := hstart.trans (if_neg (not_not_intro htable))
          obtain ⟨k, w, -, hk, hfin, hw⟩ :=
            h.seize ⟨⟨t, rid.page, .exclusive⟩, .take row true⟩ ha
          cases hload : w.load t rid.page with
          | mk result m =>
            obtain ⟨reply, s', hresume, hrem⟩ := (hw.visited h hload).removed h hload row
            refine ⟨reply, s', perform_of_finish hstart (Nat.le_trans hk (three_le_turns s))
              fun i => ?_, hrem⟩
            rw [hfin, hresume, finish]
        · exact hrefuse (hstart.trans (if_pos htable))

/-! ## Both -/

/-- The end of an edit: it is refused and has left everything as it was, or it is done. -/
def Whole (s : Store) (t : TxnId) (grows : TableFile → Prop) (reply : Reply) (s' : Store) : Prop :=
  (∃ e, reply = { result := .error e } ∧ Unscathed s t grows s') ∨
    ∃ page row, reply = ⟨.ok page, some row⟩

theorem Inserted.whole {table : TableId} (h : Inserted s t table row reply s')
    (hquiet : s.NobodyWaits) (hi : s.catalog.Indexed) :
    Whole s t ((Call.insert table row).Grows s.catalog) reply s' := by
  cases h with
  | refused e => exact Or.inl ⟨e, rfl, .refl s t _⟩
  | searched hf _ hl =>
    have hid := (hi _ _ hf).symm ▸ hf
    cases hl with
    | refused e harr => exact Or.inl ⟨e, rfl, harr.unscathed hquiet hi hid hf⟩
    | placed _ _ _ => exact Or.inr ⟨_, _, rfl⟩

theorem Removed.whole (h : Removed s t row reply s') (hquiet : s.NobodyWaits)
    (hi : s.catalog.Indexed) : Whole s t ((Call.remove row).Grows s.catalog) reply s' := by
  cases h with
  | refused e => exact Or.inl ⟨e, rfl, .refl s t _⟩
  | failed e hv => exact Or.inl ⟨e, rfl, hv.unscathed hquiet hi _⟩
  | taken _ _ => exact Or.inr ⟨_, _, rfl⟩

/-- An edit that has come to an end has done so wholly. -/
theorem Does.whole (hd : Does (.call t call reply) s s') (hquiet : s.NobodyWaits)
    (hl : s.catalog.LaidOut path) (hc : s.Contained path) (hk : call.keeps = true)
    (hslots : ∀ file, call.Grows s.catalog file → 0 < s.slotsOf file) :
    Whole s t (call.Grows s.catalog) reply s' := by
  have hi := hl.indexed
  cases hd with
  | call hf =>
    cases call with
    | insert table row =>
      have habsent := fun file hf => hc.absent hl ((hi table file hf).symm ▸ hf)
      rcases hquiet.perform_insert hi hslots habsent t row with
        ⟨reply, s', hp, hins⟩ | ⟨file, -, -, hend⟩
      · obtain ⟨n, hp⟩ := finish_of_perform hp
        cases finish_unique hf hp
        exact hins.whole hquiet hi
      · rw [hend] at hf
        cases hf
    | remove row =>
      obtain ⟨reply, s', hp, hrem⟩ := hquiet.perform_remove t row
      obtain ⟨n, hp⟩ := finish_of_perform hp
      cases finish_unique hf hp
      exact hrem.whole hquiet hi
    | _ => cases hk

/-- Where there is room for one more page, an edit comes to an end. -/
theorem NobodyWaits.perform_edit (hquiet : s.NobodyWaits) (hl : s.catalog.LaidOut path)
    (hc : s.Contained path)
    (hk : call.keeps = true) (hslots : ∀ file, call.Grows s.catalog file → 0 < s.slotsOf file)
    (hroom : ∀ file, call.Grows s.catalog file → file.HasRoom s.disk s.pageSize) (t : TxnId) :
    ∃ reply s', s.perform t call = some (reply, s') := by
  have hi := hl.indexed
  cases call with
  | insert table row =>
    have habsent := fun file hf => hc.absent hl ((hi table file hf).symm ▸ hf)
    rcases hquiet.perform_insert hi hslots habsent t row with
      ⟨reply, s', hp, -⟩ | ⟨file, hf, hfull, -⟩
    · exact ⟨reply, s', hp⟩
    · exact absurd (hroom file hf) hfull
  | remove row =>
    obtain ⟨reply, s', hp, -⟩ := hquiet.perform_remove t row
    exact ⟨reply, s', hp⟩
  | _ => cases hk

/-- **A row is put in or taken away, or everything is as it was.**  Between any deeds, while nobody
else writes to the files and the tables that are registered lie at the same paths, an insert or a
removal that is refused has not touched the row; all pages with changes of its transaction are in
memory as before, no page has new changes, all of its locks are held at least as before, and the
pages of all files are the same, but for an empty one that may have been added to the file of the
table.  One that has given a row its record id or taken it away is not refused.  Each of them comes
to an end, if there is room for one more page in the file of its table. -/
theorem edits_all_or_nothing (h₀ : s₀.Fresh) (hl₀ : s₀.catalog.LaidOut path) (h : After s₀ ds s)
    (hforeign : ∀ d ∈ ds, d.foreign = false)
    (hl : ∀ catalog, .register catalog ∈ ds → catalog.LaidOut path) (hk : call.keeps = true)
    (hslots : ∀ file, call.Grows s.catalog file → 0 < s.slotsOf file) (t : TxnId) :
    (∀ reply s', Does (.call t call reply) s s' →
      (∀ e, reply.result = .error e →
        reply.row = none ∧ Unscathed s t (call.Grows s.catalog) s') ∧
      ∀ row, reply.row = some row → ∃ page, reply.result = .ok page) ∧
    ((∀ file, call.Grows s.catalog file → file.HasRoom s.disk s.pageSize) →
      ∃ reply s', s.perform t call = some (reply, s')) := by
  have hquiet := h.nobodyWaits h₀.nobodyWaits
  obtain ⟨hlaid, hcontained⟩ := h.contained h₀ hl₀ hforeign hl
  refine ⟨fun reply s' hd => ?_,
    fun hroom => hquiet.perform_edit hlaid hcontained hk hslots hroom t⟩
  rcases hd.whole hquiet hlaid hcontained hk hslots with ⟨e, rfl, hun⟩ | ⟨page, row, rfl⟩
  · exact ⟨fun _ _ => ⟨rfl, hun⟩, fun row hrow => by cases hrow⟩
  · exact ⟨fun e he => (by cases he), fun _ _ => ⟨page, rfl⟩⟩

/-! ## A page for nothing -/

/-- A store with one table of numbers, whose file has a single page of one slot, and with a pool of
one page. -/
def tight : Store :=
  { numbers with
    disk := { Disk.empty with files := Assoc.insert ∅ TableFile.numbers.path (Bytes.zeros 5) }
    capacity := 1
    capacity_pos := Nat.one_pos }

/-- A transaction has put a row into the page. -/
def filled : Option (Reply × Store) :=
  finish 1 (tight.start ⟨1⟩ (.insert TableFile.numbers.id { values := [.int 7] }))

/-- Its next row would need another page.  That is appended, but there is no room for it in the
pool, and the first row stays where it is. -/
theorem edits_all_or_nothing_filled : tight.Fresh ∧
    ∃ (ds : List Deed) (s s' : Store) (reply : Reply), After tight ds s ∧
      s.perform ⟨1⟩ (.insert TableFile.numbers.id { values := [.int 8] }) = some (reply, s') ∧
      reply.result = .error (.poolFull 1) ∧ reply.row = none ∧
      s'.own? ⟨1⟩ (TableFile.numbers.page 0) = s.own? ⟨1⟩ (TableFile.numbers.page 0) ∧
      s.own? ⟨1⟩ (TableFile.numbers.page 0) ≠ none ∧
      s'.pageCount TableFile.numbers = s.pageCount TableFile.numbers + 1 := by
  have hf : tight.Fresh := ⟨rfl, rfl⟩
  have hi : tight.catalog.Indexed := Catalog.Indexed.empty.add _ _ _
  obtain ⟨path, hlaid⟩ := hi.laidOut
  have hd : filled.map (fun run => decide (
      run.2.own? ⟨1⟩ (TableFile.numbers.page 0) ≠ none ∧
      ∃ run' ∈ run.2.perform ⟨1⟩ (.insert TableFile.numbers.id { values := [.int 8] }),
        run'.1.result = .error (.poolFull 1) ∧ run'.2.disk ≠ run.2.disk)) = some true := by
    decide +kernel
  obtain ⟨⟨reply, s⟩, hs, hd⟩ := Option.map_eq_some_iff.1 hd
  obtain ⟨hown, ⟨reply', s'⟩, hperform, herror, hne⟩ := of_decide_eq_true hd
  have h := After.start.deed (.call hs)
  have ho := h.onward hf.nobodyWaits hf.homed.made (by simp [Deed.registers, Deed.foreign])
  have hslots : ∀ file, s.catalog.file TableFile.numbers.id = .ok file →
      file = TableFile.numbers ∧ 0 < s.slotsOf file := by
    intro file hfile
    exact slotsOf_numbers ho.catalog_eq ho.pageSize_eq hfile
  have hkeeps : (Call.insert TableFile.numbers.id { values := [.int 8] }).keeps = true := rfl
  obtain ⟨n, hfinish⟩ := finish_of_perform hperform
  have hwhole := edits_all_or_nothing hf hlaid h (by simp [Deed.foreign]) (by simp) hkeeps
    (fun file hfile => (hslots file hfile).2) ⟨1⟩
  obtain ⟨hrow, hun⟩ := (hwhole.1 reply' s' (.call hfinish)).1 _ herror
  refine ⟨hf, _, s, s', reply', h, hperform, herror, hrow, hun.own?_eq _, hown, ?_⟩
  obtain ⟨file, hfile, -, hgrown, -⟩ := hun.files.resolve_left hne
  exact (hslots file hfile).1 ▸ hgrown

/-! ## Several pages for nothing

An identity is a checksum of a path, so two paths may share one.  Where a file is registered in the
place of another one with its identity, the pages of the old one stay in memory, and are taken for
those of the new one. -/

/-- Two files of tables of numbers, at paths with the same checksum. -/
def twinFiles : TableFile × TableFile :=
  (.ofPath ⟨[Utf8.encode "plumless"]⟩ TableFile.numbers.schema,
    .ofPath ⟨[Utf8.encode "buckeroo"]⟩ TableFile.numbers.schema)

/-- The first one has two pages of one slot each, and is registered.  The second one is empty.  The
pool has room for two pages. -/
def twins : Store :=
  { numbers with
    disk :=
      { Disk.empty with
        files :=
          Assoc.insert (Assoc.insert ∅ twinFiles.1.path (Bytes.zeros 10)) twinFiles.2.path [] }
    catalog := Catalog.add {} twinFiles.1 "plumless" ""
    capacity := 2
    capacity_pos := Nat.two_pos }

/-- Inserts a number into the table with the identity that both files have. -/
def twinInsert (n : Int32) : Call := .insert twinFiles.2.id { values := [.int n] }

/-- The second file takes the place of the first one. -/
def supplanted (s : Store) : Store :=
  { s with catalog := s.catalog.add twinFiles.2 "buckeroo" "" }

/-- **A refused insert may leave several empty pages** where a file has been registered in the place
of another one with its identity: the full pages of the other one in memory stand for the first of
them. -/
theorem several_pages_added : ∃ (ds : List Deed) (s s' : Store) (reply : Reply), twins.Fresh ∧
    After twins ds s ∧ (∀ d ∈ ds, d.foreign = false) ∧
    s.catalog.file twinFiles.2.id = .ok twinFiles.2 ∧ 0 < s.slotsOf twinFiles.2 ∧
    Does (.call ⟨1⟩ (twinInsert 9) reply) s s' ∧ reply.result = .error (.poolFull 2) ∧
    s.pageCount twinFiles.2 = 0 ∧ s'.pageCount twinFiles.2 = 3 := by
  have hd : ∃ one ∈ finish 1 (twins.start ⟨1⟩ (twinInsert 7)),
      ∃ two ∈ finish 2 (one.2.start ⟨1⟩ (twinInsert 8)),
      ∃ three ∈ finish 3 ((supplanted two.2).start ⟨1⟩ (twinInsert 9)),
        (supplanted two.2).catalog.file twinFiles.2.id = .ok twinFiles.2 ∧
        0 < (supplanted two.2).slotsOf twinFiles.2 ∧
        three.1.result = .error (.poolFull 2) ∧
        (supplanted two.2).pageCount twinFiles.2 = 0 ∧ three.2.pageCount twinFiles.2 = 3 := by
    decide +kernel
  obtain ⟨⟨_, s₁⟩, h₁, ⟨_, s₂⟩, h₂, ⟨reply, s'⟩, h₃, hfile, hslots, herror, hcount, hcount'⟩ := hd
  have h : After twins _ (supplanted s₂) :=
    ((After.start.deed (.call h₁)).deed (.call h₂)).deed (.register s₂ _)
  exact ⟨_, _, s', reply, ⟨rfl, rfl⟩, h, by simp [Deed.foreign], hfile, hslots, .call h₃, herror,
    hcount, hcount'⟩

end Store
end TableStore

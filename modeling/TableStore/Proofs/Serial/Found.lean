import TableStore.Proofs.Ledger.Run
import TableStore.Proofs.Pool.Room
import TableStore.Proofs.Serial.Work

/-!
# What is found with a lock

A call that has been granted its lock loads the page and goes on from there.  What it finds is what
the ledger says: the rows of the page as its transaction sees them, the fault of the page, or that
the page is past the end of its file.  There is one thing that the ledger does not say: the pool may
be full of changed pages, some of them changed by others.

## What is here

* `Pending.Heads` — a call in progress is about to look at a page of its.
* `Store.start_cases` — a call is refused at once, or heads for its first page.  An insert into a
  file that can have no page gets nowhere.
* `Store.Found`, `Store.found_load` — what is found when a page is loaded.
* `Store.Resumed`, `Store.resumed` — what becomes of a call that looks at a page: it ends as
  `Store.Ends` says, goes on to the next page, adds pages for ever, or finds no room because of
  others.

All of it is about stores in which every text fits; there the use of a page changes nothing in the
ledger.
-/

set_option autoImplicit false
namespace TableStore

/-! ## Calls -/

/-- A call of `t` in progress is about to look at a page: the page that it fetches, the page of the
row that it takes away, or one of the pages of the file that it inserts into. -/
inductive Pending.Heads (t : TxnId) (s : Store) : Call → Pending → Prop where
  | fetch (p : PageId) (access : Access) :
      Heads t s (.fetch p access) ⟨⟨t, p, access.mode⟩, .read⟩
  | remove {row : Row} {p : PageId} {i : Nat} (hr : row.rid = some ⟨p, i⟩) :
      Heads t s (.remove row) ⟨⟨t, p, .exclusive⟩, .take row true⟩
  | insert {table : TableId} {search : SlotSearch} {n : Nat}
      (hf : s.catalog.file table = .ok search.file)
      (ht : search.row.types = search.file.schema.types) (hk : search.keep = true)
      (hn : search.next = n + 1) (hc : s.CountsPages search) :
      Heads t s (.insert table search.row) ⟨⟨t, search.file.page n, .exclusive⟩, .place search⟩

namespace Pending.Heads

variable {s s' : Store} {t : TxnId} {call : Call} {pending : Pending}

theorem txn_eq (h : pending.Heads t s call) : pending.request.txn = t := by
  cases h <;> rfl

/-- A call goes on as before while the tables stay the same and its search may go on. -/
theorem mono (h : pending.Heads t s call) (hc : s'.catalog = s.catalog)
    (hs : ∀ search, s.CountsPages search → s'.CountsPages search) : pending.Heads t s' call := by
  cases h with
  | fetch p access => exact .fetch p access
  | remove hr => exact .remove hr
  | insert hf ht hk hn hcount => exact .insert (hc ▸ hf) ht hk hn (hs _ hcount)

end Pending.Heads

namespace Store

variable {s₀ s s' m : Store} {t : TxnId} {call : Call} {pending : Pending} {p : PageId}
  {log : List PageId} {page : Page} {file : TableFile} {table : TableId} {search : SlotSearch}
  {stuck : Prop}

/-! ## Ledgers of stores

On the way of a call memory and files change, but not what they say.  A ledger is the same
throughout, up to the place that is edited at the end. -/

/-- A ledger depends on the pages in memory, the rows in files and the victims. -/
theorem ledger_congr (hc : s'.cache = s.cache) (hs : ∀ r, s'.stored? r = s.stored? r)
    (ha : s'.locks.aborted = s.locks.aborted) : s'.ledger = s.ledger := by
  refine Ledger.ext (fun r => ?_) (fun u q => ?_) fun u => ?_
  · simp only [ledger, hc, hs]
  · simp only [ledger, hc]
  · simp only [ledger, ha]

theorem ledger_relock {l : LockTable} (ha : l.aborted = s.locks.aborted) :
    { s with locks := l }.ledger = s.ledger := ledger_congr rfl (fun _ => rfl) ha

/-- An empty page holds no rows. -/
theorem ledger_append (hi : s.catalog.Indexed) (hf : s.catalog.file file.id = .ok file)
    (hroom : file.HasRoom s.disk s.pageSize) :
    { s with disk := (file.appendPage s.disk s.pageSize).2 }.ledger = s.ledger :=
  ledger_congr rfl (stored?_append hi hf hroom) rfl

/-- Pages that are added hold no rows, and are such as the file can have. -/
theorem ledger_grown (hi : s.catalog.Indexed) (hf : s.catalog.file table = .ok file) {n : Nat}
    (hn : TableFile.pageLimit ≤ s.wholePages file → s.pageCount file ≤ n)
    (hend : n < (s.grown file n).pageCount file) :
    (s.grown file n).ledger = s.ledger ∧ s.CanHave file n := by
  have hfile : s.catalog.file file.id = .ok file := (hi _ _ hf).symm ▸ hf
  have hgrown := TableFile.growPast_induction
    (P := fun d => { s with disk := d }.ledger = s.ledger ∧
      ({ s with disk := d }.CanHave file n ↔ s.CanHave file n))
    (fun d hroom hd =>
      ⟨(ledger_append (s := { s with disk := d }) hi hfile hroom).trans hd.1,
        (canHave_append (s := { s with disk := d }) hroom file n).trans hd.2⟩)
    hn hend ⟨rfl, Iff.rfl⟩
  exact ⟨hgrown.1, hgrown.2.1 (Or.inl hend)⟩

/-- A page that has been changed in one place, where every text fits. -/
theorem MatchesFiles.ledger_edited (h : s.MatchesFiles) (hfit : s.ledger.Fits) {copy : Page}
    (hp : s.cache.pages.get? p = some page) (hl : s.locks.heldMode? t p = some .exclusive)
    (hid : copy.id = p) {i : Nat} {x : Option Row} (hx : ∀ row, x = some row → row.stored = row)
    (hrow : ∀ j, copy.row? j = if j = i then x else page.row? j) :
    (s.edited t copy).ledger = s.ledger.put t ⟨p, i⟩ x :=
  (hfit.put hx).eq_of_cut (edited_cut h hp hl hid hrow)

/-- A page that is not in memory is seen as its file has it. -/
theorem view_of_missing (hp : s.cache.pages.get? p = none) (i : Nat) :
    s.ledger.view t p i = s.stored? ⟨p, i⟩ := by
  have hnone : ∀ page, s.cache.pages.get? p = some page → False := fun page h => by
    rw [hp] at h
    cases h
  rw [Ledger.view_of_none (overlay_eq_none fun page h => (hnone page h).elim),
    committed_of_not_clean fun page h => (hnone page h).elim]

/-! ## Beginning -/

/-- A search that gets on heads for its next page. -/
theorem heads_seek (s : Store) (t : TxnId) (search : SlotSearch)
    (hf : s.catalog.file table = .ok search.file)
    (ht : search.row.types = search.file.schema.types) (hk : search.keep = true)
    (hc : s.CountsPages search) (hi : s.catalog.Indexed) :
    (∃ q m, s.seek t search = (.asking q, m) ∧ q.Heads t m (.insert table search.row) ∧
      q.request.page = search.file.page search.next ∧ m.ledger = s.ledger ∧
      s.CanHave search.file search.next) ∨
    ¬ s.GetsOn search ∧ ∃ m, s.seek t search = (.endless, m) := by
  rcases s.seek_cases t search with ⟨hlt, he⟩ | ⟨hge, ⟨hlt, he⟩ | ⟨hend, he⟩⟩
  · let tried : SlotSearch :=
      { search with next := search.next + 1, held := s.holds t (search.file.page search.next) }
    have hcount : s.CountsPages tried := ⟨hlt, hc.count_le, hc.full⟩
    exact Or.inl ⟨_, s, he,
      .insert (show s.catalog.file table = .ok tried.file from hf) ht hk rfl hcount, rfl, rfl,
      Or.inl (Nat.lt_of_lt_of_le hlt hc.count_le)⟩
  · let grown : Store := s.grown search.file search.next
    let tried : SlotSearch :=
      { search with
        next := search.next + 1, count := grown.pageCount search.file
        held := grown.holds t (search.file.page search.next) }
    have hcount : grown.CountsPages tried := ⟨hlt, Nat.le_refl _, fun _ => rfl⟩
    obtain ⟨hl, hcan⟩ := ledger_grown hi hf (fun hfull => hc.full hfull ▸ hge) hlt
    exact Or.inl ⟨_, grown, he,
      .insert (show grown.catalog.file table = .ok tried.file from hf) ht hk rfl hcount, rfl, hl,
      hcan⟩
  · refine Or.inr ⟨?_, _, he⟩
    rintro (hlt | hlt)
    · exact Nat.not_lt.2 hge hlt
    · exact Nat.not_lt.2 hend hlt

/-- A search that has counted all pages gets on if its file can have one more. -/
theorem CountsAll.getsOn (h : s.CountsAll search) (hc : s.CanHave search.file search.next) :
    s.GetsOn search := by
  by_cases hlt : search.next < search.count
  · exact Or.inl hlt
  · have hnext : search.next = s.pageCount search.file :=
      Nat.le_antisymm (h.count_eq ▸ h.next_le) (h.count_eq ▸ Nat.not_lt.1 hlt)
    obtain ⟨hwhole, hlimit⟩ := hc.resolve_left (Nat.not_lt.2 (Nat.le_of_eq hnext.symm))
    have hroom : search.file.HasRoom s.disk s.pageSize := by
      rw [hnext, pageCount, TableFile.pageCount_eq hwhole] at hlimit
      exact hlimit
    exact Or.inr (hroom.growPast (Nat.le_of_eq hnext)).2

/-- A call is refused, and does nothing, or it heads for a page that it reaches in any case.
Otherwise it reaches no page at all. -/
theorem start_cases (hi : s.catalog.Indexed) (hs : SameFaults s₀ s)
    (ha : t ∉ s.locks.aborted) (hp : call.Plain) :
    (∃ e, call.refusal? s₀.catalog = some e ∧ s.start t call = (.refuse e, s)) ∨
    call.refusal? s₀.catalog = none ∧
      ((∃ q m, s.start t call = (.asking q, m) ∧ q.Heads t m call ∧
        (∀ L, s₀.Reaches t L call q.request.page) ∧ m.ledger = s.ledger) ∨
      (∀ L p, ¬ s₀.Reaches t L call p) ∧ (s.start t call).1 = .endless) := by
  have hactive : ¬ s.locks.isAborted t = true := by simpa [LockTable.isAborted] using ha
  have hcat := hs.catalog_eq
  rw [← hcat]
  cases call with
  | fetch p access =>
    exact Or.inr ⟨rfl, Or.inl ⟨_, s, rfl, .fetch p access, fun _ => .fetch p access, rfl⟩⟩
  | insert table row =>
    rw [start, if_neg hactive, Call.refusal?]
    cases hf : s.catalog.file table with
    | error e => exact Or.inl ⟨e, rfl, rfl⟩
    | ok file =>
      dsimp only
      rw [startInsert]
      by_cases ht : row.types = file.schema.types
      · rw [if_neg (not_not_intro ht), if_neg (not_not_intro ht)]
        have hf' : s₀.catalog.file table = .ok file := hcat ▸ hf
        rcases heads_seek s t ⟨file, row, 0, s.pageCount file, false, true⟩ hf ht rfl
          ⟨Nat.zero_le _, Nat.le_refl _, fun _ => rfl⟩ hi with
          ⟨q, m, he, hq, hpage, hl, hcan⟩ | ⟨hstuck, m, he⟩
        · refine Or.inr ⟨rfl, Or.inl ⟨q, m, he, hq, fun L => ?_, hl⟩⟩
          rw [hpage]
          exact .insert row hf' ((hs.canHave_iff _ _).1 hcan)
            fun k hk => absurd hk (Nat.not_lt_zero k)
        · refine Or.inr ⟨rfl, Or.inr ⟨fun L p hreach => hstuck ?_, congrArg Prod.fst he⟩⟩
          have hcan := (hs.canHave_iff _ _).2 ((hreach.canHave hf').mono (Nat.zero_le _))
          exact CountsAll.getsOn ⟨Nat.zero_le _, rfl⟩ hcan
      · rw [if_pos ht, if_pos ht]
        exact Or.inl ⟨_, rfl, rfl⟩
  | remove row =>
    rw [start, if_neg hactive, Call.refusal?]
    cases hr : row.rid with
    | none => exact Or.inl ⟨_, rfl, rfl⟩
    | some r =>
      dsimp only
      cases s.catalog.file r.page.table with
      | error e => exact Or.inl ⟨e, rfl, rfl⟩
      | ok file =>
        dsimp only
        rw [startRemove, hr]
        dsimp only
        by_cases ht : r.page.table = file.id
        · rw [if_neg (not_not_intro ht), if_neg (not_not_intro ht)]
          exact Or.inr ⟨rfl, Or.inl ⟨_, s, rfl, .remove hr, fun _ => .remove hr, rfl⟩⟩
        · rw [if_pos ht, if_pos ht]
          exact Or.inl ⟨_, rfl, rfl⟩
  | insertCopy file row => exact hp.elim
  | removeCopy file row => exact hp.elim

/-! ## Loading a page

What is loaded is told by the ledger, unless there is no room or the page has a fault.  Faults are
those of the beginning, and room is a matter of the copies that transactions have. -/

/-- There is room for a page and the copies of a transaction, unless the pool is full of changed
pages and the page is not among them. -/
theorem Stocked.room (h : s.Stocked s₀.capacity log)
    (hn : ¬ (s.cache.pages.get? p = none ∧ s.cache.size = s₀.capacity ∧
      ∀ q page, s.cache.pages.get? q = some page → page.dirtier ≠ none)) :
    s.ledger.Room t s₀.capacity p := by
  by_cases hown : ∃ page, s.cache.pages.get? p = some page ∧ page.dirtier = some t
  · obtain ⟨page, hp, hd⟩ := hown
    exact Or.inl (by rw [overlay_of_own hp hd]; exact Option.some_ne_none _)
  · refine Or.inr ⟨(s.cache.dirtyPages t).toFinset, ?_, fun q hq => ?_⟩
    · have hsub : (s.cache.dirtyPages t).toFinset ⊆ s.cache.pages.keys.toFinset := fun q hq => by
        rw [List.mem_toFinset] at hq ⊢
        obtain ⟨page, hq, -⟩ := Cache.mem_dirtyPages.1 hq
        exact Assoc.mem_keys_iff.2 ⟨page, hq⟩
      have hcard : s.cache.pages.keys.toFinset.card = s.cache.size := by
        rw [List.toFinset_card_of_nodup (Assoc.nodup_keys _), Assoc.length_keys, Cache.size]
      have hle := h.size_le
      by_cases hother : ∃ q page, s.cache.pages.get? q = some page ∧ page.dirtier ≠ some t
      · -- one of the pages in memory is no copy of `t`
        obtain ⟨q, page, hq, hd⟩ := hother
        have hlt := Finset.card_lt_card (Finset.ssubset_iff_subset_ne.2 ⟨hsub, fun he => ?_⟩)
        · omega
        · have hmem : q ∈ s.cache.pages.keys.toFinset :=
            List.mem_toFinset.2 (Assoc.mem_keys_iff.2 ⟨page, hq⟩)
          rw [← he, List.mem_toFinset, Cache.mem_dirtyPages] at hmem
          obtain ⟨page', hq', hd'⟩ := hmem
          rw [hq] at hq'
          cases hq'
          exact hd hd'
      · have hall : ∀ q page, s.cache.pages.get? q = some page → page.dirtier = some t :=
          fun q page hq => by_contra fun hd => hother ⟨q, page, hq, hd⟩
        have hmiss : s.cache.pages.get? p = none := by
          cases hp : s.cache.pages.get? p with
          | none => rfl
          | some page => exact absurd ⟨page, hp, hall p page hp⟩ hown
        have hsize : s.cache.size ≠ s₀.capacity := fun he =>
          hn ⟨hmiss, he, fun q page hq => by simp [hall q page hq]⟩
        have := Finset.card_le_card hsub
        omega
    · by_contra hmem
      refine hq (overlay_eq_none fun page hp hd => hmem ?_)
      exact List.mem_toFinset.2 (Cache.mem_dirtyPages.2 ⟨page, hp, hd⟩)

/-- There is no room where the copies of the transaction fill the pool. -/
theorem not_room (hp : s.cache.pages.get? p = none) {n : Nat} (hsize : s.cache.size = n)
    (hown : ∀ q page, s.cache.pages.get? q = some page → page.dirtier = some t) :
    ¬ s.ledger.Room t n p := by
  rintro (hr | ⟨D, hcard, hD⟩)
  · refine hr (overlay_eq_none fun page hpage => ?_)
    rw [hp] at hpage
    cases hpage
  · have hsub : s.cache.pages.keys.toFinset ⊆ D := fun q hq => by
      obtain ⟨page, hpage⟩ := Assoc.mem_keys_iff.1 (List.mem_toFinset.1 hq)
      refine hD q ?_
      rw [overlay_of_own hpage (hown q page hpage)]
      exact Option.some_ne_none _
    have hle := Finset.card_le_card hsub
    rw [List.toFinset_card_of_nodup (Assoc.nodup_keys _), Assoc.length_keys] at hle
    rw [Cache.size] at hsize
    omega

/-- What is found when a page is loaded. -/
inductive Found (s₀ s : Store) (t : TxnId) (p : PageId) : Except Error Page × Store → Prop where
  /-- The pool is full of pages that have been changed. -/
  | crowded {m : Store} (hp : s.cache.pages.get? p = none) (hsize : s.cache.size = s₀.capacity)
      (hd : ∀ q page, s.cache.pages.get? q = some page → page.dirtier ≠ none)
      (hc : m.cache = s.cache) : Found s₀ s t p (.error (.poolFull s₀.capacity), m)
  | faulty {e : Error} {m : Store} (hr : s.ledger.Room t s₀.capacity p)
      (hf : s₀.fault? p = some e) : Found s₀ s t p (.error e, m)
  | past {m : Store} (hr : s.ledger.Room t s₀.capacity p) (hf : s₀.fault? p = none)
      (hread : s.readPage p = .error (.pageNotFound p)) (hv : ∀ i, s.ledger.view t p i = none) :
      Found s₀ s t p (.error (.pageNotFound p), m)
  | page {page : Page} {file : TableFile} {m : Store} (hr : s.ledger.Room t s₀.capacity p)
      (hf : s₀.fault? p = none) (hid : page.id = p) (hh : s.Home p page file)
      (hv : ∀ i, page.row? i = s.ledger.view t p i) : Found s₀ s t p (.ok page, m)

/-- **What is found is what the ledger says**, if there is room. -/
theorem found_load (h : s.MatchesFiles) (hs : SameFaults s₀ s) (hk : s.Stocked s₀.capacity log)
    (ha : t ∉ s.locks.aborted) (hl : s.locks.heldMode? t p ≠ none) :
    Found s₀ s t p (s.load t p) := by
  have hroom : (∀ k, (s.load t p).1 ≠ .error (.poolFull k)) → s.ledger.Room t s₀.capacity p :=
    fun hn => hk.room fun hfull => hn s₀.capacity ((hk.load_poolFull_iff ha).2
      ⟨rfl, Assoc.get?_eq_none_iff.1 hfull.1, hfull.2⟩)
  have hread : ∀ {m : Store}, s.cache.pages.get? p = none → (s.bump .misses).makeRoom = .ok m →
      m.readPage p = s.readPage p := fun hp hm =>
    (refreshes_makeRoom (s := s.bump .misses) h.changesLocked.sound hp hm).readPage_eq p
  rcases s.load_cases t p with ⟨hv, -⟩ | ⟨page, -, hp, he⟩ | ⟨e, -, hp, hm, he⟩ |
    ⟨m, e, -, hp, hm, hr, he⟩ | ⟨m, page, -, hp, hm, hr, he⟩
  · exact absurd hv ha
  · obtain ⟨file, hh⟩ := h.homes p page hp
    rw [he] at hroom ⊢
    exact .page (hroom fun k hk => by cases hk) ((hs.fault?_eq p).symm.trans (hs.backed p page hp))
      (h.changesLocked.sound.keyed p page hp) hh fun i => (h.changesLocked.view_eq hp hl i).symm
  · have hfull : e = .poolFull s.capacity := by
      rcases (s.bump .misses).makeRoom_cases with ⟨-, hok⟩ | ⟨-, -, herr⟩ | ⟨c, -, -, hok⟩
      · rw [hok] at hm
        cases hm
      · rw [herr] at hm
        cases hm
        rfl
      · rw [hok] at hm
        cases hm
    obtain ⟨-, hp, hsize, hd⟩ := (hk.load_poolFull_iff (q := p) ha).1
      ((congrArg Prod.fst he).trans (congrArg _ hfull))
    rw [he, hfull, hk.capacity_eq]
    exact .crowded (Assoc.get?_eq_none_iff.2 hp) hsize hd rfl
  · rw [hread hp hm] at hr
    have hr' := hroom fun k hk => by
      rw [he] at hk
      cases hk
      exact readPage_ne_poolFull s p k hr
    rw [he]
    rcases readPage_error hr with ⟨rfl, hf⟩ | hf
    · refine .past hr' ((hs.fault?_eq p).symm.trans hf) hr fun i => ?_
      rw [view_of_missing hp, stored?, hr]
    · exact .faulty hr' ((hs.fault?_eq p).symm.trans hf)
  · rw [hread hp hm] at hr
    obtain ⟨file, hh, -⟩ := readPage_home hr
    rw [he] at hroom ⊢
    refine .page (hroom fun k hk => by cases hk)
      ((hs.fault?_eq p).symm.trans (fault?_of_readPage hr)) (of_readPage hr).1 hh fun i => ?_
    rw [view_of_missing hp, stored?_of_readPage hr]

/-! ## With the lock -/

/-- What becomes of a call that has been granted the lock on the page `p`.  It adds pages for ever
only where it is `stuck`. -/
inductive Resumed (stuck : Prop) (s₀ s : Store) (t : TxnId) (call : Call) (p : PageId) :
    Progress × Store → Prop where
  /-- The pool is full, and somebody else has changed one of its pages. -/
  | crowded {m : Store} {q : PageId} {page : Page} {u : TxnId}
      (hp : s.cache.pages.get? q = some page) (hd : page.dirtier = some u) (hu : u ≠ t)
      (hc : m.cache = s.cache) (hl : m.ledger = s.ledger) :
      Resumed stuck s₀ s t call p (.refuse (.poolFull s₀.capacity), m)
  | done {reply : Reply} {o : Outcome} {m : Store} (ht : reply.Tells o)
      (he : s₀.Ends t s.ledger p call o m.ledger) (hlock : m.locks.heldMode? t p ≠ none) :
      Resumed stuck s₀ s t call p (.done reply, m)
  | passed {table : TableId} {row : Row} {file : TableFile} {n : Nat} {q : Pending} {m : Store}
      (hc : call = .insert table row) (hf : s₀.catalog.file table = .ok file)
      (hpage : p = file.page n) (hp : s₀.Passes t s.ledger p) (hq : q.Heads t m call)
      (hnext : q.request.page = file.page (n + 1)) (hn : s₀.CanHave file (n + 1))
      (hl : m.ledger = s.ledger) : Resumed stuck s₀ s t call p (.asking q, m)
  | endless {table : TableId} {row : Row} {m : Store} (hc : call = .insert table row)
      (hp : s₀.Passes t s.ledger p) (hs : stuck) : Resumed stuck s₀ s t call p (.endless, m)

theorem Resumed.mono {run : Progress × Store} (h : Resumed stuck s₀ s t call p run)
    {stuck' : Prop} (hs : run.1.ends = false → stuck → stuck') :
    Resumed stuck' s₀ s t call p run := by
  cases h with
  | crowded hp hd hu hc hl => exact .crowded hp hd hu hc hl
  | done ht he hlock => exact .done ht he hlock
  | passed hc hf hpage hp hq hnext hn hl => exact .passed hc hf hpage hp hq hnext hn hl
  | endless hc hp h => exact .endless hc hp (hs rfl h)

/-- The lock is granted, and the page is in memory. -/
structure Loaded (s₀ s : Store) (t : TxnId) (p : PageId) (page : Page) (file : TableFile)
    (m : Store) : Prop where
  ready : Ready t p page m
  matchesFiles : m.MatchesFiles
  ledger_eq : m.ledger = s.ledger
  fits : s.ledger.Fits
  catalog_eq : m.catalog = s₀.catalog
  fault : s₀.fault? p = none
  canHave : ∀ n, m.CanHave file n → s₀.CanHave file n
  slots : s₀.slotsOn p = page.slots.length
  id_eq : page.id = p
  room : s.ledger.Room t s₀.capacity p
  formed : page.Formed m.pageSize file.schema
  view : page.row? = s.ledger.view t p

/-- What there is when a page has been loaded with an exclusive lock. -/
theorem loaded (h : s.MatchesFiles) (hs : SameFaults s₀ s) (hfit : s.ledger.Fits)
    (ha : t ∉ s.locks.aborted) (hx : s.locks.heldMode? t p = some .exclusive)
    (href : s.Refreshes p m) (hload : s.load t p = (.ok page, m))
    (hr : s.ledger.Room t s₀.capacity p) (hf : s₀.fault? p = none) (hid : page.id = p)
    (hh : s.Home p page file) (hv : ∀ i, page.row? i = s.ledger.view t p i) :
    Loaded s₀ s t p page file m where
  ready := ⟨h.changesLocked.refresh href, (load_ok hload).1, href.locks_eq.symm ▸ hx,
    href.locks_eq.symm ▸ ha⟩
  matchesFiles := h.of_sameFiles href.sameFiles (h.changesLocked.refresh href)
    fun q page hq => (href.origin q page hq).imp_right fun ho => ho.2.2
  ledger_eq := hfit.eq_of_cut (href.cut h)
  fits := hfit
  catalog_eq := href.catalog_eq.trans hs.catalog_eq
  fault := hf
  canHave n hn :=
    (hs.canHave_iff file n).1 ((canHave_congr (href.sameFiles.wholePages_eq file) n).1 hn)
  slots := (hs.slotsOn_eq _).symm.trans hh.slotsOn_eq
  id_eq := hid
  room := hr
  formed := href.pageSize_eq.symm ▸ hh.formed
  view := funext hv

theorem Ready.ne_none (h : Ready t p page m) : m.locks.heldMode? t p ≠ none := by
  rw [h.locked]
  exact Option.some_ne_none _

/-- A changed copy is put into the pool. -/
theorem Loaded.finishEdit (h : Loaded s₀ s t p page file m) {copy : Page} {row : Row} {i : Nat}
    {x : Option Row} (hid : copy.id = page.id) (hx : ∀ row, x = some row → row.stored = row)
    (hrow : ∀ j, copy.row? j = if j = i then x else page.row? j)
    (hy : s₀.Yields t s.ledger p call
      (.changed p (Function.update (s.ledger.view t p) i x) row) (s.ledger.put t ⟨p, i⟩ x)) :
    Resumed stuck s₀ s t call p (m.finishEdit t true (.ok (copy, row))) := by
  have hcopy : copy.id = p := hid.trans h.id_eq
  have hl := h.matchesFiles.ledger_edited (h.ledger_eq.symm ▸ h.fits) h.ready.cached
    h.ready.locked hcopy
    hx hrow
  rw [finishEdit_of_cached row h.ready.active (h.ready.get? hid)]
  have htells : Reply.Tells { result := .ok { copy with dirtier := some t }, row := some row }
      (.changed p (Function.update (s.ledger.view t p) i x) row) := .changed hcopy fun j => by
    rw [← h.view, Function.update_apply]
    exact hrow j
  rw [← h.ledger_eq, ← hl] at hy
  exact .done htells (.yields h.room (h.ledger_eq ▸ hy)) h.ready.ne_none

theorem Loaded.take (h : Loaded s₀ s t p page file m) {row : Row} {i : Nat}
    (hr : row.rid = some ⟨p, i⟩) :
    Resumed stuck s₀ s t (.remove row) p (m.finishEdit t true (page.remove row)) := by
  have hrid : row.rid = some ⟨page.id, i⟩ := h.id_eq.symm ▸ hr
  rcases h.formed.remove_cases hrid with ⟨hn, he⟩ | ⟨hs, copy, he, hrow⟩
  · rw [he, h.id_eq, Store.finishEdit]
    refine .done (.vacant p i) (.yields h.room ?_) h.ready.ne_none
    rw [h.ledger_eq]
    exact .vacant h.fault hr (h.view ▸ hn)
  · rw [he]
    refine h.finishEdit (Page.remove_id he) (fun row hx => by cases hx) hrow ?_
    exact .remove h.fault hr (h.view ▸ hs)

theorem Loaded.place (h : Loaded s₀ s t p page file m) {row : Row} (hshort : row.Short)
    (ht : row.types = file.schema.types) (hn : page.freeSlots ≠ []) (table : TableId) :
    Resumed stuck s₀ s t (.insert table row) p (m.finishEdit t true (page.insert row)) := by
  obtain ⟨i, copy, he, hi, hfree, hfirst, hrow⟩ := h.formed.insert_first ht hn
  rw [he]
  rw [h.id_eq] at hrow ⊢
  refine h.finishEdit (i := i) (Page.insert_id he) (fun placed hx => ?_) hrow ?_
  · cases hx
    exact Row.Short.stored_eq hshort
  · exact .insert h.fault (h.slots.symm ▸ hi) (h.view ▸ hfree) (h.view ▸ hfirst)

/-- A search goes on from a page without free slots, which is given back or not. -/
theorem Loaded.skip {n : Nat} (h : Loaded s₀ s t (search.file.page n) page search.file m)
    (hf : m.catalog.file table = .ok search.file)
    (ht : search.row.types = search.file.schema.types) (hk : search.keep = true)
    (hn : search.next = n + 1) (hc : m.CountsPages search) (hfull : page.freeSlots = []) :
    Resumed (¬ m.GetsOn search) s₀ s t (.insert table search.row) (search.file.page n)
      (m.skipFull t (search.file.page n) search) := by
  have hpass : s₀.Passes t s.ledger (search.file.page n) := by
    refine ⟨h.fault, h.room, fun i hi => ?_⟩
    rw [h.slots] at hi
    exact h.view ▸ h.formed.freeSlots_eq_nil_iff.1 hfull i hi
  have hgo : ∀ l : LockTable, l.aborted = m.locks.aborted →
      Resumed (¬ m.GetsOn search) s₀ s t (.insert table search.row) (search.file.page n)
        ({ m with locks := l }.seek t search) := fun l hl => by
    rcases heads_seek { m with locks := l } t search hf ht hk (hc.congr rfl rfl)
        h.matchesFiles.indexed
      with ⟨q, m', he, hq, hpage, hledger, hcan⟩ | ⟨hstuck, m', he⟩
    · rw [he]
      exact .passed rfl (h.catalog_eq ▸ hf) rfl hpass hq (hn ▸ hpage) (h.canHave _ (hn ▸ hcan))
        (hledger.trans ((ledger_relock hl).trans h.ledger_eq))
    · rw [he]
      exact .endless rfl hpass fun hgets => hstuck (hgets.congr rfl rfl)
  rw [skipFull]
  split
  · exact hgo m.locks rfl
  · rw [releasePage]
    cases hr : m.locks.release t (search.file.page n) with
    | ok l => exact hgo l (LockTable.aborted_release hr)
    | error e =>
      have hheld : m.locks.holds t (search.file.page n) = true := by
        rw [LockTable.holds, h.ready.locked]
        rfl
      obtain ⟨lock, hlock⟩ := h.ready.changesLocked.consistent.get?_of_holds hheld
      rw [LockTable.release, Assoc.contains, hlock, Option.isSome_some, if_pos rfl] at hr
      cases hr

/-- The pool is full: of copies of the transaction alone, or others have had a part in it. -/
theorem resumed_full (hp : s.cache.pages.get? p = none) (hsize : s.cache.size = s₀.capacity)
    (hd : ∀ q page, s.cache.pages.get? q = some page → page.dirtier ≠ none)
    (hc : m.cache = s.cache) (hl : m.ledger = s.ledger) (hlock : m.locks.heldMode? t p ≠ none) :
    Resumed stuck s₀ s t call p (.refuse (.poolFull s₀.capacity), m) := by
  by_cases hother : ∃ q page, s.cache.pages.get? q = some page ∧ page.dirtier ≠ some t
  · obtain ⟨q, page, hq, ht⟩ := hother
    obtain ⟨u, hu⟩ := Option.ne_none_iff_exists'.1 (hd q page hq)
    exact .crowded hq hu (fun he => ht (he ▸ hu)) hc hl
  · have hown : ∀ q page, s.cache.pages.get? q = some page → page.dirtier = some t :=
      fun q page hq => by_contra fun ht => hother ⟨q, page, hq, ht⟩
    exact .done (.failed _) (hl.symm ▸ .crowded (not_room hp hsize hown)) hlock

/-- **What becomes of a call that has been granted its lock.** -/
theorem resumed (h : s.MatchesFiles) (hs : SameFaults s₀ s) (hk : s.Stocked s₀.capacity log)
    (hfit : s.ledger.Fits) (ha : t ∉ s.locks.aborted)
    (hl : s.locks.heldMode? t pending.request.page ≠ none)
    (hx : pending.request.mode = .exclusive →
      s.locks.heldMode? t pending.request.page = some .exclusive)
    (hq : pending.Heads t s call) (hplain : call.Plain) :
    Resumed (¬ pending.GetsOn s) s₀ s t call pending.request.page (s.resume pending) := by
  have hfound := found_load h hs hk ha hl
  have href := refreshes_load h.changesLocked.sound t pending.request.page
  rw [resume, hq.txn_eq]
  cases hload : s.load t pending.request.page with
  | mk result m =>
    rw [hload] at hfound href
    have hledger : m.ledger = s.ledger := hfit.eq_of_cut (href.cut h)
    have hlock := href.locks_eq.symm ▸ hl
    cases hfound with
    | crowded hp hsize hd hc => exact resumed_full hp hsize hd hc hledger hlock
    | faulty hr hf => exact .done (.failed _) (hledger.symm ▸ .yields hr (.faulty hf)) hlock
    | past hr hf hread hv =>
      cases hq with
      | fetch p access => exact .done (.past hv) (hledger.symm ▸ .yields hr (.fetch hf)) hlock
      | @remove row p i hrid =>
        exact .done (.nowhere p i) (hledger.symm ▸ .yields hr (.vacant hf hrid (hv i))) hlock
      | @insert table search n hfile _ _ hn hc =>
        -- the page has been counted, so the file has it
        have hlt : n < s.pageCount search.file := by
          have := hc.next_le
          have := hc.count_le
          omega
        have hfile' : s.catalog.file (search.file.page n).table = .ok search.file := by
          rw [TableFile.page, h.indexed _ _ hfile]
          exact hfile
        exact absurd hread (readPage_ne_missing hfile' rfl hlt _)
    | @page page file _ hr hf hid hh hv =>
      have hloaded := fun hx => loaded h hs hfit ha hx href hload hr hf hid hh hv
      cases hq with
      | fetch p access =>
        exact .done (.shown hid hv) (hledger.symm ▸ .yields hr (.fetch hf)) hlock
      | remove hrid => exact (hloaded (hx rfl)).take hrid
      | @insert table search n hfile ht hkeep hn hc =>
        have hfile' : file = search.file := by
          have hpage := hh.file_eq
          rw [TableFile.page, h.indexed _ _ hfile, hfile] at hpage
          exact (Except.ok.inj hpage).symm
        subst hfile'
        dsimp only
        split
        · rename_i hfull
          exact ((hloaded (hx rfl)).skip (href.catalog_eq.symm ▸ hfile) ht hkeep hn
            (hc.congr href.disk_eq href.pageSize_eq) hfull).mono fun _ hstuck hgets =>
              hstuck ((hgets search rfl).congr href.disk_eq href.pageSize_eq)
        · rename_i hfree
          rw [hkeep]
          exact (hloaded (hx rfl)).place hplain ht hfree table

end Store
end TableStore

import TableStore.Proofs.Pool.Move

/-!
# Steps are made of moves

Whatever a transaction does next, it does by moves, and the events of the step are those of the
moves.  What a call in progress has to remember for this is little: what it was asked to do, and
that a page whose lock it will give back was not locked before.

What an insert in progress has counted also has to agree with its file still, as long as nobody else
writes to it: then a page that the insert adds comes after all that are there.

## What is here

* `Call.Seeks`, `Call.Takes` — which rows a call puts into a table or takes away.
* `Pending.Fits` — a call in progress waits for what it was asked to do.
* `Store.CountsPages`, `Session.CountsPages` — what searches have counted agrees with their files.
* `Store.Carried` — a call has been carried on by moves, and still fits if it is in progress.
* `Store.carried_start`, `Store.carried_ask`, `Store.carried_wake`, `Store.moves_expire` — all
  parts of a call are of this kind.
* `Session.CallsFit` — changes are locked, and calls in progress fit.
* `Session.Step.moved` — a step consists of moves, and the calls still fit after it.
* `Session.Attempt.ends` — whatever a transaction may do next is a step as long as all files have
  room.
-/

set_option autoImplicit false
namespace TableStore

/-! ## What a call is about

A call in progress only says which lock it waits for and what it will do with the page.  That this
goes with the call that was made has to be kept up, and so has what a search has counted. -/

/-- The call puts the row into the table; the changed page goes into the pool or not. -/
inductive Call.Seeks : Call → TableId → Row → Bool → Prop where
  | insert (table : TableId) (row : Row) : Seeks (.insert table row) table row true
  | insertCopy (file : TableFile) (row : Row) : Seeks (.insertCopy file row) file.id row false

/-- The call takes the row away; the changed page goes into the pool or not. -/
inductive Call.Takes : Call → Row → Bool → Prop where
  | remove (row : Row) : Takes (.remove row) row true
  | removeCopy (file : TableFile) (row : Row) : Takes (.removeCopy file row) row false

/-- The file of the table that a call inserts into is one that may grow. -/
def Call.Served (serves : TableId → TableFile → Prop) (c : Catalog) : Call → Prop
  | .insert table _ => ∀ file, c.file table = .ok file → serves table file
  | .insertCopy file _ => serves file.id file
  | _ => True

/-- What a call of `t` in progress asks for is what the call is about.  The lock on a page that the
search for a slot will give back is not held yet. -/
inductive Pending.Fits (serves : TableId → TableFile → Prop) (l : LockTable) (t : TxnId)
    (call : Call) : Pending → Prop where
  | read {p : PageId} {access : Access} (hc : call = .fetch p access) :
      Fits serves l t call ⟨⟨t, p, access.mode⟩, .read⟩
  | place {table : TableId} {search : SlotSearch} {p : PageId}
      (hc : call.Seeks table search.row search.keep) (hs : serves table search.file)
      (hp : p.table = search.file.id)
      (hh : search.held = false → l.heldMode? t p = none) :
      Fits serves l t call ⟨⟨t, p, .exclusive⟩, .place search⟩
  | take {row : Row} {keep : Bool} {p : PageId} (hc : call.Takes row keep) :
      Fits serves l t call ⟨⟨t, p, .exclusive⟩, .take row keep⟩

variable {serves : TableId → TableFile → Prop} {t u : TxnId} {call : Call} {p : Pending}

theorem Call.Served.mono {serves' : TableId → TableFile → Prop} {c : Catalog}
    (h : call.Served serves c) (hs : ∀ table file, serves table file → serves' table file) :
    call.Served serves' c := by
  cases call with
  | insert table row => exact fun file hf => hs table file (h file hf)
  | insertCopy file row => exact hs file.id file h
  | _ => trivial

theorem Pending.Fits.txn_eq {l : LockTable} (h : p.Fits serves l t call) : p.request.txn = t := by
  cases h <;> rfl

/-- A call goes on fitting as long as its transaction is given no lock. -/
theorem Pending.Fits.mono {l m : LockTable} (h : p.Fits serves l t call)
    (hl : ∀ q, l.heldMode? t q = none → m.heldMode? t q = none) : p.Fits serves m t call := by
  cases h with
  | read hc => exact .read hc
  | place hc hs hp hh => exact .place hc hs hp fun h => hl _ (hh h)
  | take hc => exact .take hc

/-- A search has counted pages that its file has, and visited no more than it has counted.  If the
file is full, its pages would be counted in the same way now. -/
structure Store.CountsPages (s : Store) (search : SlotSearch) : Prop where
  next_le : search.next ≤ search.count
  count_le : search.count ≤ s.pageCount search.file
  full : TableFile.pageLimit ≤ s.wholePages search.file → search.count = s.pageCount search.file

/-- What a call in progress has counted agrees with the files. -/
def Pending.CountsPages (p : Pending) (s : Store) : Prop :=
  ∀ search, p.goal = .place search → s.CountsPages search

/-- If a call in progress searches for a slot, the search gets on. -/
def Pending.GetsOn (p : Pending) (s : Store) : Prop :=
  ∀ search, p.goal = .place search → s.GetsOn search

namespace Store

variable {sealed : Prop} {s m : Store}

/-- A call of `t` has been carried on from the store `s` as far as `run`.  It has done so by moves,
unless it never comes to an end. -/
structure Carried (sealed : Prop) (serves : TableId → TableFile → Prop) (t : TxnId) (call : Call)
    (s : Store) (run : Progress × Store) : Prop where
  moves : run.1.ends = true → Moves sealed serves t (s.outcomes t call run.1) s run.2
  fits : ∀ r, Running.of? call run.1 = some r →
    r.call = call ∧ r.pending.Fits serves run.2.locks t call
  counted : sealed → ∀ r, Running.of? call run.1 = some r → r.pending.CountsPages run.2

theorem CountsPages.congr {search : SlotSearch} (h : s.CountsPages search)
    (hd : m.disk = s.disk) (hz : m.pageSize = s.pageSize) : m.CountsPages search := by
  obtain ⟨hn, hc, hf⟩ := h
  rw [pageCount, wholePages, ← hd, ← hz] at *
  exact ⟨hn, hc, hf⟩

/-! ## Beginning -/

/-- A call that is answered bears the event of the last move. -/
theorem Carried.answered (h : Moves sealed serves t [] s m) {m' : Store} {reply : Reply} {e : Event}
    (he : s.outcome t call reply = e) (hm : Move sealed serves t [e] m m') :
    Carried sealed serves t call s (.done reply, m') where
  moves _ := by
    have := h.append (Moves.one hm)
    rw [← he] at this
    exact this
  fits _ hr := by cases hr
  counted _ _ hr := by cases hr

theorem Carried.refuse (h : Moves sealed serves t [] s m) (e : Error) :
    Carried sealed serves t call s (.refuse e, m) := by
  have he : s.outcome t call { result := .error e } = .refused t e := rfl
  exact .answered h he (.refuse m e)

theorem Carried.asking (h : Moves sealed serves t [] s m) (hf : p.Fits serves m.locks t call)
    (hc : sealed → p.CountsPages m) : Carried sealed serves t call s (.asking p, m) where
  moves _ := h
  fits r hr := by cases hr; exact ⟨rfl, hf⟩
  counted hs r hr := by cases hr; exact hc hs

theorem Carried.waiting (h : Moves sealed serves t [] s m) (hf : p.Fits serves m.locks t call)
    (hc : sealed → p.CountsPages m) : Carried sealed serves t call s (.waiting p, m) where
  moves _ := h
  fits r hr := by cases hr; exact ⟨rfl, hf⟩
  counted hs r hr := by cases hr; exact hc hs

theorem Carried.endless (m : Store) : Carried sealed serves t call s (.endless, m) where
  moves he := by cases he
  fits _ hr := by cases hr
  counted _ _ hr := by cases hr

theorem Carried.tryNext (h : Moves sealed serves t [] s m) {table : TableId} {search : SlotSearch}
    (hc : call.Seeks table search.row search.keep) (hs : serves table search.file)
    (hn : search.next < search.count)
    (hcount : sealed → search.count ≤ m.pageCount search.file ∧
      (TableFile.pageLimit ≤ m.wholePages search.file → search.count = m.pageCount search.file)) :
    Carried sealed serves t call s (m.tryNext t search, m) := by
  refine .asking h (.place hc hs rfl fun hh => ?_) fun hsealed search' he => ?_
  · simpa [holds, LockTable.holds] using hh
  · cases he
    exact ⟨hn, (hcount hsealed).1, (hcount hsealed).2⟩

/-- A file grows page by page, and has room for each of them if nobody else writes to it. -/
theorem moves_grown {table : TableId} {file : TableFile} (hs : serves table file) (s : Store)
    {n : Nat} (hn : sealed → TableFile.pageLimit ≤ s.wholePages file → s.pageCount file ≤ n)
    (hend : n < (s.grown file n).pageCount file) :
    Moves sealed serves t [] s (s.grown file n) := by
  have hone : ∀ d, (sealed → file.HasRoom d s.pageSize) →
      Moves sealed serves t [] s { s with disk := d } →
      Moves sealed serves t [] s { s with disk := (file.appendPage d s.pageSize).2 } :=
    fun d hroom h => h.append (.one (.append (s := { s with disk := d }) hs hroom))
  by_cases hsealed : sealed
  · exact TableFile.growPast_induction
      (P := fun d => Moves sealed serves t [] s { s with disk := d })
      (fun d hroom => hone d fun _ => hroom) (hn hsealed) hend (.done s)
  · exact TableFile.growUpTo_induction
      (P := fun d => Moves sealed serves t [] s { s with disk := d })
      (fun d => hone d fun h => absurd h hsealed) (.done s)

theorem Carried.seek (h : Moves sealed serves t [] s m) {table : TableId} {search : SlotSearch}
    (hc : call.Seeks table search.row search.keep) (hs : serves table search.file)
    (hcount : sealed → m.CountsPages search) :
    Carried sealed serves t call s (m.seek t search) := by
  rcases m.seek_cases t search with ⟨hlt, he⟩ | ⟨hge, ⟨hlt, he⟩ | ⟨-, he⟩⟩
  · rw [he]
    exact .tryNext h hc hs hlt fun hsealed => ⟨(hcount hsealed).count_le, (hcount hsealed).full⟩
  · rw [he]
    have hgrown := moves_grown (t := t) hs m
      (fun hsealed hfull => (hcount hsealed).full hfull ▸ hge) hlt
    exact .tryNext (m := m.grown search.file search.next) (h.append hgrown) hc hs hlt
      fun _ => ⟨Nat.le_refl _, fun _ => rfl⟩
  · rw [he]
    exact .endless _

theorem carried_startInsert {table : TableId} {file : TableFile} {row : Row} {keep : Bool}
    (hc : call.Seeks table row keep) (hs : serves table file) (s : Store) :
    Carried sealed serves t call s (s.startInsert t file row keep) := by
  rw [startInsert]
  split
  · exact .refuse (.done s) _
  · exact .seek (.done s) hc hs fun _ => ⟨Nat.zero_le _, Nat.le_refl _, fun _ => rfl⟩

theorem carried_startRemove {file : TableFile} {row : Row} {keep : Bool}
    (hc : call.Takes row keep) (s : Store) :
    Carried sealed serves t call s (s.startRemove t file row keep) := by
  rw [startRemove]
  split
  · exact .refuse (.done s) _
  · split
    · exact .refuse (.done s) _
    · exact .asking (.done s) (.take hc) fun _ _ he => by cases he

theorem carried_start (s : Store) (hc : call.Served serves s.catalog) :
    Carried sealed serves t call s (s.start t call) := by
  cases call with
  | fetch p access => exact .asking (.done s) (.read rfl) fun _ _ he => by cases he
  | insert table row =>
    rw [start]
    split
    · exact .refuse (.done s) _
    · split
      · exact .refuse (.done s) _
      · rename_i file hf
        exact carried_startInsert (.insert table row) (hc file hf) s
  | remove row =>
    rw [start]
    split
    · exact .refuse (.done s) _
    · split
      · exact .refuse (.done s) _
      · split
        · exact .refuse (.done s) _
        · exact carried_startRemove (.remove row) s
  | insertCopy file row => exact carried_startInsert (.insertCopy file row) hc s
  | removeCopy file row => exact carried_startRemove (.removeCopy file row) s

/-! ## With the lock

The page is locked and in memory, so that a copy of it can be changed.  The copy takes the place of
the page, and no room has to be made for it. -/

/-- A page that is in memory is replaced by its changed copy at once. -/
theorem install_of_cached {copy : Page} (ha : t ∉ s.locks.aborted)
    (hp : s.cache.pages.contains copy.id = true) :
    s.install t copy = (.ok { copy with dirtier := some t }, s.edited t copy) := by
  rw [install, if_neg (by simpa [LockTable.isAborted] using ha)]
  dsimp only
  rw [if_pos hp]
  rfl

/-- An edit that is to be kept comes to its end then. -/
theorem finishEdit_of_cached {page copy : Page} (row : Row) (ha : t ∉ s.locks.aborted)
    (hp : s.cache.pages.get? copy.id = some page) : s.finishEdit t true (.ok (copy, row)) =
      (.done ⟨.ok { copy with dirtier := some t }, some row⟩, s.edited t copy) := by
  have hcached : s.cache.pages.contains copy.id = true := by
    rw [Assoc.contains, hp, Option.isSome_some]
  rw [finishEdit]
  dsimp only
  rw [if_pos rfl, install_of_cached ha hcached]

theorem insert_row {page copy : Page} {row placed : Row}
    (h : page.insert row = .ok (copy, placed)) : { row with rid := placed.rid } = placed := by
  rw [Page.insert] at h
  split at h
  · cases h
  · split at h
    · cases h
    · cases h
      rfl

theorem remove_rid {page copy : Page} {row bare : Row} (h : page.remove row = .ok (copy, bare)) :
    ∃ r, row.rid = some r ∧ r.page = page.id := by
  rw [Page.remove] at h
  split at h
  · cases h
  · rename_i r hr
    split at h
    · cases h
    · rename_i hp
      exact ⟨r, hr, Decidable.not_not.1 hp⟩

/-- The lock is granted, and the page is in memory. -/
structure Ready (t : TxnId) (p : PageId) (page : Page) (s : Store) : Prop where
  changesLocked : s.ChangesLocked
  cached : s.cache.pages.get? p = some page
  locked : s.locks.heldMode? t p = some .exclusive
  active : t ∉ s.locks.aborted

theorem Ready.get? {q : PageId} {page copy : Page} (h : Ready t q page s)
    (hc : copy.id = page.id) : s.cache.pages.get? copy.id = some page := by
  rw [hc, h.changesLocked.sound.keyed _ _ h.cached, h.cached]

theorem Carried.insert (h : Moves sealed serves t [] s m) {q : PageId} {page : Page}
    (hr : Ready t q page m) {table : TableId} {file : TableFile} {row : Row} {keep : Bool}
    (hc : call.Seeks table row keep) (hs : serves table file) (hq : q.table = file.id) :
    Carried sealed serves t call s (m.finishEdit t keep (page.insert row)) := by
  cases he : page.insert row with
  | error e => exact .refuse h e
  | ok edit =>
    obtain ⟨copy, placed⟩ := edit
    cases hc with
    | insert =>
      have hrow : { row with rid := placed.rid } = placed := insert_row he
      rw [finishEdit_of_cached placed hr.active (hr.get? (Page.insert_id he))]
      exact .answered h (congrArg (Event.inserted t table) hrow)
        (.insert hr.cached hr.locked hr.active hs hq he)
    | insertCopy => exact .answered h rfl (.copy m copy)

theorem Carried.remove {q : PageId} (h : s.Refreshes q m) {page : Page} (hr : Ready t q page m)
    {row : Row} {keep : Bool} (hc : call.Takes row keep) :
    Carried sealed serves t call s (m.finishEdit t keep (page.remove row)) := by
  have hm : Moves sealed serves t [] s m := .one (.refresh h)
  cases he : page.remove row with
  | error e => exact .refuse hm e
  | ok edit =>
    obtain ⟨copy, bare⟩ := edit
    cases hc with
    | remove =>
      obtain ⟨r, hrid, hp⟩ := remove_rid he
      have ht := h.taken_eq t hrid (hp.trans (hr.changesLocked.sound.keyed _ _ hr.cached))
      rw [finishEdit_of_cached bare hr.active (hr.get? (Page.remove_id he))]
      exact .answered hm (congrArg (Event.removed t) ht.symm)
        (.remove hr.cached hr.locked hr.active he)
    | removeCopy => exact .answered hm rfl (.copy m copy)

theorem Carried.skipFull (h : Moves sealed serves t [] s m) {q : PageId} (ha : t ∉ m.locks.aborted)
    {table : TableId} {search : SlotSearch} (hc : call.Seeks table search.row search.keep)
    (hs : serves table search.file) (hcount : sealed → m.CountsPages search)
    (hd : search.held = false → ∀ page, m.cache.pages.get? q = some page → page.dirtier ≠ some t) :
    Carried sealed serves t call s (m.skipFull t q search) := by
  rw [Store.skipFull]
  split
  · exact .seek h hc hs hcount
  · rename_i hh
    rw [releasePage]
    cases hr : m.locks.release t q with
    | error e => exact .refuse h e
    | ok locks =>
      exact .seek (h.append (.one (.giveBack ha (hd (by simpa using hh)) hr))) hc hs
        fun hsealed => (hcount hsealed).congr rfl rfl

/-- What a call does once its lock has been granted, it does by moves. -/
theorem carried_resume (hg : s.ChangesLocked) {l : LockTable} (hf : p.Fits serves l t call)
    (hcount : sealed → p.CountsPages s)
    (hx : p.request.mode = .exclusive → s.locks.heldMode? t p.request.page = some .exclusive)
    (hl : s.locks.heldMode? t p.request.page ≠ none)
    (hd : l.heldMode? t p.request.page = none → ∀ page,
      s.cache.pages.get? p.request.page = some page → page.dirtier ≠ some t) :
    Carried sealed serves t call s (s.resume p) := by
  have href := refreshes_load hg.sound t p.request.page
  rw [resume, hf.txn_eq]
  cases hload : s.load t p.request.page with
  | mk result m =>
    rw [hload] at href
    have hm : Moves sealed serves t [] s m := .one (.refresh href)
    have hgm : m.ChangesLocked := hg.refresh href
    cases result with
    | error e => exact .refuse hm e
    | ok page =>
      obtain ⟨hp, ha⟩ := load_ok hload
      rw [← href.locks_eq] at ha hx hl
      cases hf with
      | read hc =>
        subst hc
        exact .answered hm rfl (.read hp hl)
      | place hc hs hq hh =>
        dsimp only
        split
        · refine .skipFull hm ha hc hs (fun hsealed => ?_) fun hheld page' hp' ht => ?_
          · exact (hcount hsealed _ rfl).congr href.disk_eq href.pageSize_eq
          · have hn : page'.dirtier ≠ none := by simp [ht]
            exact hd (hh hheld) page' ((href.dirty_iff hn).1 hp') ht
        · exact .insert hm ⟨hgm, hp, hx rfl, ha⟩ hc hs hq
      | take hc => exact .remove href ⟨hgm, hp, hx rfl, ha⟩ hc

/-! ## Asking and waiting -/

theorem carried_answer (hg : s.ChangesLocked) (hf : p.Fits serves s.locks t call)
    (hcount : sealed → p.CountsPages s) {a : Answer} {l : LockTable}
    (hm : LockTable.Looked s.locks p.request a l) :
    Carried sealed serves t call s ({ s with locks := l }.answer p a) := by
  have hlook : Moves sealed serves t [] s { s with locks := l } := .one (.look hf.txn_eq hm)
  cases a with
  | refused => exact .refuse hlook _
  | waiting =>
    refine .waiting hlook (hf.mono fun q hq => ?_) fun hsealed search he =>
      (hcount hsealed search he).congr rfl rfl
    rw [LockTable.heldMode?, hm.ungranted fun he => by cases he]
    exact hq
  | granted =>
    have hgot := hm.granted rfl p.request.page
    rw [if_pos rfl, hf.txn_eq] at hgot
    have hnew : Carried sealed serves t call { s with locks := l }
        ({ s with locks := l }.resume p) := by
      refine carried_resume (hg.look hm) (l := s.locks) hf
        (fun hsealed search he => (hcount hsealed search he).congr rfl rfl) (fun hx => ?_) ?_
        fun hn page hp hd => ?_
      · rw [hgot, hx, ite_self]
      · rw [hgot]
        exact Option.some_ne_none _
      · have := hg.owned t _ page hp hd
        rw [hn] at this
        cases this
    exact ⟨fun he => hlook.append (hnew.moves he), hnew.fits, hnew.counted⟩

theorem carried_ask (hg : s.ChangesLocked) (hf : p.Fits serves s.locks t call)
    (hcount : sealed → p.CountsPages s) : Carried sealed serves t call s (s.ask p) :=
  carried_answer hg hf hcount (LockTable.looked_ask hg.consistent p.request)

theorem carried_wake (hg : s.ChangesLocked) (hf : p.Fits serves s.locks t call)
    (hcount : sealed → p.CountsPages s) {run : Progress × Store} (hw : s.wake? p = some run) :
    Carried sealed serves t call s run := by
  have hm := LockTable.looked_wake hg.consistent p.request
  rw [wake?] at hw
  split at hw
  · cases hw
  · rename_i a l _ he
    rw [he] at hm
    cases hw
    exact carried_answer hg hf hcount hm

/-- When the time of a request is up, the events of the deadlock come first. -/
theorem moves_expire (hg : s.ChangesLocked) (hf : p.Fits serves s.locks t call)
    (hcount : sealed → p.CountsPages s) :
    ((s.expire p).1.ends = true → Moves sealed serves t
      (s.strikes p.request ++ s.outcomes t call (s.expire p).1) s (s.expire p).2) ∧
    (∀ r, Running.of? call (s.expire p).1 = some r →
      r.call = call ∧ r.pending.Fits serves (s.expire p).2.locks t call) ∧
    (sealed → ∀ r, Running.of? call (s.expire p).1 = some r →
      r.pending.CountsPages (s.expire p).2) := by
  rw [strikes, expire]
  rcases LockTable.expire_cases hg.consistent p.request with ⟨l, he, hm⟩ | ⟨l, he, hm⟩ | ⟨l, he, hm⟩
  · rw [he]
    have hc := carried_answer hg hf hcount hm
    exact ⟨hc.moves, hc.fits, hc.counted⟩
  · rw [he]
    have hc := carried_answer hg hf hcount hm
    exact ⟨hc.moves, hc.fits, hc.counted⟩
  · rw [he, hf.txn_eq]
    have hstrike : Moves sealed serves t [.struck t (s.locks.victimsOf t)] s _ :=
      .one (.strike hf.txn_eq hm)
    have hd := discarded_foldl_rollBack (s := { s with locks := l }.bump .deadlocks)
      (hm.same.consistent hg.consistent) hg.sound (s.locks.victimsOf t)
    refine ⟨fun _ => hstrike, fun r hr => ?_, fun hsealed r hr search hgoal => ?_⟩
    · cases hr
      refine ⟨rfl, hf.mono fun q hq => (hd.heldMode?_eq t q).trans ?_⟩
      have hs : l.heldMode? t q = none := (hm.same.heldMode?_eq t q).trans hq
      exact (congrArg _ hs).trans (ite_self _)
    · cases hr
      obtain ⟨cache, locks, stats, hrest⟩ := hd.rest
      have hdisk := congrArg Store.disk hrest
      have hsize := congrArg Store.pageSize hrest
      exact (hcount hsealed search hgoal).congr hdisk hsize

/-! ## Getting to the end

What a call does in one go comes to an end if its search gets on.  That is so as long as its file
has room. -/

/-- A search gets on if its file has room. -/
theorem CountsPages.getsOn {search : SlotSearch} (h : s.CountsPages search)
    (hroom : search.file.HasRoom s.disk s.pageSize) : s.GetsOn search := by
  by_cases hlt : search.next < search.count
  · exact Or.inl hlt
  · exact Or.inr (hroom.growPast (Nat.le_trans h.next_le h.count_le)).2

theorem GetsOn.congr {search : SlotSearch} (h : s.GetsOn search) (hd : m.disk = s.disk)
    (hz : m.pageSize = s.pageSize) : m.GetsOn search := by
  rw [GetsOn, grown, hd, hz]
  exact h

theorem ends_finishEdit (s : Store) (t : TxnId) (keep : Bool) (edit : Except Error (Page × Row)) :
    (s.finishEdit t keep edit).1.ends = true := by
  cases edit with
  | error e => rfl
  | ok result =>
    rw [finishEdit]
    split <;> rfl

theorem ends_startInsert {file : TableFile} (h : file.HasRoom s.disk s.pageSize) (t : TxnId)
    (row : Row) (keep : Bool) : (s.startInsert t file row keep).1.ends = true := by
  rw [startInsert]
  split
  · rfl
  · have hcount : s.CountsPages ⟨file, row, 0, s.pageCount file, false, keep⟩ :=
      ⟨Nat.zero_le _, Nat.le_refl _, fun _ => rfl⟩
    exact ends_seek (hcount.getsOn h) t

theorem ends_startRemove (s : Store) (t : TxnId) (file : TableFile) (row : Row) (keep : Bool) :
    (s.startRemove t file row keep).1.ends = true := by
  rw [startRemove]
  split
  · rfl
  · split <;> rfl

/-- A call comes to its first request or to an answer if the file that it inserts into has room. -/
theorem ends_start (hc : call.Served (fun _ file => file.HasRoom s.disk s.pageSize) s.catalog) :
    (s.start t call).1.ends = true := by
  cases call with
  | fetch p access => rfl
  | insert table row =>
    rw [start]
    split
    · rfl
    · split
      · rfl
      · rename_i file hf
        exact ends_startInsert (hc file hf) t row true
  | remove row =>
    rw [start]
    split
    · rfl
    · split
      · rfl
      · split
        · rfl
        · exact ends_startRemove s t _ row true
  | insertCopy file row => exact ends_startInsert hc t row false
  | removeCopy file row => exact ends_startRemove s t file row false

/-- A page that is given back does not keep a search from getting on. -/
theorem ends_skipFull {search : SlotSearch} (h : s.GetsOn search) (t : TxnId) (q : PageId) :
    (s.skipFull t q search).1.ends = true := by
  rw [skipFull]
  split
  · exact ends_seek h t
  · rw [releasePage]
    cases s.locks.release t q with
    | error e => rfl
    | ok l => exact ends_seek (s := { s with locks := l }) (h.congr rfl rfl) t

/-- With its lock a call comes to its answer or to the next request. -/
theorem ends_resume (hs : s.cache.Sound) (h : p.GetsOn s) : (s.resume p).1.ends = true := by
  have href := refreshes_load hs p.request.txn p.request.page
  rw [resume]
  cases hload : s.load p.request.txn p.request.page with
  | mk result m =>
    rw [hload] at href
    cases result with
    | error e => rfl
    | ok page =>
      cases hgoal : p.goal with
      | read => rfl
      | take row keep => exact ends_finishEdit m _ keep _
      | place search =>
        dsimp only
        split
        · exact ends_skipFull ((h search hgoal).congr href.disk_eq href.pageSize_eq) _ _
        · exact ends_finishEdit m _ search.keep _

theorem ends_answer (hs : s.cache.Sound) (h : p.GetsOn s) (l : LockTable) (a : Answer) :
    ({ s with locks := l }.answer p a).1.ends = true := by
  cases a with
  | refused => rfl
  | waiting => rfl
  | granted =>
    exact ends_resume (s := { s with locks := l }) hs fun search he => (h search he).congr rfl rfl

theorem ends_ask (hs : s.cache.Sound) (h : p.GetsOn s) : (s.ask p).1.ends = true :=
  ends_answer hs h _ _

theorem ends_wake (hs : s.cache.Sound) (h : p.GetsOn s) {run : Progress × Store}
    (hw : s.wake? p = some run) : run.1.ends = true := by
  rw [wake?] at hw
  split at hw
  · cases hw
  · cases hw
    exact ends_answer hs h _ _

/-- So it does when its time is up, whatever comes of that. -/
theorem ends_expire (hs : s.cache.Sound) (h : p.GetsOn s) : (s.expire p).1.ends = true := by
  rw [expire]
  split
  · exact ends_answer hs h _ _
  · exact ends_answer hs h _ _
  · rfl

end Store

/-! ## Steps -/

namespace Session

/-- The action is a call that may make a file grow. -/
def Action.Served (serves : TableId → TableFile → Prop) (c : Catalog) : Action → Prop
  | .begin call => call.Served serves c
  | _ => True

theorem Action.Served.of_all (h : ∀ table file, serves table file) {a : Action} {c : Catalog} :
    a.Served serves c := by
  cases a with
  | begin call =>
    cases call with
    | insert table row => exact fun file _ => h table file
    | insertCopy file row => exact h file.id file
    | _ => trivial
  | _ => trivial

/-- Uncommitted changes are protected, and the calls in progress fit. -/
structure CallsFit (serves : TableId → TableFile → Prop) (σ : Session) : Prop where
  changesLocked : σ.store.ChangesLocked
  fits : ∀ t r, σ.running t = some r → r.pending.Fits serves σ.store.locks t r.call

variable {sealed : Prop} {σ σ' : Session} {a : Action} {es : List Event}

theorem CallsFit.idle {s : Store} (h : s.ChangesLocked) : (idle s).CallsFit serves :=
  ⟨h, fun _ _ hr => by cases hr⟩

/-- Whoever goes on, the calls of the others fit as before if nobody else is given a lock. -/
theorem fits_carry {run : Progress × Store}
    (h : ∀ u r, σ.running u = some r → r.pending.Fits serves σ.store.locks u r.call)
    (hl : ∀ u, u ≠ t → ∀ q, σ.store.locks.heldMode? u q = none →
      run.2.locks.heldMode? u q = none)
    (hf : ∀ r, Running.of? call run.1 = some r →
      r.call = call ∧ r.pending.Fits serves run.2.locks t call)
    (u : TxnId) (r : Running) (hr : (σ.carry t call run).running u = some r) :
    r.pending.Fits serves run.2.locks u r.call := by
  by_cases hu : u = t
  · subst hu
    rw [Session.running_carry_self] at hr
    obtain ⟨rfl, hfit⟩ := hf r hr
    exact hfit
  · rw [Session.running_carry_of_ne hu] at hr
    exact (h u r hr).mono (hl u hu)

theorem CallsFit.carry (h : σ.CallsFit serves) {run : Progress × Store}
    (hm : Store.Moves sealed serves t es σ.store run.2)
    (hf : ∀ r, Running.of? call run.1 = some r →
      r.call = call ∧ r.pending.Fits serves run.2.locks t call) :
    (σ.carry t call run).CallsFit serves where
  changesLocked := hm.changesLocked h.changesLocked
  fits := fits_carry h.fits (fun _ hu _ => hm.heldMode?_none h.changesLocked hu) hf

theorem CallsFit.stay (h : σ.CallsFit serves) {s : Store} (hn : σ.running t = none)
    (hm : Store.Moves sealed serves t es σ.store s) : { σ with store := s }.CallsFit serves where
  changesLocked := hm.changesLocked h.changesLocked
  fits u r hr := by
    have hu : u ≠ t := fun he => by rw [he, hn] at hr; cases hr
    exact (h.fits u r hr).mono fun q => hm.heldMode?_none h.changesLocked hu

/-- What the calls in progress have counted agrees with the files. -/
def CountsPages (σ : Session) : Prop :=
  ∀ t r, σ.running t = some r → r.pending.CountsPages σ.store

/-- What a step of `t` does: it makes moves, and the calls in progress still fit.  If nobody else
writes to the files, what the call of `t` has counted agrees with them. -/
structure Moved (sealed : Prop) (serves : TableId → TableFile → Prop) (t : TxnId) (es : List Event)
    (σ σ' : Session) : Prop where
  moves : Store.Moves sealed serves t es σ.store σ'.store
  callsFit : σ'.CallsFit serves
  counted : sealed → ∀ r, σ'.running t = some r → r.pending.CountsPages σ'.store
  others : ∀ u, u ≠ t → σ'.running u = σ.running u

theorem CallsFit.moved (h : σ.CallsFit serves) {run : Progress × Store}
    (hm : Store.Moves sealed serves t es σ.store run.2)
    (hf : ∀ r, Running.of? call run.1 = some r →
      r.call = call ∧ r.pending.Fits serves run.2.locks t call)
    (hc : sealed → ∀ r, Running.of? call run.1 = some r → r.pending.CountsPages run.2) :
    Moved sealed serves t es σ (σ.carry t call run) where
  moves := hm
  callsFit := h.carry hm hf
  counted hs r hr := hc hs r (running_carry_self.symm.trans hr)
  others _ hu := running_carry_of_ne hu

/-- **A step consists of moves**, and its events are theirs. -/
theorem Step.moved (h : Step t a σ es σ') (ha : a.Served serves σ.store.catalog)
    (ho : σ.CallsFit serves) (hcount : sealed → σ.CountsPages) : Moved sealed serves t es σ σ' := by
  cases h with
  | begin call _ he =>
    have hc : Store.Carried sealed serves t call _ _ := Store.carried_start σ.store ha
    exact ho.moved (hc.moves he) hc.fits hc.counted
  | ask hr he =>
    have hc := Store.carried_ask ho.changesLocked (ho.fits _ _ hr) fun hs => hcount hs _ _ hr
    exact ho.moved (hc.moves he) hc.fits hc.counted
  | wake hr hw he =>
    have hc := Store.carried_wake ho.changesLocked (ho.fits _ _ hr) (fun hs => hcount hs _ _ hr) hw
    exact ho.moved (hc.moves he) hc.fits hc.counted
  | expire hr he =>
    obtain ⟨hm, hf, hc⟩ :=
      Store.moves_expire ho.changesLocked (ho.fits _ _ hr) fun hs => hcount hs _ _ hr
    exact ho.moved (hm he) hf hc
  | commit hn =>
    have hm : Store.Moves sealed serves t _ σ.store (σ.store.commit t).2 := .one (.commit σ.store)
    exact ⟨hm, ho.stay hn hm, fun _ r hr => absurd hr (by simp [hn]), fun _ _ => rfl⟩
  | abort hn =>
    have hm : Store.Moves sealed serves t _ σ.store (σ.store.abort t) := .one (.abort σ.store)
    exact ⟨hm, ho.stay hn hm, fun _ r hr => absurd hr (by simp [hn]), fun _ _ => rfl⟩

/-! ### Steps that can be taken

A step is what a call does in one go, if that comes to an end.  So nothing that a transaction may do
is left out as long as all files have room. -/

/-- The transaction `t` begins a call or goes on with the one in progress, and the call comes as far
as `run`, or never to an end. -/
inductive Attempt (t : TxnId) (σ : Session) : Action → Progress × Store → Prop where
  | begin (call : Call) (h : σ.running t = none) : Attempt t σ (.begin call) (σ.store.start t call)
  | ask {call : Call} {p : Pending} (h : σ.running t = some ⟨call, p, false⟩) :
      Attempt t σ .ask (σ.store.ask p)
  | wake {call : Call} {p : Pending} {run : Progress × Store}
      (h : σ.running t = some ⟨call, p, true⟩) (hw : σ.store.wake? p = some run) :
      Attempt t σ .wake run
  | expire {call : Call} {p : Pending} (h : σ.running t = some ⟨call, p, true⟩) :
      Attempt t σ .expire (σ.store.expire p)

variable {run : Progress × Store}

/-- A search in progress gets on, since its file has room. -/
theorem CallsFit.getsOn (ho : σ.CallsFit serves) (hc : σ.CountsPages)
    (hroom : ∀ table file, serves table file → file.HasRoom σ.store.disk σ.store.pageSize)
    {r : Running} (hr : σ.running t = some r) : r.pending.GetsOn σ.store := by
  intro search hgoal
  have hcount := hc t r hr search hgoal
  have hfits := ho.fits t r hr
  generalize r.pending = p at hfits hgoal
  cases hfits with
  | read => cases hgoal
  | take => cases hgoal
  | place _ hserves =>
    cases hgoal
    exact hcount.getsOn (hroom _ _ hserves)

/-- **Whatever a transaction attempts comes to an end**, as long as all files have room. -/
theorem Attempt.ends (h : Attempt t σ a run) (ha : a.Served serves σ.store.catalog)
    (ho : σ.CallsFit serves) (hc : σ.CountsPages)
    (hroom : ∀ table file, serves table file → file.HasRoom σ.store.disk σ.store.pageSize) :
    run.1.ends = true := by
  have hs := ho.changesLocked.sound
  cases h with
  | begin call => exact Store.ends_start (ha.mono hroom)
  | ask hr => exact Store.ends_ask hs (ho.getsOn hc hroom hr)
  | wake hr hw => exact Store.ends_wake hs (ho.getsOn hc hroom hr) hw
  | expire hr => exact Store.ends_expire hs (ho.getsOn hc hroom hr)

end Session
end TableStore

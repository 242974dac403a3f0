import Mathlib.Logic.Relation
import TableStore.Proofs.Lock.Alone
import TableStore.Proofs.Page.Formed
import TableStore.Proofs.Pool.Step

/-!
# Calls where nobody else runs

Where a single thread makes all calls, a call runs to its answer before the next one begins, and a
request that has to wait runs out of time at once.  All that such a call does to a store is put
together of a few changes, and of at most one edit of a page at its end.

Nothing is said here about who holds which lock, so this also covers transactions that have given
back locks by hand.  Since nobody else adds pages, what an insert has counted is what its file has.

## What is here

* `Store.NobodyWaits` — nobody waits, a victim holds nothing, and the cache is sound.
* `Store.Change` — one change, and `Store.Ended` — the end of a call.
* `Store.Reached` — how far a call has come by changes; `Store.reached_start`, `Store.reached_ask`
  and `Store.reached_expire` say that all of its parts are of this kind.
* `Store.ComesTo` — a call where nobody else runs, at any point; `Store.finish_changes` — the whole
  of it.
* `Store.perform_of_finish` — a call that comes to its answer does so in the looks that it has.
-/

set_option autoImplicit false
namespace TableStore

/-! ## What a call may do -/

/-- Whether the changed page of a call goes into the pool. -/
def Call.keeps : Call → Bool
  | .insert _ _ => true
  | .remove _ => true
  | _ => false

/-- The file that a call may add pages to. -/
def Call.Grows (c : Catalog) : Call → TableFile → Prop
  | .insert table _, file => c.file table = .ok file
  | .insertCopy file _, file' => file' = file
  | _, _ => False

/-- What is to be done with a page goes with what the call may do. -/
def Goal.Suits (grows : TableFile → Prop) (keeps : Bool) : Goal → Prop
  | .read => keeps = false
  | .place search => search.keep = keeps ∧ grows search.file
  | .take _ keep => keep = keeps

/-- A search has counted all pages of its file, and visited no more of them. -/
structure Store.CountsAll (s : Store) (search : SlotSearch) : Prop where
  next_le : search.next ≤ search.count
  count_eq : search.count = s.pageCount search.file

/-- If a call in progress searches for a slot, it has counted all pages. -/
def Pending.CountsAll (p : Pending) (s : Store) : Prop :=
  ∀ search, p.goal = .place search → s.CountsAll search

namespace Store

/-- Nobody waits, a victim holds nothing, and the cache is sound. -/
structure NobodyWaits (s : Store) : Prop where
  locks : s.locks.NobodyWaits
  sound : s.cache.Sound

theorem Fresh.nobodyWaits {s : Store} (h : s.Fresh) : s.NobodyWaits :=
  ⟨h.locks_eq ▸ .empty, h.cache_eq ▸ .empty⟩

/-! ## Changes

On its way a call reads and drops pages, takes locks and gives them back, adds empty pages and
strikes others.  Only its end changes a page, so it is kept apart. -/

/-- One change that a call of `t` makes.  Only files with `grows` are added to. -/
inductive Change (t : TxnId) (grows : TableFile → Prop) : Store → Store → Prop where
  | refresh {s s' : Store} {p : PageId} (h : s.Refreshes p s') : Change t grows s s'
  | giveBack {s : Store} {p : PageId} {m : LockTable} (h : s.locks.release t p = .ok m) :
      Change t grows s { s with locks := m }
  | append {s : Store} {file : TableFile} (h : grows file)
      (hroom : file.HasRoom s.disk s.pageSize) :
      Change t grows s { s with disk := (file.appendPage s.disk s.pageSize).2 }
  | look {s : Store} {r : Request} {a : Answer} {m : LockTable} (ht : r.txn = t)
      (h : LockTable.Looked s.locks r a m) (hw : ∀ p, m.waitingAt p = s.locks.waitingAt p) :
      Change t grows s { s with locks := m }
  | strike {s : Store} {r : Request} {us : List TxnId} {m : LockTable} (ht : r.txn = t)
      (h : LockTable.Struck s.locks r us m) (hw : ∀ p, m.waitingAt p = s.locks.waitingAt p) :
      Change t grows s (us.foldl rollBack ({ s with locks := m }.bump .deadlocks))

/-- Several changes. -/
def Changes (t : TxnId) (grows : TableFile → Prop) : Store → Store → Prop :=
  Relation.ReflTransGen (Change t grows)

/-- How a call of `t` ends that has made its changes: a page is edited, or nothing more happens. -/
inductive Ended (t : TxnId) (keeps : Bool) (m : Store) : Reply → Store → Prop where
  | plain {reply : Reply} (h : keeps = true → ∃ e, reply.result = .error e) :
      Ended t keeps m reply m
  | edit {page copy : Page} {row : Option Row} (hk : keeps = true) (ha : t ∉ m.locks.aborted)
      (hp : m.cache.pages.get? copy.id = some page)
      (hf : ∀ size schema, page.Formed size schema → copy.Formed size schema)
      (hb : copy.beforeImage = page.beforeImage) :
      Ended t keeps m ⟨.ok { copy with dirtier := some t }, row⟩ (m.edited t copy)

variable {t : TxnId} {grows : TableFile → Prop} {keeps : Bool} {s m s' : Store} {reply : Reply}

theorem waitingAt_foldl_rollBack (s : Store) (us : List TxnId) (p : PageId) :
    (us.foldl rollBack s).locks.waitingAt p = s.locks.waitingAt p := by
  refine List.foldlRecOn us rollBack
    (motive := fun m => m.locks.waitingAt p = s.locks.waitingAt p) rfl fun m hm u _ => ?_
  exact (LockTable.waitingAt_congr (LockTable.waiting?_releaseAll m.locks u p)).trans hm

/-- The store after a deadlock: its victims have lost their changes and their locks. -/
theorem discarded_strike (h : s.NobodyWaits) {r : Request} {us : List TxnId} {l : LockTable}
    (hl : LockTable.Struck s.locks r us l) :
    Discarded us ({ s with locks := l }.bump .deadlocks)
      (us.foldl rollBack ({ s with locks := l }.bump .deadlocks)) :=
  discarded_foldl_rollBack (s := { s with locks := l }.bump .deadlocks) hl.consistent h.sound us

theorem Change.nobodyWaits (hc : Change t grows s s') (h : s.NobodyWaits) : s'.NobodyWaits := by
  cases hc with
  | refresh hr => exact ⟨hr.locks_eq ▸ h.locks, hr.sound⟩
  | giveBack hr => exact ⟨h.locks.release hr, h.sound⟩
  | append => exact ⟨h.locks, h.sound⟩
  | look _ hl hw => exact ⟨h.locks.looked hl hw, h.sound⟩
  | @strike _ us l _ hl hw =>
    have hd := discarded_strike h hl
    refine ⟨⟨hd.consistent, fun u hu => ?_, fun p => ?_⟩, hd.sound⟩
    · rw [aborted_foldl_rollBack] at hu
      rw [hd.holdings]
      split
      · rfl
      · rename_i hn
        exact (hl.holdings_eq u).trans
          (h.locks.marked u (((hl.mem_aborted u).1 hu).resolve_right hn))
    · exact (waitingAt_foldl_rollBack _ us p).trans ((hw p).trans (h.locks.quiet p))

theorem Changes.nobodyWaits (hc : Changes t grows s s') (h : s.NobodyWaits) : s'.NobodyWaits := by
  induction hc with
  | refl => exact h
  | tail _ hc ih => exact hc.nobodyWaits ih

theorem Ended.nobodyWaits (he : Ended t keeps m reply s') (h : m.NobodyWaits) : s'.NobodyWaits := by
  cases he with
  | plain => exact h
  | edit => exact ⟨h.locks, h.sound.put fun hc => by cases hc⟩

/-! ## How far a call has come -/

theorem CountsAll.congr {search : SlotSearch} (h : s.CountsAll search) (hd : m.disk = s.disk)
    (hz : m.pageSize = s.pageSize) : m.CountsAll search := by
  obtain ⟨hn, hc⟩ := h
  rw [pageCount, ← hd, ← hz] at hc
  exact ⟨hn, hc⟩

/-- A call of `t` that was begun in the store `s` has come as far as `run`.  While its request
waits, the store is but for that request as it was when the lock was asked for.  If the call never
comes to an end, the file that it adds pages to is full. -/
def Reached (t : TxnId) (grows : TableFile → Prop) (keeps : Bool) (s : Store) :
    Progress × Store → Prop
  | (.done reply, s') => ∃ m, Changes t grows s m ∧ Ended t keeps m reply s'
  | (.asking p, m) =>
    Changes t grows s m ∧ p.request.txn = t ∧ p.goal.Suits grows keeps ∧ p.CountsAll m
  | (.waiting p, w) => ∃ m,
    Changes t grows s m ∧ p.request.txn = t ∧ p.goal.Suits grows keeps ∧ p.CountsAll m ∧
      (m.locks.ask p.request).1 = .waiting ∧ w = { m with locks := (m.locks.ask p.request).2 }
  | (.endless, m) => ∃ file, grows file ∧ TableFile.pageLimit ≤ m.wholePages file

theorem reached_refuse (hm : Changes t grows s m) (e : Error) :
    Reached t grows keeps s (.refuse e, m) :=
  ⟨m, hm, .plain fun _ => ⟨e, rfl⟩⟩

theorem reached_seek (hm : Changes t grows s m) {search : SlotSearch} (hk : search.keep = keeps)
    (hg : grows search.file) (hc : m.CountsAll search) :
    Reached t grows keeps s (m.seek t search) := by
  rcases m.seek_cases t search with ⟨hlt, he⟩ | ⟨hge, ⟨hlt, he⟩ | ⟨hend, he⟩⟩
  · rw [he]
    refine ⟨hm, rfl, ⟨hk, hg⟩, fun search' hs => ?_⟩
    cases hs
    exact ⟨hlt, hc.count_eq⟩
  · rw [he]
    have hgrown : Changes t grows s (m.grown search.file search.next) :=
      TableFile.growPast_induction (P := fun d => Changes t grows s { m with disk := d })
        (fun d hroom hd => hd.tail (.append (s := { m with disk := d }) hg hroom))
        (fun _ => Nat.le_trans (Nat.le_of_eq hc.count_eq.symm) hge) hlt hm
    refine ⟨hgrown, rfl, ⟨hk, hg⟩, fun search' hs => ?_⟩
    cases hs
    exact ⟨hlt, rfl⟩
  · rw [he]
    exact ⟨search.file, hg, TableFile.full_of_growPast hend⟩

theorem reached_startInsert {file : TableFile} (hg : grows file) (s : Store) (row : Row) :
    Reached t grows keeps s (s.startInsert t file row keeps) := by
  rw [startInsert]
  split
  · exact reached_refuse .refl _
  · exact reached_seek .refl rfl hg ⟨Nat.zero_le _, rfl⟩

theorem reached_startRemove (s : Store) (file : TableFile) (row : Row) :
    Reached t grows keeps s (s.startRemove t file row keeps) := by
  rw [startRemove]
  split
  · exact reached_refuse .refl _
  · split
    · exact reached_refuse .refl _
    · exact ⟨.refl, rfl, rfl, fun _ he => by cases he⟩

theorem reached_start (s : Store) (t : TxnId) (call : Call) :
    Reached t (call.Grows s.catalog) call.keeps s (s.start t call) := by
  cases call with
  | fetch p access => exact ⟨.refl, rfl, rfl, fun _ he => by cases he⟩
  | insert table row =>
    rw [start]
    split
    · exact reached_refuse .refl _
    · split
      · exact reached_refuse .refl _
      · rename_i file hf
        exact reached_startInsert hf s row
  | remove row =>
    rw [start]
    split
    · exact reached_refuse .refl _
    · split
      · exact reached_refuse .refl _
      · split
        · exact reached_refuse .refl _
        · rename_i file _
          exact reached_startRemove s file row
  | insertCopy file row =>
    have hg : (Call.insertCopy file row).Grows s.catalog file := rfl
    exact reached_startInsert hg s row
  | removeCopy file row => exact reached_startRemove s file row

/-! ### With the lock -/

/-- The page that has been loaded is edited if it is to be kept. -/
theorem reached_finishEdit (hm : Changes t grows s m) (ha : t ∉ m.locks.aborted) {page : Page}
    (hp : m.cache.pages.get? page.id = some page) {edit : Except Error (Page × Row)}
    (he : ∀ copy row, edit = .ok (copy, row) → copy.id = page.id ∧
      copy.beforeImage = page.beforeImage ∧
      ∀ size schema, page.Formed size schema → copy.Formed size schema) :
    Reached t grows keeps s (m.finishEdit t keeps edit) := by
  cases hr : edit with
  | error e => exact reached_refuse hm e
  | ok result =>
    obtain ⟨copy, row⟩ := result
    obtain ⟨hid, hb, hf⟩ := he copy row hr
    cases keeps with
    | true =>
      have hcached : m.cache.pages.get? copy.id = some page := hid ▸ hp
      rw [finishEdit_of_cached row ha hcached]
      exact ⟨m, hm, .edit rfl ha hcached hf hb⟩
    | false => exact ⟨m, hm, .plain fun hk => by cases hk⟩

theorem reached_skipFull (hm : Changes t grows s m) (q : PageId) {search : SlotSearch}
    (hk : search.keep = keeps) (hg : grows search.file) (hc : m.CountsAll search) :
    Reached t grows keeps s (m.skipFull t q search) := by
  rw [skipFull]
  split
  · exact reached_seek hm hk hg hc
  · rw [releasePage]
    cases hr : m.locks.release t q with
    | error e => exact reached_refuse hm e
    | ok locks => exact reached_seek (hm.tail (.giveBack hr)) hk hg (hc.congr rfl rfl)

theorem reached_resume (h : m.NobodyWaits) (hm : Changes t grows s m) {p : Pending}
    (ht : p.request.txn = t) (hs : p.goal.Suits grows keeps) (hc : p.CountsAll m) :
    Reached t grows keeps s (m.resume p) := by
  have href := refreshes_load h.sound t p.request.page
  rw [resume, ht]
  cases hload : m.load t p.request.page with
  | mk result m' =>
    rw [hload] at href
    have hm' : Changes t grows s m' := hm.tail (.refresh href)
    cases result with
    | error e => exact reached_refuse hm' e
    | ok page =>
      obtain ⟨hp, ha⟩ := load_ok hload
      rw [← href.locks_eq] at ha
      have hid := href.sound.keyed _ _ hp
      dsimp only
      cases hgoal : p.goal with
      | read =>
        rw [hgoal] at hs
        exact ⟨m', hm', .plain fun hk => by rw [hs] at hk; cases hk⟩
      | take row keep =>
        rw [hgoal] at hs
        obtain rfl : keep = keeps := hs
        exact reached_finishEdit hm' ha (hid.symm ▸ hp) fun copy bare he =>
          ⟨Page.remove_id he, Page.remove_beforeImage he, fun size schema hf => (hf.remove he).1⟩
      | place search =>
        have hcount := (hc search hgoal).congr href.disk_eq href.pageSize_eq
        rw [hgoal] at hs
        obtain ⟨rfl, hg⟩ := hs
        dsimp only
        split
        · exact reached_skipFull hm' _ rfl hg hcount
        · exact reached_finishEdit hm' ha (hid.symm ▸ hp) fun copy placed he =>
            ⟨Page.insert_id he, Page.insert_beforeImage he, fun size schema hf => (hf.insert he).1⟩

/-! ### Asking -/

theorem reached_ask (h : s.NobodyWaits) {p : Pending}
    (hr : Reached t grows keeps s (.asking p, m)) : Reached t grows keeps s (m.ask p) := by
  obtain ⟨hm, ht, hs, hcount⟩ := hr
  have hquiet := hm.nobodyWaits h
  have hlook := LockTable.looked_ask hquiet.locks.consistent p.request
  have hwaiting := LockTable.waitingAt_ask (l := m.locks) (r := p.request)
  rw [ask]
  cases ha : m.locks.ask p.request with
  | mk a l =>
    rw [ha] at hlook hwaiting
    have hchange : a ≠ .waiting → Change t grows m { m with locks := l } :=
      fun hn => .look ht hlook (hwaiting hn)
    cases a with
    | refused => exact reached_refuse (hm.tail (hchange (by simp))) _
    | waiting => exact ⟨m, hm, ht, hs, hcount, by rw [ha], by rw [ha]⟩
    | granted =>
      have hc := hchange (by simp)
      exact reached_resume (hc.nobodyWaits hquiet) (hm.tail hc) ht hs fun search he =>
        (hcount search he).congr rfl rfl

theorem reached_expire (h : s.NobodyWaits) {p : Pending} {w : Store}
    (hr : Reached t grows keeps s (.waiting p, w)) : Reached t grows keeps s (w.expire p) := by
  obtain ⟨m, hm, ht, hs, hcount, hwait, rfl⟩ := hr
  have hquiet := hm.nobodyWaits h
  have hacquire : (m.locks.ask p.request).2.expire p.request = m.locks.acquire p.request := by
    rw [LockTable.acquire]
    cases ha : m.locks.ask p.request with
    | mk a l =>
      rw [ha] at hwait
      cases hwait
      rfl
  rw [Store.expire, hacquire]
  rcases hquiet.locks.consistent.acquire_cases p.request with
    ⟨l, he, hl, hw⟩ | ⟨l, he, hl, hw⟩ | ⟨us, l, he, hl, hw⟩
  · rw [he]
    exact reached_refuse (hm.tail (.look ht hl hw)) _
  · rw [he]
    have hc : Change t grows m { m with locks := l } := .look ht hl hw
    exact reached_resume (hc.nobodyWaits hquiet) (hm.tail hc) ht hs fun search he =>
      (hcount search he).congr rfl rfl
  · rw [he]
    obtain ⟨cache, locks, stats, hrest⟩ := (discarded_strike hquiet hl).rest
    have hdisk := congrArg Store.disk hrest
    have hsize := congrArg Store.pageSize hrest
    exact ⟨hm.tail (.strike ht hl hw), ht, hs, fun search he =>
      (hcount search he).congr hdisk hsize⟩

/-- A call of `t` that is begun in the store `s` comes as far as `run`. -/
inductive ComesTo (t : TxnId) (call : Call) (s : Store) : Progress × Store → Prop where
  | start : ComesTo t call s (s.start t call)
  | ask {p : Pending} {m : Store} (h : ComesTo t call s (.asking p, m)) :
      ComesTo t call s (m.ask p)
  | expire {p : Pending} {m : Store} (h : ComesTo t call s (.waiting p, m)) :
      ComesTo t call s (m.expire p)

theorem ComesTo.reached {call : Call} {run : Progress × Store} (h : s.NobodyWaits)
    (hu : ComesTo t call s run) : Reached t (call.Grows s.catalog) call.keeps s run := by
  induction hu with
  | start => exact reached_start s t call
  | ask _ ih => exact reached_ask h ih
  | expire _ ih => exact reached_expire h ih

/-- A call that is carried on to its answer is of this kind if its beginning is. -/
theorem reached_finish (h : s.NobodyWaits) {n : Nat} {run : Progress × Store}
    (hr : Reached t grows keeps s run) (hf : finish n run = some (reply, s')) :
    Reached t grows keeps s (.done reply, s') := by
  fun_induction finish n run with
  | case1 => cases hf; exact hr
  | case2 => cases hf
  | case3 => cases hf
  | case4 n p m ih => exact ih (reached_ask h hr) hf
  | case5 n p m ih => exact ih (reached_expire h hr) hf

/-- **A call where nobody else runs makes some changes, and edits at most one page at its end.** -/
theorem finish_changes (h : s.NobodyWaits) {n : Nat} {call : Call}
    (hf : finish n (s.start t call) = some (reply, s')) :
    ∃ m, Changes t (call.Grows s.catalog) s m ∧ Ended t call.keeps m reply s' :=
  reached_finish h (reached_start s t call) hf

/-! ## Enough looks

A call that is carried out alone is given a number of looks that depends on its file.  The answer
does not depend on that number once there are enough. -/

variable {call : Call}

/-- More looks than it takes do not change the answer to a call. -/
theorem finish_add {n : Nat} {run : Progress × Store} {x : Reply × Store}
    (h : finish n run = some x) (k : Nat) : finish (n + k) run = some x := by
  fun_induction finish n run with
  | case1 n reply s =>
    rw [finish]
    exact h
  | case2 => cases h
  | case3 => cases h
  | case4 n p m ih =>
    rw [Nat.succ_add, finish]
    exact ih h
  | case5 n p m ih =>
    rw [Nat.succ_add, finish]
    exact ih h

/-- So the answer does not depend on their number. -/
theorem finish_unique {n k : Nat} {run : Progress × Store} {x y : Reply × Store}
    (hx : finish n run = some x) (hy : finish k run = some y) : x = y :=
  Option.some.inj ((finish_add hx k).symm.trans (Nat.add_comm k n ▸ finish_add hy n))

/-- A call that comes to its answer in some looks does so in as many as it has. -/
theorem perform_of_finish {progress : Progress} (h : s.start t call = (progress, m)) {k : Nat}
    (hk : k ≤ m.turns) (hf : ∀ i, finish (i + k) (progress, m) = some (reply, s')) :
    s.perform t call = some (reply, s') := by
  rw [perform, h]
  dsimp only
  rw [await, ← Nat.sub_add_cancel hk, hf]

theorem finish_of_perform {x : Reply × Store} (h : s.perform t call = some x) :
    ∃ n, finish n (s.start t call) = some x := ⟨_, h⟩

theorem perform_of_refused {e : Error} (h : s.start t call = (.refuse e, s)) :
    s.perform t call = some ({ result := .error e }, s) := by
  refine perform_of_finish h (Nat.zero_le _) fun i => ?_
  rw [Progress.refuse, finish]

/-- Every call has enough looks for one page. -/
theorem three_le_turns (s : Store) : 3 ≤ s.turns := by
  rw [turns]
  omega

end Store
end TableStore

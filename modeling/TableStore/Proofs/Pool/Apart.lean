import TableStore.Proofs.Pool.Own
import TableStore.Proofs.Pool.Victim

/-!
# The end of a transaction and the others

An abort looks at three things: the pages that hold changes of the transaction, the pages that it
has locked, and its mark.  They need not agree, since locks can be given back and pages written or
dropped by hand.  Whatever they say, an abort and a commit touch nothing of anybody else.

## What is here

* `Store.loses` — whether an abort drops a page.
* `Store.Apart` — the others have their locks, their changes and their marks as before, and the
  transaction has none of them.
* `Store.Absent.abort` — an abort of a transaction that has nothing does nothing.
* `Store.ends_apart` — what an abort and a commit do to pages in memory, and what to the others.
-/

set_option autoImplicit false
namespace TableStore

theorem Distinct.erase_of_not_mem {α : Type} [DecidableEq α] {s : Distinct α} {a : α} (h : a ∉ s) :
    s.erase a = s := by
  refine Distinct.ext (List.filter_eq_self.2 fun b hb => decide_eq_true fun he => h ?_)
  rw [← he]
  exact hb

/-- Pages that are dropped leave the order of use, and the others keep theirs. -/
theorem Cache.Kept.order_dropAll {log : List PageId} {c : Cache} (h : c.Kept log)
    (ps : List PageId) : (c.dropAll ps).recency.order = c.recency.order.filter (· ∉ ps) := by
  induction ps generalizing c with
  | nil => exact (List.filter_eq_self.2 fun q _ => by simp).symm
  | cons p ps ih =>
    have hone : (c.drop p).recency.order = c.recency.order.filter (· ≠ p) :=
      Recency.order_remove h.formed p
    refine (ih (h.drop p)).trans ?_
    rw [hone, List.filter_filter]
    refine List.filter_congr fun q _ => ?_
    by_cases hq : q = p <;> simp [hq]

namespace Store

variable {s₀ s s' : Store} {t u : TxnId} {p q : PageId} {page : Page} {ds : List Deed}

/-! ## What an abort drops

An abort drops the pages with changes of its transaction.  It also drops the clean pages that the
transaction has locked, so that the next one who asks for them reads their files. -/

/-- Whether an abort of `t` drops a page: the page is in memory, and holds changes of `t`, or it is
clean and `t` has locked it. -/
def loses (s : Store) (t : TxnId) (q : PageId) : Bool :=
  match s.cache.pages.get? q with
  | none => false
  | some page => page.dirtier = some t || page.dirtier = none && s.holds t q

theorem mem_doomed_iff : q ∈ s.cache.dirtyPages t ++ (s.locks.pagesHeld t).filter s.cache.isClean ↔
    s.loses t q = true := by
  rw [loses]
  cases hq : s.cache.pages.get? q with
  | none => simp [Cache.mem_dirtyPages, Cache.isClean_iff, hq]
  | some page =>
    rw [mem_doomed hq, ← LockTable.holds_iff]
    simp [Store.holds, and_comm]

theorem cache_abort (s : Store) (t : TxnId) : (s.abort t).cache = s.cache.dropAll
    (s.cache.dirtyPages t ++ (s.locks.pagesHeld t).filter s.cache.isClean) := by
  rw [Store.abort]
  split <;> rfl

theorem get?_abort (s : Store) (t : TxnId) (q : PageId) : (s.abort t).cache.pages.get? q =
    if s.loses t q then none else s.cache.pages.get? q := by
  rw [cache_abort, Cache.get?_dropAll]
  exact if_congr mem_doomed_iff rfl rfl

theorem order_abort {n : Nat} {log : List PageId} (h : s.Stocked n log) (t : TxnId) :
    (s.abort t).cache.recency.order = s.cache.recency.order.filter fun q => !s.loses t q := by
  rw [cache_abort, h.kept.order_dropAll]
  refine List.filter_congr fun q _ => ?_
  have hq := mem_doomed_iff (s := s) (t := t) (q := q)
  cases hl : s.loses t q with
  | true => exact decide_eq_false fun hn => hn (hq.2 hl)
  | false => exact decide_eq_true fun hm => by rw [hq.1 hm] at hl; cases hl

/-! ## What the end of a transaction leaves alone -/

/-- In `s'` the transaction `t` has ended.  The others have their locks, their changes and their
marks as in `s`. -/
structure Apart (t : TxnId) (s s' : Store) : Prop where
  absent : s'.Absent t
  heldMode?_eq : ∀ u q, u ≠ t → s'.locks.heldMode? u q = s.locks.heldMode? u q
  own?_eq : ∀ u q, u ≠ t → s'.own? u q = s.own? u q
  aborted_iff : ∀ u, u ≠ t → (u ∈ s'.locks.aborted ↔ u ∈ s.locks.aborted)

theorem apart_abort (h : s.NobodyWaits) (t : TxnId) : Apart t s (s.abort t) := by
  have hd := discarded_abort h.locks.consistent h.sound t
  refine ⟨?_, fun u q hu => ?_, fun u q hu => ?_, fun u hu => ?_⟩
  · refine Cleared.absent ⟨?_, fun p page hp => ?_⟩ hd.consistent fun ha => ?_
    · rw [hd.holdings, if_pos (List.mem_singleton_self t)]
    · exact (hd.origin p page hp).2 t (List.mem_singleton_self t)
    · rw [locks_abort] at ha
      exact (LockTable.mem_aborted_complete.1 ha).1 rfl
  · rw [hd.heldMode?_eq, if_neg (List.mem_singleton.not.2 hu)]
  · rw [own?_abort h, if_neg (Ne.symm hu)]
  · rw [locks_abort, LockTable.mem_aborted_complete]
    exact and_iff_right hu

/-- An abort of a transaction that has nothing does nothing, and is not counted. -/
theorem Absent.abort (h : s.Absent t) : s.abort t = s := by
  have hheld : s.locks.pagesHeld t = [] := by
    rw [LockTable.pagesHeld, h.cleared.holdings_eq]
    rfl
  have hcount : ¬ (s.locks.isAborted t || !(s.locks.pagesHeld t).isEmpty) = true := by
    rw [LockTable.isAborted, decide_eq_false h.unmarked, hheld]
    exact Bool.false_ne_true
  have hlocks : s.locks.complete t = s.locks := by
    rw [LockTable.complete, LockTable.releaseAll_of_none h.cleared.holdings_eq, LockTable.unmark,
      Distinct.erase_of_not_mem h.unmarked]
  rw [Store.abort, if_neg hcount, hheld, h.cleared.dirtyPages_eq, hlocks]
  rfl

/-! ## Commits -/

/-- A page that is written stays in memory as it is, but clean. -/
theorem get?_flushPage_self (hf : s.flushPage p = .ok s') : s'.cache.pages.get? p =
    (s.cache.pages.get? p).map fun page => if page.dirtier = none then page else page.clean := by
  rcases flushPage_cases hf with ⟨rfl, hclean⟩ | ⟨page, file, disk, hp, hd, -, -, rfl⟩
  · cases hp : s'.cache.pages.get? p with
    | none => rfl
    | some page => rw [Option.map_some, if_pos (hclean page hp)]
  · rw [settled, Assoc.get?_insert, if_pos rfl, hp, Option.map_some, if_neg hd]

/-- The pages in memory and the order of their use are no matter of writing. -/
theorem order_flushPages (s : Store) (ps : List PageId) :
    (s.flushPages ps).2.cache.pages.keys = s.cache.pages.keys ∧
      (s.flushPages ps).2.cache.recency.order = s.cache.recency.order := by
  refine flushPages_induction (P := fun m => m.cache.pages.keys = s.cache.pages.keys ∧
    m.cache.recency.order = s.cache.recency.order) (fun m p m' hm hf => ?_) ps ⟨rfl, rfl⟩
  rcases flushPage_cases hf with ⟨rfl, -⟩ | ⟨page, file, disk, hp, -, -, -, rfl⟩
  · exact hm
  · have hmem : p ∈ m.cache.pages.keys := Assoc.mem_keys_iff.2 ⟨page, hp⟩
    refine ⟨?_, (Recency.order_setEvictable _ _ _).trans hm.2⟩
    rw [settled, Assoc.keys_insert, if_pos hmem]
    exact hm.1

/-- All pages of a list are clean once they have been written, and have not changed otherwise. -/
theorem get?_flushPages_of_mem {ps : List PageId} (hps : ps.Nodup)
    (hok : (s.flushPages ps).1 = .ok ()) (hp : p ∈ ps) :
    (s.flushPages ps).2.cache.pages.get? p =
      (s.cache.pages.get? p).map fun page => if page.dirtier = none then page else page.clean := by
  induction ps generalizing s with
  | nil => cases hp
  | cons q ps ih =>
    obtain ⟨hq, hps⟩ := List.nodup_cons.1 hps
    rw [flushPages] at hok ⊢
    cases hf : s.flushPage q with
    | error e =>
      rw [hf] at hok
      cases hok
    | ok m =>
      rw [hf] at hok
      rcases List.mem_cons.1 hp with rfl | hp
      · exact (get?_flushPages hq).trans (get?_flushPage_self hf)
      · refine (ih hps hok hp).trans ?_
        rw [get?_flushPage hf fun he => hq (he ▸ hp)]

/-- A commit makes the pages with changes of its transaction clean, and leaves all others as they
are. -/
theorem get?_commit_eq (hok : (s.commit t).1 = .ok ()) (q : PageId) :
    (s.commit t).2.cache.pages.get? q = (s.cache.pages.get? q).map fun page =>
      if page.dirtier = some t then page.clean else page := by
  rcases commit_cases s t with ⟨-, he⟩ | ⟨e, -, -, he⟩ | ⟨-, hr, he⟩
  · rw [he] at hok
    cases hok
  · rw [he] at hok
    cases hok
  · rw [he]
    dsimp only
    by_cases hq : q ∈ s.cache.dirtyPages t
    · obtain ⟨page, hp, hd⟩ := Cache.mem_dirtyPages.1 hq
      rw [get?_flushPages_of_mem (nodup_dirtyPages s.cache t) hr hq, hp, Option.map_some,
        Option.map_some, if_pos hd, if_neg (by simp [hd])]
    · rw [get?_flushPages hq]
      cases hp : s.cache.pages.get? q with
      | none => rfl
      | some page =>
        have hd : page.dirtier ≠ some t := fun hd => hq (Cache.mem_dirtyPages.2 ⟨page, hp, hd⟩)
        rw [Option.map_some, if_neg hd]

theorem apart_commit (h : s.NobodyWaits) (hok : (s.commit t).1 = .ok ()) :
    Apart t s (s.commit t).2 := by
  have hlocks : (s.commit t).2.locks = s.locks.complete t ∧ t ∉ s.locks.aborted := by
    rcases commit_cases s t with ⟨-, he⟩ | ⟨e, -, -, he⟩ | ⟨ha, -, he⟩
    · rw [he] at hok
      cases hok
    · rw [he] at hok
      cases hok
    · rw [he]
      exact ⟨congrArg (·.complete t) (locks_flushPages s _), ha⟩
  obtain ⟨hlocks, ha⟩ := hlocks
  refine ⟨Cleared.absent ⟨?_, fun p page hp hd => ?_⟩ ?_ ?_, fun u q hu => ?_, fun u q hu => ?_,
    fun u _ => mem_aborted_commit⟩
  · rw [hlocks, LockTable.get?_holdings_complete, if_pos rfl]
  · have hown : (s.commit t).2.own? t p = none := by rw [own?_commit hok, if_pos rfl]
    rw [own?_eq_some_iff.2 ⟨hp, hd⟩] at hown
    cases hown
  · exact hlocks ▸ h.locks.consistent.complete t
  · exact fun hm => ha (mem_aborted_commit.1 hm)
  · rw [hlocks, LockTable.heldMode?_complete, if_neg hu]
  · rw [own?_commit hok, if_neg (Ne.symm hu)]

/-! ## Both ends -/

/-- **An abort and a commit touch only what belongs to their transaction**, between any deeds.  Both
leave the locks, the changes and the marks of all others as they are, and the transaction with none
of them.  An abort drops the pages with its changes and the clean pages that it has locked, and no
others; a second one does nothing at all.  A commit that succeeds makes the pages with its changes
clean, and neither adds, drops nor reorders any page. -/
theorem ends_apart (h₀ : s₀.Fresh) (h : After s₀ ds s) (t : TxnId) :
    (Apart t s (s.abort t) ∧
      (∀ q, (s.abort t).cache.pages.get? q =
        if s.loses t q then none else s.cache.pages.get? q) ∧
      (s.abort t).cache.recency.order = s.cache.recency.order.filter (fun q => !s.loses t q) ∧
      (s.abort t).abort t = s.abort t) ∧
    ((s.commit t).1 = .ok () → Apart t s (s.commit t).2 ∧
      (s.commit t).2.cache.pages.keys = s.cache.pages.keys ∧
      (s.commit t).2.cache.recency.order = s.cache.recency.order ∧
      ∀ q, (s.commit t).2.cache.pages.get? q = (s.cache.pages.get? q).map fun page =>
        if page.dirtier = some t then page.clean else page) := by
  have hquiet := h.nobodyWaits h₀.nobodyWaits
  obtain ⟨log, hused⟩ := Session.Used.after h
  have habort := apart_abort hquiet t
  refine ⟨⟨habort, get?_abort s t, order_abort (hused.stocked h₀) t, habort.absent.abort⟩,
    fun hok => ?_⟩
  have horder : (s.commit t).2.cache.pages.keys = s.cache.pages.keys ∧
      (s.commit t).2.cache.recency.order = s.cache.recency.order := by
    rcases commit_cases s t with ⟨-, he⟩ | ⟨e, -, -, he⟩ | ⟨-, -, he⟩
    · rw [he]
      exact ⟨rfl, rfl⟩
    · rw [he]
      exact order_flushPages s _
    · rw [he]
      exact order_flushPages s _
  exact ⟨apart_commit hquiet hok, horder.1, horder.2, get?_commit_eq hok⟩

/-- A transaction has put a row into a page.  The page stays as it is when somebody else aborts, and
is dropped when its own transaction does. -/
theorem ends_apart_entered : numbers.Fresh ∧ ∃ (ds : List Deed) (s : Store), After numbers ds s ∧
    s.own? ⟨1⟩ (TableFile.numbers.page 0) ≠ none ∧
    (s.abort ⟨2⟩).own? ⟨1⟩ (TableFile.numbers.page 0) =
      s.own? ⟨1⟩ (TableFile.numbers.page 0) ∧
    (s.abort ⟨1⟩).cache.pages.get? (TableFile.numbers.page 0) = none ∧
    (s.abort ⟨1⟩).abort ⟨1⟩ = s.abort ⟨1⟩ := by
  have hf : numbers.Fresh := ⟨rfl, rfl⟩
  have hd : entered.map (fun run => decide (run.2.own? ⟨1⟩ (TableFile.numbers.page 0) ≠ none ∧
      run.2.loses ⟨1⟩ (TableFile.numbers.page 0) = true)) = some true := by
    decide +kernel
  obtain ⟨⟨reply, s⟩, hs, hd⟩ := Option.map_eq_some_iff.1 hd
  obtain ⟨hown, hloses⟩ := of_decide_eq_true hd
  have h := After.start.deed (.call hs)
  obtain ⟨⟨-, hpages, -, hagain⟩, -⟩ := ends_apart hf h ⟨1⟩
  obtain ⟨⟨hother, -⟩, -⟩ := ends_apart hf h ⟨2⟩
  exact ⟨hf, _, s, h, hown, hother.own?_eq ⟨1⟩ _ (by decide), (hpages _).trans (if_pos hloses),
    hagain⟩

end Store
end TableStore

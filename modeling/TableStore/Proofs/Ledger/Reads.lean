import TableStore.Proofs.Ledger.Run
import TableStore.Proofs.Pool.Course

/-!
# Locks are kept, and reads repeat

A call gives back locks halfway: the search for a free slot does so with every full page.  Still no
transaction loses a lock that comes with an answer before it ends, and a lock that it had before a
call is there after it, in the same mode or a stronger one.  So nobody else changes a page that a
transaction has read, and it reads the same rows again, also if the page has left memory since.

## What is here

* `Event.Edits`, `Event.Stops` — a transaction changes a page, or ends or is struck.
* `Ledger.Unshared`, `Ledger.Run.view_stored` — what is seen of a page of which nobody else has a
  copy, while nobody changes it.
* `Store.Moves.view_stored` — moves leave alone what the holder of a lock sees.
* `Session.Retains` — a transaction keeps a lock until it ends, is struck, or gives it back by hand.
* `Event.Recalls` — a transaction has read a page, and has neither changed it nor ended since.
* `Session.reads_repeat` — locks are kept, and reads repeat.
* `Session.reread` — a page is read twice, and has been written, dropped and read from its file
  between.

Rows are the same as they are stored: a text that is too long is cut when its page is read from its
file again.
-/

set_option autoImplicit false
namespace TableStore

/-! ## Events -/

namespace Event

variable {t u : TxnId} {p : PageId} {page : Page} {e : Event} {h : List Event}

/-- The transaction has put a row into the page, or taken one away. -/
def Edits (t : TxnId) (p : PageId) : Event → Prop
  | inserted u _ row => u = t ∧ ∃ r, row.rid = some r ∧ r.page = p
  | removed u row => u = t ∧ ∃ r, row.rid = some r ∧ r.page = p
  | _ => False

/-- The transaction has committed or aborted, or has been struck. -/
def Stops (t : TxnId) : Event → Prop
  | committed u => u = t
  | aborted u => u = t
  | struck _ us => t ∈ us
  | _ => False

/-- The transaction has been handed the page, and since then it has neither ended nor changed the page,
and has not been struck. -/
def Recalls (t : TxnId) (p : PageId) (page : Page) (h : List Event) : Prop :=
  ∃ before since, h = before ++ .read t p page :: since ∧
    ∀ e ∈ since, ¬ e.Edits t p ∧ ¬ e.Stops t

theorem Recalls.of_append (hr : Recalls t p page (h ++ [e])) :
    e = .read t p page ∨ Recalls t p page h ∧ ¬ e.Edits t p ∧ ¬ e.Stops t := by
  obtain ⟨before, since, heq, hn⟩ := hr
  rcases List.eq_nil_or_concat since with rfl | ⟨since, last, rfl⟩
  · exact Or.inl (List.singleton_inj.1 (List.append_inj' heq rfl).2)
  · rw [List.concat_eq_append] at heq hn
    rw [← List.cons_append, ← List.append_assoc] at heq
    obtain ⟨rfl, hlast⟩ := List.append_inj' heq rfl
    rw [List.singleton_inj.1 hlast]
    obtain ⟨hinit, hlast⟩ := List.forall_mem_append.1 hn
    exact Or.inr ⟨⟨before, since, rfl, hinit⟩, hlast _ (List.mem_singleton_self _)⟩

end Event

/-! ## Ledgers

A ledger has no locks.  What takes their place is that nobody else has a copy of the page, as is the
case in a store as long as the transaction holds the lock. -/

namespace Ledger

variable {L L₀ M : Ledger} {t : TxnId} {p : PageId} {e : Event} {es h : List Event}

/-- Nobody else has a copy of the page. -/
def Unshared (L : Ledger) (t : TxnId) (p : PageId) : Prop := ∀ u, u ≠ t → L.overlay u p = none

theorem view_congr (ho : M.overlay t p = L.overlay t p)
    (hc : ∀ i, M.committed ⟨p, i⟩ = L.committed ⟨p, i⟩) (i : Nat) :
    M.view t p i = L.view t p i := by
  rw [view, view, ho]
  split
  · rfl
  · exact hc i

/-- What a transaction sees of a page stays the same while nobody changes the page and others have no
copies of it, until it ends or is struck. -/
theorem Step.view_eq (hs : Step e L M) (hu : L.Unshared t p) (he : ∀ u, ¬ e.Edits u p)
    (hn : ¬ e.Stops t) : M.Unshared t p ∧ ∀ i, M.view t p i = L.view t p i := by
  have hput : ∀ {u : TxnId} {r : RecordId} {x : Option Row}, r.page ≠ p →
      (L.put u r x).Unshared t p ∧ ∀ i, (L.put u r x).view t p i = L.view t p i :=
    fun {u r x} hr => by
      have ho : ∀ v, (L.put u r x).overlay v p = L.overlay v p := fun v =>
        if_neg fun hv => hr hv.2.symm
      exact ⟨fun v hv => (ho v).trans (hu v hv), view_congr (ho t) fun _ => rfl⟩
  cases hs with
  | read => exact ⟨hu, fun _ => rfl⟩
  | inserted hr => exact hput fun hp => he _ ⟨rfl, _, hr, hp⟩
  | removed hr => exact hput fun hp => he _ ⟨rfl, _, hr, hp⟩
  | copied => exact ⟨hu, fun _ => rfl⟩
  | refused => exact ⟨hu, fun _ => rfl⟩
  | @committed _ u =>
    have hut : u ≠ t := hn
    refine ⟨fun v hv => ?_, view_congr (if_neg hut.symm) fun i => view_of_none (hu u hut) i⟩
    rw [commit]
    dsimp only
    rw [hu v hv, ite_self]
  | aborted _ u =>
    have hut : u ≠ t := hn
    refine ⟨fun v hv => ?_, view_congr (if_neg hut.symm) fun _ => rfl⟩
    rw [abort]
    dsimp only
    rw [hu v hv, ite_self]
  | @struck _ u us _ =>
    have htu : t ∉ us := hn
    refine ⟨fun v hv => ?_, view_congr (if_neg htu) fun _ => rfl⟩
    rw [strike]
    dsimp only
    rw [hu v hv, ite_self]

theorem Run.view_stored (hr : Run L es M) (hu : L.Unshared t p)
    (he : ∀ e ∈ es, (∀ u, ¬ e.Edits u p) ∧ ¬ e.Stops t) :
    M.Unshared t p ∧ ∀ i, (M.view t p i).map Row.stored = (L.view t p i).map Row.stored := by
  induction hr with
  | start => exact ⟨hu, fun _ => rfl⟩
  | step _ hs ih =>
    obtain ⟨hinit, hlast⟩ := List.forall_mem_append.1 he
    obtain ⟨hn, hstops⟩ := hlast _ (List.mem_singleton_self _)
    obtain ⟨hu, hview⟩ := ih hinit
    obtain ⟨hu', hview'⟩ := hs.view_eq hu hn hstops
    exact ⟨hu', fun i => (congrArg _ (hview' i)).trans (hview i)⟩
  | cut _ hc ih =>
    obtain ⟨hu, hview⟩ := ih he
    refine ⟨fun v hv => ?_, fun i => (hc.view_stored t p i).trans (hview i)⟩
    rw [hc.overlay_eq, hu v hv]

/-- The last event of a history, after which there are only cuts. -/
theorem Run.last (hr : Run L₀ (h ++ [e]) L) : ∃ M N, Step e M N ∧ Run N [] L := by
  generalize he : h ++ [e] = es at hr
  induction hr with
  | start => exact absurd he (List.append_ne_nil_of_right_ne_nil _ (List.cons_ne_nil _ _))
  | step _ hs =>
    rw [List.singleton_inj.1 (List.append_inj' he rfl).2]
    exact ⟨_, _, hs, .start⟩
  | cut _ hc ih =>
    obtain ⟨M, N, hs, hr⟩ := ih he
    exact ⟨M, N, hs, hr.cut hc⟩

theorem Run.cuts_view (hr : Run L [] M) (t : TxnId) (p : PageId) (i : Nat) :
    (M.view t p i).map Row.stored = (L.view t p i).map Row.stored := by
  generalize he : ([] : List Event) = es at hr
  induction hr with
  | start => rfl
  | step => exact absurd he (List.append_ne_nil_of_right_ne_nil _ (List.cons_ne_nil _ _)).symm
  | cut _ hc ih => exact (hc.view_stored t p i).trans (ih he)

/-- What has just been read is what is seen. -/
theorem Run.read_view {page : Page} (hr : Run L₀ (h ++ [.read t p page]) L) (i : Nat) :
    (L.view t p i).map Row.stored = (page.row? i).map Row.stored := by
  obtain ⟨M, N, hs, hcuts⟩ := hr.last
  cases hs with
  | read _ hview => exact (hcuts.cuts_view t p i).trans (congrArg _ (hview i).symm)

end Ledger

/-! ## Moves -/

namespace Store

variable {sealed : Prop} {serves : TableId → TableFile → Prop} {s s' : Store} {t u : TxnId}
  {p : PageId} {es : List Event} {e : Event}

/-- Only the transaction that moves changes a page, and has locked it exclusively. -/
theorem Move.edits (hm : Move sealed serves t es s s') (hi : s.MatchesFiles) (he : e ∈ es)
    (hp : e.Edits u p) : u = t ∧ s.locks.heldMode? t p = some .exclusive := by
  cases hm with
  | insert hc hl _ _ _ hedit =>
    obtain ⟨i, hplace, -, -⟩ := hi.inserted hc hedit
    cases List.mem_singleton.1 he
    obtain ⟨hu, r, hr, rfl⟩ := hp
    rw [hplace] at hr
    cases hr
    exact ⟨hu.symm, hl⟩
  | remove hc hl _ hedit =>
    obtain ⟨i, hplace, -, -⟩ := hi.removed hc hl hedit
    cases List.mem_singleton.1 he
    obtain ⟨hu, r, hr, rfl⟩ := hp
    rw [hplace] at hr
    cases hr
    exact ⟨hu.symm, hl⟩
  | commit =>
    rw [List.mem_singleton, commitEvent] at he
    split at he <;> (rw [he] at hp; cases hp)
  | look => cases he
  | refresh => cases he
  | giveBack => cases he
  | append => cases he
  | _ =>
    rw [List.mem_singleton.1 he] at hp
    cases hp

/-- **What the holder of a lock sees of the page stays the same** until it changes the page or ends,
or is struck. -/
theorem Moves.view_stored (hm : Moves sealed serves u es s s') (hi : s.MatchesFiles)
    (hsealed : sealed) (hserves : ∀ table file, serves table file → s.catalog.file table = .ok file)
    (hl : t ≠ u → s.locks.heldMode? t p ≠ none) (ho : s.ledger.Unshared t p)
    (hn : ∀ e ∈ es, ¬ e.Edits t p ∧ ¬ e.Stops t) (i : Nat) :
    (s'.ledger.view t p i).map Row.stored = (s.ledger.view t p i).map Row.stored := by
  induction hm with
  | done => rfl
  | @more s m s' es fs hm _ ih =>
    obtain ⟨hfirst, hrest⟩ := List.forall_mem_append.1 hn
    have hc := hm.catalog_eq hi.changesLocked
    have hrun := hm.simulate hi hsealed hserves (h := []) .start
    rw [List.nil_append] at hrun
    -- a page that `t` has locked is changed by `t` alone
    have hedits : ∀ e ∈ es, ∀ v, ¬ e.Edits v p := fun e he v hv => by
      obtain ⟨rfl, hx⟩ := hm.edits hi he hv
      by_cases htv : t = v
      · exact (hfirst e he).1 (htv ▸ hv)
      · obtain ⟨k, hk⟩ := Option.ne_none_iff_exists'.1 (hl htv)
        exact htv (hi.changesLocked.consistent.eq_of_exclusive hx hk)
    obtain ⟨ho', hview⟩ := hrun.view_stored ho fun e he => ⟨hedits e he, (hfirst e he).2⟩
    refine (ih (hm.matchesFiles hi hsealed hserves) (fun table file h => hc ▸ hserves table file h)
      (fun htu => ?_) ho' hrest).trans (hview i)
    rcases hm.heldMode?_of_ne hi.changesLocked htu p with he | ⟨-, us, hs, hv⟩
    · exact he ▸ hl htu
    · exact absurd hv (hfirst _ hs).2

end Store

/-! ## Sessions

A lock is lost in three ways only: its transaction ends, it is struck, or somebody gives the lock
back by hand.  The steps and deeds of others are none of them, unless they strike it. -/

namespace Session

variable {s₀ : Store} {σ σ' : Session} {t u : TxnId} {p : PageId} {page : Page} {a : Action}
  {es h : List Event} {us : List TxnId}

/-- The transaction has locked the page in the mode or a stronger one, and has it so after everything
that may happen, until it commits, aborts, is struck, or gives back the lock by hand. -/
def Retains (σ : Session) (t : TxnId) (p : PageId) (m : Mode) : Prop :=
  ∀ ks σ', Course σ ks σ' → (∀ k ∈ ks, ¬ k.Ends t p) → σ'.store.locks.Covered ⟨t, p, m⟩

theorem VictimsCleared.retains (hl : σ.VictimsCleared us) {m : Mode}
    (hc : σ.store.locks.Covered ⟨t, p, m⟩) :
    σ.Retains t p m := fun _ _ hcourse hn => hcourse.covered hl hn hc

theorem ends_step_iff : (Happening.step u es).Ends t p ↔ ∃ e ∈ es, e.Stops t := by
  constructor
  · rintro (hm | hm | ⟨v, us, hm, hv⟩)
    · exact ⟨_, hm, rfl⟩
    · exact ⟨_, hm, rfl⟩
    · exact ⟨_, hm, hv⟩
  · rintro ⟨e, hm, hs⟩
    cases e with
    | committed v => exact Or.inl (hs ▸ hm)
    | aborted v => exact Or.inr (Or.inl (hs ▸ hm))
    | struck v us => exact Or.inr (Or.inr ⟨v, us, hm, hs⟩)
    | _ => cases hs

theorem not_stops_outcomes (s : Store) (call : Call) (progress : Progress) (e : Event)
    (he : e ∈ s.outcomes u call progress) : ¬ e.Stops t := fun hs => by
  cases progress with
  | done reply =>
    rw [Store.outcomes, List.mem_singleton, Store.outcome] at he
    split at he
    · rw [he] at hs
      cases hs
    · split at he <;> (rw [he] at hs; cases hs)
  | asking p => cases he
  | waiting p => cases he
  | endless => cases he

/-- A call of a transaction does not end the transaction, whatever becomes of the call. -/
theorem Step.not_ends (hs : Step t a σ es σ') (hl : σ.VictimsCleared us) (hc : a ≠ .commit)
    (ha : a ≠ .abort) : ¬ (Happening.step t es).Ends t p := by
  rw [ends_step_iff]
  rintro ⟨e, he, hstop⟩
  cases hs with
  | begin => exact not_stops_outcomes _ _ _ e he hstop
  | ask => exact not_stops_outcomes _ _ _ e he hstop
  | wake => exact not_stops_outcomes _ _ _ e he hstop
  | expire hr =>
    rcases List.mem_append.1 he with he | he
    · rcases Store.dealt_expire hl.consistent hl.sound (hl.fits _ _ hr) with
        ⟨hn, -⟩ | ⟨l, -, -, hn, -⟩
      · rw [hn] at he
        cases he
      · rw [hn] at he
        rw [List.mem_singleton.1 he] at hstop
        exact (LockTable.mem_victimsOf.1 hstop).1 rfl
    · exact not_stops_outcomes _ _ _ e he hstop
  | commit => exact hc rfl
  | abort => exact ha rfl

/-- At most one thing is seen of a step. -/
theorem Effect.events_eq (he : Effect t σ es σ') : es = [] ∨ ∃ e, es = [e] := by
  cases he with
  | @dealt call run _ hes =>
    rw [hes]
    cases run.1 with
    | done reply => exact Or.inr ⟨_, rfl⟩
    | asking p => exact Or.inl rfl
    | waiting p => exact Or.inl rfl
    | endless => exact Or.inl rfl
  | struck _ _ _ _ hes => exact Or.inr ⟨_, hes⟩
  | committed _ hes => exact Or.inr ⟨_, hes⟩
  | aborted _ hes => exact Or.inr ⟨_, hes⟩

theorem Effect.read_txn (he : Effect u σ es σ') (hm : .read t p page ∈ es) : u = t := by
  obtain ⟨call, -, -, reply, page', -, hres, he, -⟩ := he.answered hm rfl
  rw [Store.outcome, hres] at he
  cases call <;> cases he
  rfl

theorem Run.victimsCleared (hf : s₀.Fresh) (hr : Run s₀ h σ) : σ.VictimsCleared [] := by
  induction hr with
  | start => exact .idle hf
  | step _ _ hs ih => exact hs.victimsCleared ih

/-- What a transaction has the lock on it sees as before, and keeps the lock. -/
theorem FollowsLedger.view_stored (ht : FollowsLedger s₀ h σ) (hl : σ.VictimsCleared us)
    (ha : a.Served s₀.catalog.Serves s₀.catalog) (hs : Step u a σ es σ')
    (hc : σ.store.locks.Covered ⟨t, p, .shared⟩)
    (hn : ∀ e ∈ es, ¬ e.Edits t p ∧ ¬ e.Stops t) :
    σ'.store.locks.Covered ⟨t, p, .shared⟩ ∧ ∀ i,
      (σ'.store.ledger.view t p i).map Row.stored =
        (σ.store.ledger.view t p i).map Row.stored := by
  obtain ⟨k, hk⟩ : ∃ k, σ.store.locks.heldMode? t p = some k := hc.elim (⟨_, ·⟩) (⟨_, ·⟩)
  refine ⟨hs.covered hl (fun he => ?_) hc, fun i => ?_⟩
  · obtain ⟨e, he, hstop⟩ := ends_step_iff.1 he
    exact (hn e he).2 hstop
  · refine (ht.step ha hs).2.view_stored ht.matchesFiles trivial
      (fun _ _ hs => ht.catalog_eq.symm ▸ hs) (fun _ => by simp [hk])
      (fun v hv => ht.matchesFiles.changesLocked.overlay_none hk hv) hn i

/-- A lock on a page is at least a shared one. -/
theorem covered_shared {l : LockTable} {m : Mode} (h : l.Covered ⟨t, p, m⟩) :
    l.Covered ⟨t, p, .shared⟩ := by
  cases m with
  | shared => exact h
  | exclusive => exact Or.inr (h.elim id id)

/-- What a transaction has just been handed it sees, and has the lock on it. -/
theorem FollowsLedger.read (ht : FollowsLedger s₀ h σ) (hl : σ.VictimsCleared us)
    (ha : a.Served s₀.catalog.Serves s₀.catalog) (hs : Step t a σ [.read t p page] σ') :
    σ'.store.locks.Covered ⟨t, p, .shared⟩ ∧
      ∀ i, (σ'.store.ledger.view t p i).map Row.stored = (page.row? i).map Row.stored := by
  obtain ⟨access, -, -, -, hc⟩ := (hs.effect hl).confers.1 p page (List.mem_singleton_self _)
  exact ⟨covered_shared hc, (ht.step ha hs).1.run.read_view⟩

/-- A page that a transaction has read is still locked by it, and is seen as it was. -/
theorem Run.recalled (hf : s₀.Fresh) (hi : s₀.catalog.Indexed) (hr : Run s₀ h σ)
    (hc : Event.Recalls t p page h) :
    σ.store.locks.Covered ⟨t, p, .shared⟩ ∧
      ∀ i, (σ.store.ledger.view t p i).map Row.stored = (page.row? i).map Row.stored := by
  induction hr with
  | start =>
    obtain ⟨before, since, he, -⟩ := hc
    exact absurd he.symm (List.append_ne_nil_of_right_ne_nil _ (List.cons_ne_nil _ _))
  | @step h es σ σ' u a hr ha hs ih =>
    have ht := hr.followsLedger hf hi
    have hl := hr.victimsCleared hf
    have hstay : Event.Recalls t p page h → (∀ e ∈ es, ¬ e.Edits t p ∧ ¬ e.Stops t) →
        σ'.store.locks.Covered ⟨t, p, .shared⟩ ∧
        ∀ i, (σ'.store.ledger.view t p i).map Row.stored = (page.row? i).map Row.stored :=
      fun hc hn => by
        obtain ⟨hcov, hview⟩ := ih hc
        obtain ⟨hcov', hview'⟩ := ht.view_stored hl ha hs hcov hn
        exact ⟨hcov', fun i => (hview' i).trans (hview i)⟩
    rcases (hs.effect hl).events_eq with rfl | ⟨e, rfl⟩
    · rw [List.append_nil] at hc
      exact hstay hc fun _ he => absurd he List.not_mem_nil
    · rcases hc.of_append with rfl | ⟨hc, hn⟩
      · obtain rfl : u = t := (hs.effect hl).read_txn (List.mem_singleton_self _)
        exact ht.read hl ha hs
      · exact hstay hc (List.forall_mem_singleton.2 hn)

/-- **Locks are kept to the end, and reads repeat.**  Calls of transactions run beside each other, with
pages written and dropped and locks given back by hand.

1. With the page that it is handed, the row that it has put in or taken away, or the changed copy of a
   page, a transaction has the lock on the page, exclusively for a change, and it retains the lock.
2. It retains every lock that it has, in that mode or a stronger one.
3. None of its own calls ends this, whatever becomes of it: not a search that gives back the locks on
   full pages, and not a call that fails.
4. If nothing is written, dropped or given back by hand, a transaction that reads a page again, and has
   neither changed it nor ended since, is handed the same rows, as they are stored. -/
theorem reads_repeat (hf : s₀.Fresh) (hi : s₀.catalog.Indexed) :
    (∀ ks σ, Course (idle s₀) ks σ →
      (∀ t a es σ', Step t a σ es σ' →
        (∀ p page, .read t p page ∈ es → ∃ access pending asleep,
          σ.running t = some ⟨.fetch p access, pending, asleep⟩ ∧
          σ'.Retains t p access.mode) ∧
        (∀ table row, .inserted t table row ∈ es → ∃ r, row.rid = some r ∧
          σ'.Retains t r.page .exclusive) ∧
        (∀ row, .removed t row ∈ es → ∃ gone pending asleep r,
          σ.running t = some ⟨.remove gone, pending, asleep⟩ ∧ gone.rid = some r ∧
          σ'.Retains t r.page .exclusive) ∧
        (∀ page, .copied t page ∈ es → σ'.Retains t page.id .exclusive)) ∧
      (∀ t p m, σ.store.locks.Covered ⟨t, p, m⟩ → σ.Retains t p m) ∧
      (∀ t a es σ', Step t a σ es σ' → a ≠ .commit → a ≠ .abort →
        (∀ p, ¬ (Happening.step t es).Ends t p) ∧
        ∀ p m, σ.store.locks.Covered ⟨t, p, m⟩ → σ'.store.locks.Covered ⟨t, p, m⟩)) ∧
    ∀ h σ, Run s₀ h σ → ∀ t p page, Event.Recalls t p page h →
      ∀ a es σ' page', a.Served s₀.catalog.Serves s₀.catalog → Step t a σ es σ' →
        .read t p page' ∈ es →
        ∀ i, (page'.row? i).map Row.stored = (page.row? i).map Row.stored := by
  refine ⟨fun ks σ hc => ?_, fun h σ hr t p page hrec a es σ' page' ha hs hm i => ?_⟩
  · have hl : σ.VictimsCleared [] := hc.victimsCleared (.idle hf)
    have hx : ∀ {σ' : Session} {t : TxnId} {p : PageId}, σ'.VictimsCleared [] →
        σ'.store.locks.heldMode? t p = some .exclusive → σ'.Retains t p .exclusive :=
      fun hl' he => hl'.retains (Or.inr he)
    refine ⟨fun t a es σ' hs => ?_, fun t p m hcov => hl.retains hcov,
      fun t a es σ' hs hac haa => ?_⟩
    · have hl' := hs.victimsCleared hl
      obtain ⟨hread, hins, hrem, hcopy⟩ := (hs.effect hl).confers
      refine ⟨fun p page hm => ?_, fun table row hm => ?_, fun row hm => ?_,
        fun page hm => hx hl' (hcopy page hm)⟩
      · obtain ⟨access, pending, asleep, hrun, hcov⟩ := hread p page hm
        exact ⟨access, pending, asleep, hrun, hl'.retains hcov⟩
      · obtain ⟨r, hrid, he⟩ := hins table row hm
        exact ⟨r, hrid, hx hl' he⟩
      · obtain ⟨gone, pending, asleep, r, hrun, hrid, he⟩ := hrem row hm
        exact ⟨gone, pending, asleep, r, hrun, hrid, hx hl' he⟩
    · have hn : ∀ p, ¬ (Happening.step t es).Ends t p := fun p => hs.not_ends hl hac haa
      exact ⟨hn, fun p m hcov => hs.covered hl (hn p) hcov⟩
  · have ht := hr.followsLedger hf hi
    have hl := hr.victimsCleared hf
    obtain rfl : es = [.read t p page'] := by
      rcases (hs.effect hl).events_eq with rfl | ⟨e, rfl⟩
      · cases hm
      · rw [List.mem_singleton.1 hm]
    obtain ⟨hcov, hview⟩ := hr.recalled hf hi hrec
    -- the view before the second read is that of the first one, and the read does not change it
    have hstay := (ht.view_stored hl ha hs hcov (List.forall_mem_singleton.2 ⟨id, id⟩)).2 i
    exact ((ht.read hl ha hs).2 i).symm.trans (hstay.trans (hview i))

/-- A text of 129 characters is committed and read.  Its page makes room for another one, and somebody
else wants to put a row into it and has to wait.  The reader is about to ask for the page again. -/
def reread : Option (List Event × Session) :=
  let text := String.ofList (List.replicate 129 'x')
  (idle .notes).play?
    [(⟨1⟩, .begin (.insert TableFile.notes.id { values := [.text text] })), (⟨1⟩, .ask),
      (⟨1⟩, .commit), (⟨2⟩, .begin (.fetch (TableFile.notes.page 0) .readOnly)), (⟨2⟩, .ask),
      (⟨2⟩, .begin (.fetch (TableFile.notes.page 1) .readOnly)), (⟨2⟩, .ask),
      (⟨3⟩, .begin (.insert TableFile.notes.id { values := [.text "y"] })), (⟨3⟩, .ask),
      (⟨2⟩, .begin (.fetch (TableFile.notes.page 0) .readOnly))]

/-- When the second transaction goes on, it is handed the page again, with another text in it. -/
def altered (run : List Event × Session) : Bool :=
  match run.1, run.2.act? ⟨2⟩ .ask with
  | [_, _, .read t p page, .read _ _ _], some ([.read t' p' page'], _) =>
    t = ⟨2⟩ ∧ t' = ⟨2⟩ ∧ p = TableFile.notes.page 0 ∧ p' = TableFile.notes.page 0 ∧
      page'.row? 0 ≠ page.row? 0
  | _, _ => false

/-- The text is cut when the page is read again, and the row is the same as it is stored. -/
theorem reads_repeat_reread :
    Store.notes.Fresh ∧ Store.notes.catalog.Indexed ∧ ∃ h σ page es σ' page',
      reread = some (h, σ) ∧ Run .notes h σ ∧
      Event.Recalls ⟨2⟩ (TableFile.notes.page 0) page h ∧ Step ⟨2⟩ .ask σ es σ' ∧
      .read ⟨2⟩ (TableFile.notes.page 0) page' ∈ es ∧ page'.row? 0 ≠ page.row? 0 ∧
      ∀ i, (page'.row? i).map Row.stored = (page.row? i).map Row.stored := by
  have hf : Store.notes.Fresh := ⟨rfl, rfl⟩
  have hi : Store.notes.catalog.Indexed := Catalog.Indexed.empty.add _ _ _
  have hp : reread.map altered = some true := by decide +kernel
  obtain ⟨⟨h, σ⟩, hp, hm⟩ := Option.map_eq_some_iff.1 hp
  have hr : Run .notes h σ :=
    Run.start.play (by simp [Action.Served, Call.Served, Catalog.Serves]) hp
  rw [altered] at hm
  split at hm
  · rename_i e₁ e₂ t p page t₁ p₁ page₁ t' p' page' σ' hh hact
    obtain ⟨rfl, rfl, rfl, rfl, hne⟩ := of_decide_eq_true hm
    have hrec : Event.Recalls ⟨2⟩ (TableFile.notes.page 0) page h :=
      ⟨[e₁, e₂], [.read t₁ p₁ page₁], hh, List.forall_mem_singleton.2 ⟨id, id⟩⟩
    have hs := act?_eq_some_iff.1 hact
    have hmem := List.mem_singleton_self (Event.read ⟨2⟩ (TableFile.notes.page 0) page')
    exact ⟨hf, hi, h, σ, page, _, σ', page', hp, hr, hrec, hs, hmem, hne,
      (reads_repeat hf hi).2 h σ hr _ _ page hrec .ask _ _ page' trivial hs hmem⟩
  · cases hm

end Session
end TableStore

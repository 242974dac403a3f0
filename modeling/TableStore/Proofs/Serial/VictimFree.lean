import TableStore.Proofs.Ledger.Reads
import TableStore.Proofs.Pool.Eviction
import TableStore.Proofs.Serial.Found

/-!
# Runs in which everybody gets to the end

Nobody aborts, and no request runs out of time.  Then there are no victims, and what a step does is
seen from the ledger: a call begins, waits, goes on to the next page or is answered, and a commit
makes the copies of its transaction the committed pages.

## What is here

* `Session.CarriesOn` — a call begins, or goes on after a look at its request.
* `Session.VictimFree` — there are no victims, all texts fit, and calls head for their pages;
  `Session.VictimFree.carry` and `Session.VictimFree.commit` — this is kept up.
* `Session.Goes`, `Session.VictimFree.goes` — what becomes of a call that is carried on.
* `Session.VictimFree.holds_carry`, `Session.VictimFree.holds_commit` — locks are kept until the
  commit.
-/

set_option autoImplicit false
namespace TableStore

/-- No row of a call is brought in but one whose texts fit. -/
theorem Store.short_outcomes {s : Store} {t u : TxnId} {call : Call} {progress : Progress}
    {table : TableId} {row : Row} (hs : call.Plain)
    (h : .inserted u table row ∈ s.outcomes t call progress) : row.Short := by
  cases progress with
  | done reply =>
    rw [Store.outcomes, List.mem_singleton, Store.outcome] at h
    split at h
    · cases h
    · split at h <;> cases h
      exact hs
  | asking p => cases h
  | waiting p => cases h
  | endless => cases h

namespace Session

variable {s₀ : Store} {σ σ' : Session} {t u : TxnId} {call : Call} {p : Option PageId}
  {run : Progress × Store} {q : PageId}

/-! ## Calls that are carried on -/

/-- A call of `t` to the pool begins, or goes on after a look at its request for the page `p`.  What
it does comes to an end. -/
inductive CarriesOn (t : TxnId) (σ : Session) : Call → Option PageId → Progress × Store → Prop where
  | begin {call : Call} (hn : σ.running t = none) (hp : call.Plain)
      (he : (σ.store.start t call).1.ends = true) :
      CarriesOn t σ call none (σ.store.start t call)
  | ask {call : Call} {p : Pending} (hr : σ.running t = some ⟨call, p, false⟩)
      (he : (σ.store.ask p).1.ends = true) :
      CarriesOn t σ call (some p.request.page) (σ.store.ask p)
  | wake {call : Call} {p : Pending} {run : Progress × Store}
      (hr : σ.running t = some ⟨call, p, true⟩) (hw : σ.store.wake? p = some run)
      (he : run.1.ends = true) : CarriesOn t σ call (some p.request.page) run

theorem CarriesOn.ends (h : CarriesOn t σ call p run) : run.1.ends = true := by
  cases h <;> assumption

theorem CarriesOn.step (h : CarriesOn t σ call p run) (c : Catalog) :
    ∃ a : Action, a.Served c.Serves c ∧ a ≠ .commit ∧ a ≠ .abort ∧
      Step t a σ (σ.store.outcomes t call run.1) (σ.carry t call run) := by
  cases h with
  | begin hn hp he =>
    refine ⟨.begin call, ?_, by simp, by simp, .begin call hn he⟩
    cases call with
    | insert table row => exact fun _ hf => hf
    | insertCopy file row => exact hp.elim
    | _ => trivial
  | ask hr he => exact ⟨.ask, trivial, by simp, by simp, .ask hr he⟩
  | wake hr hw he => exact ⟨.wake, trivial, by simp, by simp, .wake hr hw he⟩

theorem CarriesOn.dealt (h : CarriesOn t σ call p run) (hl : σ.VictimsCleared []) :
    Store.Dealt t call σ.store run := by
  cases h with
  | begin => exact Store.dealt_start hl.consistent hl.sound call
  | ask hr => exact Store.dealt_ask hl.consistent hl.sound (hl.fits _ _ hr)
  | wake hr hw => exact Store.dealt_wake hl.consistent hl.sound (hl.fits _ _ hr) hw

/-! ## What is kept up

Nobody aborts and no request runs out of time, so there are never victims, and every commit
succeeds. -/

/-- What is kept up while everybody gets to the end: the store is in order and has no victims, all
texts fit, faults are those of the beginning, and calls in progress head for their pages. -/
structure VictimFree (s₀ : Store) (σ : Session) : Prop where
  followsLedger : ∃ h, FollowsLedger s₀ h σ
  victimsCleared : σ.VictimsCleared []
  stocked : ∃ log, σ.store.Stocked s₀.capacity log
  faults : Store.SameFaults s₀ σ.store
  fits : σ.store.ledger.Fits
  active : ∀ t, t ∉ σ.store.locks.aborted
  heads : ∀ t r, σ.running t = some r → r.pending.Heads t σ.store r.call ∧ r.call.Plain ∧
    r.call.refusal? s₀.catalog = none

/-- What becomes of a call of `t` that is carried on. -/
inductive Goes (s₀ : Store) (σ : Session) (t : TxnId) (call : Call) :
    Option PageId → Progress × Store → Prop where
  | refused {e : Error} {m : Store} (hc : call.refusal? s₀.catalog = some e)
      (hl : m.ledger = σ.store.ledger) : Goes s₀ σ t call none (.refuse e, m)
  | begun {q : Pending} {m : Store} (hc : call.refusal? s₀.catalog = none)
      (hq : q.Heads t m call) (hp : ∀ L, s₀.Reaches t L call q.request.page)
      (hl : m.ledger = σ.store.ledger) : Goes s₀ σ t call none (.asking q, m)
  | waiting {q : Pending} {asleep : Bool} {m : Store}
      (hr : σ.running t = some ⟨call, q, asleep⟩) (hq : q.Heads t m call)
      (hl : m.ledger = σ.store.ledger) : Goes s₀ σ t call (some q.request.page) (.waiting q, m)
  | resumed {q : Pending} {asleep : Bool} {s : Store} {run : Progress × Store}
      (hr : σ.running t = some ⟨call, q, asleep⟩) (hl : s.ledger = σ.store.ledger)
      (hc : s.cache = σ.store.cache) (h : Store.Resumed False s₀ s t call q.request.page run) :
      Goes s₀ σ t call (some q.request.page) run

namespace VictimFree

theorem idle (hf : s₀.Fresh) (hi : s₀.catalog.Indexed) : (idle s₀).VictimFree s₀ where
  followsLedger := ⟨[], Run.followsLedger hf hi .start⟩
  victimsCleared := .idle hf
  stocked := ⟨[], Used.stocked hf .start⟩
  faults := .start hf
  fits := hf.ledger_fits
  active t ht := by
    have : t ∈ s₀.locks.aborted := ht
    rw [hf.locks_eq] at this
    exact Distinct.not_mem_empty t this
  heads t r hr := by cases hr

theorem matchesFiles (h : σ.VictimFree s₀) :
    σ.store.MatchesFiles := h.followsLedger.elim fun _ ht => ht.matchesFiles

theorem changesLocked (h : σ.VictimFree s₀) : σ.store.ChangesLocked := h.matchesFiles.changesLocked

/-- What is kept up by each step. -/
theorem step (h : σ.VictimFree s₀) {a : Action} {es : List Event}
    (ha : a.Served s₀.catalog.Serves s₀.catalog) (hs : Step t a σ es σ')
    (hshort : ∀ u table row, .inserted u table row ∈ es → row.Short)
    (hactive : ∀ t, t ∉ σ'.store.locks.aborted)
    (hheads : (∀ t r, σ.running t = some r → r.pending.Heads t σ'.store r.call ∧ r.call.Plain ∧
      r.call.refusal? s₀.catalog = none) → ∀ t r, σ'.running t = some r →
      r.pending.Heads t σ'.store r.call ∧ r.call.Plain ∧ r.call.refusal? s₀.catalog = none) :
    σ'.VictimFree s₀ := by
  obtain ⟨hist, ht⟩ := h.followsLedger
  obtain ⟨log, hk⟩ := h.stocked
  obtain ⟨ht', hm⟩ := ht.step ha hs
  have hserves : ∀ table file, s₀.catalog.Serves table file →
      σ.store.catalog.file table = .ok file := fun _ _ hf => ht.catalog_eq.symm ▸ hf
  obtain ⟨-, hc, hrun⟩ := hm.simulate ht.matchesFiles trivial hserves (h := []) .start
  rw [List.nil_append] at hrun
  obtain ⟨-, hfit⟩ := hrun.exact h.fits fun row hrow => by
    obtain ⟨u, table, hmem⟩ := hrow
    exact (hshort u table row hmem).stored_eq
  refine ⟨⟨_, ht'⟩, hs.victimsCleared h.victimsCleared, ⟨_, hs.stocked hk⟩,
    hm.sameFaults ht.matchesFiles trivial hserves h.faults, hfit, hactive, hheads fun u r hr => ?_⟩
  obtain ⟨hq, hrest⟩ := h.heads u r hr
  exact ⟨hq.mono hc fun _ hcount => hm.counts ht.matchesFiles trivial hserves hcount, hrest⟩

theorem plain (h : σ.VictimFree s₀) (hc : CarriesOn t σ call p run) : call.Plain := by
  cases hc with
  | begin _ hp => exact hp
  | ask hr => exact (h.heads t _ hr).2.1
  | wake hr => exact (h.heads t _ hr).2.1

/-- What becomes of a call whose request is granted. -/
theorem granted (h : σ.VictimFree s₀) {q : Pending} {asleep : Bool} {l : LockTable}
    (hr : σ.running t = some ⟨call, q, asleep⟩)
    (hlook : LockTable.Looked σ.store.locks q.request .granted l) :
    Store.Resumed (¬ q.GetsOn { σ.store with locks := l }) s₀ { σ.store with locks := l } t call
      q.request.page ({ σ.store with locks := l }.resume q) := by
  obtain ⟨hq, hplain, -⟩ := h.heads t _ hr
  obtain ⟨log, hk⟩ := h.stocked
  have hgot := hlook.granted rfl q.request.page
  rw [if_pos rfl, hq.txn_eq] at hgot
  have hfits : { σ.store with locks := l }.ledger.Fits :=
    (Store.ledger_relock hlook.aborted_eq).symm ▸ h.fits
  refine Store.resumed (h.matchesFiles.relock (h.changesLocked.look hlook))
    (h.faults.of_sameFiles ⟨rfl, rfl, rfl⟩ fun p page hp => Or.inl ⟨page, hp⟩) (hk.congr rfl rfl)
    hfits (fun ha => h.active t (hlook.aborted_eq ▸ ha)) ?_ (fun hx => ?_)
    (hq.mono rfl fun _ hcount => hcount.congr rfl rfl) hplain
  · rw [hgot]
    exact Option.some_ne_none _
  · rw [hgot, hx, ite_self]

theorem looked (h : σ.VictimFree s₀) {q : Pending} {asleep : Bool} {a : Answer} {l : LockTable}
    (hr : σ.running t = some ⟨call, q, asleep⟩)
    (hlook : LockTable.Looked σ.store.locks q.request a l)
    (he : ({ σ.store with locks := l }.answer q a).1.ends = true) :
    Goes s₀ σ t call (some q.request.page) ({ σ.store with locks := l }.answer q a) := by
  have hl : { σ.store with locks := l }.ledger = σ.store.ledger :=
    Store.ledger_relock hlook.aborted_eq
  cases a with
  | refused => exact absurd (hlook.refused_iff.1 rfl) (h.active _)
  | waiting =>
    exact .waiting hr ((h.heads t _ hr).1.mono rfl fun _ hcount => hcount.congr rfl rfl) hl
  | granted =>
    exact .resumed hr hl rfl ((h.granted hr hlook).mono fun hend => nomatch he.symm.trans hend)

/-- **What becomes of a call that is carried on.** -/
theorem goes (h : σ.VictimFree s₀) (hc : CarriesOn t σ call p run) : Goes s₀ σ t call p run := by
  cases hc with
  | begin hn hp hends =>
    rcases Store.start_cases h.matchesFiles.indexed h.faults (h.active t) hp with
      ⟨e, he, hstart⟩ | ⟨he, ⟨q, m, hstart, hq, hreach, hl⟩ | ⟨-, hstart⟩⟩
    · rw [hstart]
      exact .refused he rfl
    · rw [hstart]
      exact .begun he hq hreach hl
    · rw [hstart] at hends
      cases hends
  | ask hr hends => exact h.looked hr (LockTable.looked_ask h.victimsCleared.consistent _) hends
  | @wake q _ hr hw hends =>
    have hm := LockTable.looked_wake h.victimsCleared.consistent q.request
    rw [Store.wake?] at hw
    split at hw
    · cases hw
    · rename_i a l _ he
      rw [he] at hm
      cases hw
      exact h.looked hr hm hends

/-- A call that is still in progress heads for its next page. -/
theorem heads_goes (h : σ.VictimFree s₀) (hg : Goes s₀ σ t call p run) {r : Running}
    (hr : Running.of? call run.1 = some r) :
    r.call = call ∧ r.pending.Heads t run.2 call ∧ call.refusal? s₀.catalog = none := by
  cases hg with
  | refused => cases hr
  | begun hc hq =>
    cases hr
    exact ⟨rfl, hq, hc⟩
  | waiting hrun hq =>
    cases hr
    exact ⟨rfl, hq, (h.heads t _ hrun).2.2⟩
  | resumed hrun _ _ hres =>
    cases hres with
    | crowded => cases hr
    | done => cases hr
    | passed _ _ _ _ hq =>
      cases hr
      exact ⟨rfl, hq, (h.heads t _ hrun).2.2⟩
    | endless _ _ hs => exact hs.elim

theorem carry (h : σ.VictimFree s₀) (hc : CarriesOn t σ call p run) :
    (σ.carry t call run).VictimFree s₀ := by
  obtain ⟨a, ha, -, -, hs⟩ := hc.step s₀.catalog
  have hplain := h.plain hc
  refine h.step ha hs (fun u table row hm => Store.short_outcomes hplain hm)
    (fun u hu => h.active u ((hc.dealt h.victimsCleared).deals.aborted_eq ▸ hu))
    fun hold u r hr => ?_
  by_cases hu : u = t
  · subst hu
    rw [running_carry_self] at hr
    obtain ⟨rfl, hq, hn⟩ := h.heads_goes (h.goes hc) hr
    exact ⟨hq, hplain, hn⟩
  · rw [running_carry_of_ne hu] at hr
    exact hold u r hr

/-- A commit succeeds, and makes the copies of the transaction the committed pages. -/
theorem commit (h : σ.VictimFree s₀) (hn : σ.running t = none) :
    { σ with store := (σ.store.commit t).2 }.VictimFree s₀ ∧ (σ.store.commit t).1 = .ok () ∧
      (σ.store.commit t).2.ledger = σ.store.ledger.commit t := by
  obtain ⟨hok, hl⟩ := Store.ledger_commit h.matchesFiles (h.active t)
  refine ⟨h.step (a := .commit) trivial (.commit hn) (fun u table row hm => ?_)
    (fun u hu => h.active u ?_) fun hold => hold, hok, hl⟩
  · rw [List.mem_singleton, Store.commitEvent, hok] at hm
    cases hm
  · have hv : (σ.store.commit t).2.ledger.victims u := hu
    rw [hl] at hv
    exact hv

/-! ### Locks and copies -/

theorem holds_carry (h : σ.VictimFree s₀) (hc : CarriesOn t σ call p run)
    (hq : σ.store.locks.heldMode? u q ≠ none) : run.2.locks.heldMode? u q ≠ none := by
  have hd := (hc.dealt h.victimsCleared).deals
  by_cases hu : u = t
  · subst hu
    obtain ⟨m, hm⟩ := Option.ne_none_iff_exists'.1 hq
    have hcov := hd.kept q m (Or.inl hm)
    rcases hcov with hcov | hcov <;>
      (rw [hcov]; exact Option.some_ne_none _)
  · rw [LockTable.heldMode?, hd.others u hu]
    exact hq

theorem holds_commit (h : σ.VictimFree s₀) (hu : u ≠ t)
    (hq : σ.store.locks.heldMode? u q ≠ none) :
    (σ.store.commit t).2.locks.heldMode? u q ≠ none := by
  have hm : Store.Move True s₀.catalog.Serves t _ σ.store (σ.store.commit t).2 := .commit σ.store
  rcases hm.heldMode?_of_ne h.changesLocked hu q with he | ⟨-, us, hs, -⟩
  · rw [he]
    exact hq
  · rw [List.mem_singleton, Store.commitEvent] at hs
    split at hs <;> cases hs

end VictimFree

/-- A call changes at most the copies of its own transaction. -/
theorem Goes.rest (hg : Goes s₀ σ t call p run) :
    run.2.ledger.committed = σ.store.ledger.committed ∧
      ∀ u, u ≠ t → run.2.ledger.overlay u = σ.store.ledger.overlay u := by
  cases hg with
  | refused _ hl => exact ⟨congrArg _ hl, fun u _ => congrArg (Ledger.overlay · u) hl⟩
  | begun _ _ _ hl => exact ⟨congrArg _ hl, fun u _ => congrArg (Ledger.overlay · u) hl⟩
  | waiting _ _ hl => exact ⟨congrArg _ hl, fun u _ => congrArg (Ledger.overlay · u) hl⟩
  | resumed _ hl _ hres =>
    rw [← hl]
    cases hres with
    | crowded _ _ _ _ hl => exact ⟨congrArg _ hl, fun u _ => congrArg (Ledger.overlay · u) hl⟩
    | done _ he => exact ⟨he.committed_eq, fun u hu => he.overlay_of_ne hu⟩
    | passed _ _ _ _ _ _ _ hl => exact ⟨congrArg _ hl, fun u _ => congrArg (Ledger.overlay · u) hl⟩
    | endless _ _ hs => exact hs.elim

end Session
end TableStore

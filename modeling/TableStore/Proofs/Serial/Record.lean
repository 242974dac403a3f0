import TableStore.Proofs.Ledger.Rows
import TableStore.Proofs.Serial.VictimFree

/-!
# Calls can be made again

A transaction holds the locks on all pages whose rows have told it anything, but for the full pages
that its inserts have given back.  So as long as those stay full, all its calls would come to the
same if they were made once more on what is committed now, with nobody else around.  When it commits,
this is what it has done.

## What is here

* `Session.Account` — the calls that have been answered, the pages that inserts have given back, and
  the transactions that have committed.  `Heard` — an answer, and whether others have left the call no
  room in the pool.
* `Session.Recorded` — a run in which everybody gets to the end, with its account; `Session.records?`
  computes the one that given steps lead to.  `Session.StillFull` — what is asked of the pages that
  inserts have given back.
* `Session.Remembers` — the calls of a transaction can be made again; `Session.Recorded.remembers` —
  they always can.
* `Session.Settles` — the committed rows come from transactions that run one after the other;
  `Session.Recorded.settles` — they always do.
-/

set_option autoImplicit false
namespace TableStore

/-- The pool was full of pages that have been changed. -/
def Reply.crowded (reply : Reply) : Bool :=
  match reply.result with
  | .error (.poolFull _) => true
  | _ => false

/-- Somebody else has had a part in filling the pool. -/
def Store.crowdedOut (s : Store) (t : TxnId) (reply : Reply) : Bool :=
  reply.crowded && s.cache.pages.keys.any fun p => p ∉ s.cache.dirtyPages t

/-- An answer to a call. -/
structure Heard where
  call : Call
  reply : Reply
  /-- The pool was full, and others had a part in it. -/
  crowdedOut : Bool

/-- The call with its answer. -/
def Heard.told (x : Heard) : Call × Reply := (x.call, x.reply)

namespace Ledger

/-- A ledger in which nobody has done anything yet. -/
def bare (committed : RecordId → Option Row) : Ledger :=
  { committed, overlay := fun _ _ => none, victims := fun _ => False }

end Ledger

namespace Session

variable {s₀ : Store} {σ : Session} {t u : TxnId} {call : Call} {p : Option PageId}
  {run : Progress × Store}

/-- The calls in which others have left enough room in the pool. -/
def withRoom (past : List Heard) : List (Call × Reply) :=
  (past.filter fun x => !x.crowdedOut).map Heard.told

theorem withRoom_snoc (past : List Heard) (x : Heard) :
    withRoom (past ++ [x]) =
      if x.crowdedOut then withRoom past else withRoom past ++ [x.told] := by
  rw [withRoom, List.filter_append, List.filter_singleton, List.map_append]
  cases x.crowdedOut with
  | true => exact List.append_nil _
  | false => rfl

/-! ## Accounts

An account keeps what cannot be read off a session: the calls that a transaction has made, and the
pages that its inserts have given back.  It plays no part in what happens. -/

/-- What is kept of a run. -/
structure Account where
  /-- The calls that a transaction has made since it last ended, with their answers. -/
  past : TxnId → List Heard
  /-- The pages that its inserts have found full and given back since then. -/
  passed : TxnId → List PageId
  /-- The transactions that have committed, in this order, with their calls. -/
  settled : List (TxnId × List Heard)

namespace Account

/-- Nothing has happened yet. -/
def blank : Account := ⟨fun _ => [], fun _ => [], []⟩

/-- A call of `t` that had asked for the page `p` has come as far as `run`.  An answer is noted, and
so is a page from which the call goes on if it has been given back. -/
def note (a : Account) (t : TxnId) (call : Call) (p : Option PageId) : Progress × Store → Account
  | (.done reply, s) =>
    { a with past := Function.update a.past t (a.past t ++ [⟨call, reply, s.crowdedOut t reply⟩]) }
  | (.asking _, s) =>
    match p with
    | none => a
    | some p =>
      if s.holds t p then a else { a with passed := Function.update a.passed t (p :: a.passed t) }
  | (.waiting _, _) => a
  | (.endless, _) => a

/-- A transaction commits. -/
def settle (a : Account) (t : TxnId) : Account where
  past := Function.update a.past t []
  passed := Function.update a.passed t []
  settled := a.settled ++ [(t, a.past t)]

/-- The transactions that have committed, with all of their calls. -/
def answered (a : Account) : List (TxnId × List (Call × Reply)) :=
  a.settled.map fun x => (x.1, x.2.map Heard.told)

/-- The transactions that have committed, with their calls but for those that others have left no
room. -/
def served (a : Account) : List (TxnId × List (Call × Reply)) :=
  a.settled.map fun x => (x.1, withRoom x.2)

variable {a : Account}

theorem settled_note : (a.note t call p run).settled = a.settled := by
  rw [note.eq_def]
  split
  · rfl
  · split
    · rfl
    · split <;> rfl
  · rfl
  · rfl

theorem note_of_ne (hu : u ≠ t) : (a.note t call p run).past u = a.past u ∧
    (a.note t call p run).passed u = a.passed u := by
  rw [note.eq_def]
  split
  · exact ⟨Function.update_of_ne hu _ _, rfl⟩
  · split
    · exact ⟨rfl, rfl⟩
    · split
      · exact ⟨rfl, rfl⟩
      · exact ⟨rfl, Function.update_of_ne hu _ _⟩
  · exact ⟨rfl, rfl⟩
  · exact ⟨rfl, rfl⟩

theorem mem_passed_note {q : PageId} (hq : q ∈ a.passed t) :
    q ∈ (a.note t call p run).passed t := by
  rw [note.eq_def]
  split
  · exact hq
  · split
    · exact hq
    · split
      · exact hq
      · dsimp only
        rw [Function.update_self]
        exact List.mem_cons_of_mem _ hq
  · exact hq
  · exact hq

/-- A page that a call goes on from is noted if it is not held any more. -/
theorem mem_passed_note_self {q : PageId} {next : Pending} {s : Store} (hq : s.holds t q = false) :
    q ∈ (a.note t call (some q) (.asking next, s)).passed t := by
  rw [note, hq, if_neg Bool.false_ne_true]
  dsimp only
  rw [Function.update_self]
  exact List.mem_cons_self

theorem past_note_done {reply : Reply} {s : Store} :
    (a.note t call p (.done reply, s)).past t =
      a.past t ++ [⟨call, reply, s.crowdedOut t reply⟩] :=
  Function.update_self t _ a.past

theorem settle_of_ne (hu : u ≠ t) :
    (a.settle t).past u = a.past u ∧ (a.settle t).passed u = a.passed u :=
  ⟨Function.update_of_ne hu _ _, Function.update_of_ne hu _ _⟩

theorem past_settle : (a.settle t).past t = [] := Function.update_self t _ _

end Account

/-- A run in which nobody aborts and no request runs out of time, with its account.  Transactions
commit only when they `may`. -/
inductive Recorded (s₀ : Store) (may : Account → Session → TxnId → Prop) :
    Account → Session → Prop where
  | start : Recorded s₀ may .blank (idle s₀)
  | carry {a : Account} {σ : Session} {t : TxnId} {call : Call} {p : Option PageId}
      {run : Progress × Store} (h : Recorded s₀ may a σ) (hc : CarriesOn t σ call p run) :
      Recorded s₀ may (a.note t call p run) (σ.carry t call run)
  | commit {a : Account} {σ : Session} {t : TxnId} (h : Recorded s₀ may a σ)
      (hn : σ.running t = none) (hm : may a σ t) :
      Recorded s₀ may (a.settle t) { σ with store := (σ.store.commit t).2 }

/-- All pages that the inserts of `t` have given back are full in their files. -/
def StillFull (s₀ : Store) (a : Account) (σ : Session) (t : TxnId) : Prop :=
  ∀ q ∈ a.passed t, s₀.Full q fun i => σ.store.stored? ⟨q, i⟩

instance (s₀ : Store) (a : Account) (σ : Session) (t : TxnId) : Decidable (StillFull s₀ a σ t) :=
  inferInstanceAs (Decidable (∀ q ∈ a.passed t, s₀.Full q fun i => σ.store.stored? ⟨q, i⟩))

variable {may : Account → Session → TxnId → Prop}

theorem Recorded.victimFree {a : Account} (hf : s₀.Fresh) (hi : s₀.catalog.Indexed)
    (h : Recorded s₀ may a σ) : σ.VictimFree s₀ := by
  induction h with
  | start => exact .idle hf hi
  | carry _ hc ih => exact ih.carry hc
  | commit _ hn _ ih => exact (ih.commit hn).1

/-! ### Runs that are computed -/

section Compute

variable (may) [∀ a σ t, Decidable (may a σ t)]

/-- The account and the session after a call of `t` has been carried on, if what it does comes to an
end. -/
def note? (a : Account) (σ : Session) (t : TxnId) (call : Call) (p : Option PageId)
    (run : Progress × Store) : Option (Account × Session) :=
  if run.1.ends then some (a.note t call p run, σ.carry t call run) else none

/-- What a step of `t` makes of an account and a session, if it is one of such a run. -/
def record? (a : Account) (σ : Session) (t : TxnId) : Action → Option (Account × Session)
  | .begin call =>
    if σ.running t = none ∧ call.Plain then note? a σ t call none (σ.store.start t call) else none
  | .ask =>
    match σ.running t with
    | some ⟨call, p, false⟩ => note? a σ t call (some p.request.page) (σ.store.ask p)
    | _ => none
  | .wake =>
    match σ.running t with
    | some ⟨call, p, true⟩ =>
      (σ.store.wake? p).bind (note? a σ t call (some p.request.page))
    | _ => none
  | .commit =>
    if σ.running t = none ∧ may a σ t then
      some (a.settle t, { σ with store := (σ.store.commit t).2 })
    else none
  | .expire => none
  | .abort => none

/-- What several steps make of a store in which nobody has done anything yet. -/
def records? (s₀ : Store) (steps : List (TxnId × Action)) : Option (Account × Session) :=
  steps.foldlM (fun x step => record? may x.1 x.2 step.1 step.2) (.blank, idle s₀)

variable {may} {a a' : Account} {σ' : Session}

theorem Recorded.record (h : Recorded s₀ may a σ) {x : Action}
    (hx : record? may a σ t x = some (a', σ')) : Recorded s₀ may a' σ' := by
  have hnote : ∀ {call p run}, (run.1.ends = true → CarriesOn t σ call p run) →
      note? a σ t call p run = some (a', σ') → Recorded s₀ may a' σ' := fun hc hn => by
    rw [note?] at hn
    split at hn
    · rename_i he
      cases hn
      exact h.carry (hc he)
    · cases hn
  cases x with
  | begin call =>
    rw [record?] at hx
    split at hx
    · rename_i hb
      exact hnote (.begin hb.1 hb.2) hx
    · cases hx
  | ask =>
    rw [record?] at hx
    split at hx
    · rename_i hr
      exact hnote (.ask hr) hx
    · cases hx
  | wake =>
    rw [record?] at hx
    split at hx
    · rename_i hr
      obtain ⟨run, hw, hn⟩ := Option.bind_eq_some_iff.1 hx
      exact hnote (.wake hr hw) hn
    · cases hx
  | commit =>
    rw [record?] at hx
    split at hx
    · rename_i hc
      cases hx
      exact h.commit hc.1 hc.2
    · cases hx
  | expire => cases hx
  | abort => cases hx

theorem Recorded.records {steps : List (TxnId × Action)}
    (hx : records? may s₀ steps = some (a', σ')) : Recorded s₀ may a' σ' := by
  suffices h : ∀ (steps : List (TxnId × Action)) (x : Account × Session), Recorded s₀ may x.1 x.2 →
      steps.foldlM (fun x step => record? may x.1 x.2 step.1 step.2) x = some (a', σ') →
      Recorded s₀ may a' σ' from h steps _ .start hx
  intro steps
  induction steps with
  | nil =>
    intro x h hx
    cases hx
    exact h
  | cons step steps ih =>
    intro x h hx
    obtain ⟨y, hy, hrest⟩ := Option.bind_eq_some_iff.1 hx
    exact ih y (h.record hy) hrest

end Compute

/-! ## What a transaction remembers

The calls of a transaction are made again on another ledger, which agrees with the first one where
the transaction has locks.  Pages that have been given back are the exception; it is enough that
they are full. -/

/-- The ledger `M`, on which nobody has done anything, has the committed rows of the pages that `t`
holds, and the pages that `t` has given back are full. -/
structure Suits (s₀ : Store) (a : Account) (σ : Session) (t : TxnId) (M : Ledger) : Prop where
  bare : M.overlay t = fun _ => none
  held : ∀ q, σ.store.locks.heldMode? t q ≠ none →
    ∀ i, M.committed ⟨q, i⟩ = σ.store.ledger.committed ⟨q, i⟩
  full : ∀ q ∈ a.passed t, s₀.Full q fun i => M.committed ⟨q, i⟩

/-- The calls of `t` could be made again on the ledger `M`, with the same answers.  They would lead to
the copies that `t` has, and its call in progress would get as far as it has. -/
structure Redoes (s₀ : Store) (a : Account) (σ : Session) (t : TxnId) (M M' : Ledger) : Prop where
  replay : s₀.Replay t M (withRoom (a.past t)) M'
  overlay_eq : M'.overlay t = σ.store.ledger.overlay t
  reaches : ∀ r, σ.running t = some r → s₀.Reaches t M' r.call r.pending.request.page

/-- The calls of `t` could be made again on any ledger that suits. -/
def Remembers (s₀ : Store) (a : Account) (σ : Session) (t : TxnId) : Prop :=
  ∀ M, Suits s₀ a σ t M → ∃ M', Redoes s₀ a σ t M M'

/-! ### Calls of others -/

namespace Remembers

variable {a : Account}

/-- Where a ledger suits after a call of anybody, it has suited before. -/
theorem suits_of_carry (hreg : σ.VictimFree s₀) (hc : CarriesOn t σ call p run) {M : Ledger}
    (hM : Suits s₀ (a.note t call p run) (σ.carry t call run) u M) : Suits s₀ a σ u M where
  bare := hM.bare
  held q hq i := (hM.held q (hreg.holds_carry hc hq) i).trans
    (congrFun (hreg.goes hc).rest.1 ⟨q, i⟩)
  full q hq := hM.full q (by
    by_cases hu : u = t
    · subst hu
      exact Account.mem_passed_note hq
    · rw [(Account.note_of_ne hu).2]
      exact hq)

/-- Calls of others do not matter. -/
theorem carry_of_ne (h : Remembers s₀ a σ u) (hreg : σ.VictimFree s₀)
    (hc : CarriesOn t σ call p run) (hu : u ≠ t) :
    Remembers s₀ (a.note t call p run) (σ.carry t call run) u := fun M hM => by
  obtain ⟨M', hM'⟩ := h M (suits_of_carry hreg hc hM)
  refine ⟨M', (Account.note_of_ne hu).1.symm ▸ hM'.replay,
    hM'.overlay_eq.trans ((hreg.goes hc).rest.2 u hu).symm, fun r hr => hM'.reaches r ?_⟩
  rwa [running_carry_of_ne hu] at hr

/-- Neither do commits of others: their copies are not of pages that `u` holds. -/
theorem commit_of_ne (h : Remembers s₀ a σ u) (hreg : σ.VictimFree s₀) (hn : σ.running t = none)
    (hu : u ≠ t) : Remembers s₀ (a.settle t) { σ with store := (σ.store.commit t).2 } u :=
    fun M hM => by
  obtain ⟨-, -, hl⟩ := hreg.commit hn
  have hsuits : Suits s₀ a σ u M := by
    refine ⟨hM.bare, fun q hq i => (hM.held q (hreg.holds_commit hu hq) i).trans ?_,
      fun q hq => hM.full q ?_⟩
    · obtain ⟨m, hm⟩ := Option.ne_none_iff_exists'.1 hq
      dsimp only
      rw [hl]
      exact Ledger.view_of_none (hreg.changesLocked.overlay_none hm hu.symm) i
    · rwa [(Account.settle_of_ne hu).2]
  obtain ⟨M', hM'⟩ := h M hsuits
  refine ⟨M', (Account.settle_of_ne hu).1.symm ▸ hM'.replay, hM'.overlay_eq.trans ?_, hM'.reaches⟩
  dsimp only
  rw [hl]
  exact (funext fun q => if_neg hu).symm

end Remembers

/-! ### Calls of its own -/

namespace Redoes

variable {a : Account} {M M' M'' : Ledger} {reply : Reply} {o : Outcome} {m : Store}

/-- A call that others have left no room is not made again. -/
theorem skip (h : Redoes s₀ a σ t M M') (hc : m.crowdedOut t reply = true)
    (ho : m.ledger.overlay t = σ.store.ledger.overlay t) :
    Redoes s₀ (a.note t call p (.done reply, m)) (σ.carry t call (.done reply, m)) t M M' where
  replay := by
    rw [Account.past_note_done, withRoom_snoc, if_pos hc]
    exact h.replay
  overlay_eq := h.overlay_eq.trans ho.symm
  reaches r hr := by
    rw [running_carry_self] at hr
    cases hr

/-- A call that has been answered is made again. -/
theorem answer (h : Redoes s₀ a σ t M M') (hp : call.Plain) (hw : s₀.Works t M' call o M'')
    (ht : reply.Tells o) (ho : M''.overlay t = m.ledger.overlay t)
    (hc : reply.crowded = true → m.ledger.overlay t = σ.store.ledger.overlay t) :
    ∃ M'', Redoes s₀ (a.note t call p (.done reply, m)) (σ.carry t call (.done reply, m)) t M M''
    := by
  cases hout : m.crowdedOut t reply with
  | true => exact ⟨M', h.skip hout (hc (Bool.and_eq_true_iff.1 hout).1)⟩
  | false =>
    refine ⟨M'', ?_, ho, fun r hr => ?_⟩
    · rw [Account.past_note_done, withRoom_snoc, hout]
      exact h.replay.call hp hw ht
    · rw [running_carry_self] at hr
      cases hr

/-- A call that finds no room has come to nothing. -/
theorem eq_of_crowded {q : PageId} {L L' : Ledger} (ht : reply.Tells o)
    (hc : reply.crowded = true) (he : s₀.Ends t L q call o L') : L' = L := by
  cases ht with
  | failed e =>
    cases he with
    | crowded => rfl
    | yields _ hy =>
      cases hy with
      | faulty => rfl
  | _ => cases hc

/-- Whoever has changed a page in the pool has had a part in filling it. -/
theorem crowdedOut {q : PageId} {page : Page} (hp : m.cache.pages.get? q = some page)
    (hd : page.dirtier = some u) (hu : u ≠ t) (hc : reply.crowded = true) :
    m.crowdedOut t reply = true := by
  rw [Store.crowdedOut, hc, Bool.true_and, List.any_eq_true]
  refine ⟨q, Assoc.mem_keys_iff.2 ⟨page, hp⟩, decide_eq_true fun hmem => ?_⟩
  obtain ⟨page', hp', hd'⟩ := Cache.mem_dirtyPages.1 hmem
  rw [hp] at hp'
  cases hp'
  rw [hd] at hd'
  exact hu (Option.some.inj hd')

/-- A page that an insert goes on from is passed once more: it is still held, or it has been given
back and is full. -/
theorem passes {q : PageId} {next : Pending} (h : Redoes s₀ a σ t M M')
    (hM : Suits s₀ (a.note t call (some q) (.asking next, m))
      (σ.carry t call (.asking next, m)) t M)
    (hg : m.ChangesLocked) (hl : m.ledger = σ.store.ledger) (hp : s₀.Passes t σ.store.ledger q) :
    s₀.Passes t M' q := by
  refine ⟨hp.fault, (Store.room_congr h.overlay_eq).2 hp.room, fun i hi => ?_⟩
  by_cases hq : m.locks.heldMode? t q = none
  · -- it has no copy of a page that it does not hold, and the page has been noted
    have hnone : M'.overlay t q = none := by
      rw [h.overlay_eq, ← hl]
      refine Store.overlay_eq_none fun page hpage hd => ?_
      have := hg.owned t q page hpage hd
      rw [hq] at this
      cases this
    have hnoted : q ∈ (a.note t call (some q) (.asking next, m)).passed t :=
      Account.mem_passed_note_self (by rw [Store.holds, LockTable.holds, hq]; rfl)
    rw [Ledger.view_of_none hnone, h.replay.committed_eq]
    exact hM.full q hnoted i hi
  · have hheld : ∀ i, M'.committed ⟨q, i⟩ = σ.store.ledger.committed ⟨q, i⟩ := fun i => by
      rw [h.replay.committed_eq, hM.held q hq]
      exact congrArg (fun L : Ledger => L.committed ⟨q, i⟩) hl
    rw [Ledger.view_congr (congrFun h.overlay_eq q) hheld i]
    exact hp.full i hi

end Redoes

variable {a : Account}

/-- **A call that is carried on could be carried on once more.** -/
theorem Remembers.carry (h : Remembers s₀ a σ t) (hreg : σ.VictimFree s₀)
    (hc : CarriesOn t σ call p run) :
    Remembers s₀ (a.note t call p run) (σ.carry t call run) t := fun M hM => by
  obtain ⟨M', hM'⟩ := h M (suits_of_carry hreg hc hM)
  have hover := hM'.overlay_eq
  have hlocked := (hreg.carry hc).changesLocked
  have hplain := hreg.plain hc
  cases hreg.goes hc with
  | @refused e m hn hl =>
    have ho : m.ledger.overlay t = σ.store.ledger.overlay t := by rw [hl]
    exact hM'.answer hplain (.refused hn) (.failed e) (hover.trans ho.symm) fun _ => ho
  | @begun q m hn hq hp hl =>
    refine ⟨M', hM'.replay, hover.trans (by rw [Session.carry, hl]), fun r hr => ?_⟩
    rw [running_carry_self] at hr
    cases hr
    exact hp M'
  | @waiting q asleep m hr hq hl =>
    refine ⟨M', hM'.replay, hover.trans (by rw [Session.carry, hl]), fun r hr' => ?_⟩
    rw [running_carry_self] at hr'
    cases hr'
    have hreach := hM'.reaches _ hr
    exact hreach
  | @resumed q asleep s run hr hs hcache hres =>
    have hreach := hM'.reaches _ hr
    cases hres with
    | crowded hp hd hu hkept hl =>
      rw [← hkept] at hp
      exact ⟨M', hM'.skip (Redoes.crowdedOut hp hd hu rfl) (by rw [hl, hs])⟩
    | @done reply o m ht he hlock =>
      rw [hs] at he
      have hview : M'.view t q.request.page = σ.store.ledger.view t q.request.page := by
        refine funext (Ledger.view_congr (congrFun hover _) fun i => ?_)
        rw [hM'.replay.committed_eq, hM.held _ hlock i]
        exact congrFun he.committed_eq _
      obtain ⟨M'', he', ho⟩ := he.transport hview hover
      refine hM'.answer hplain (.done (hreg.heads t _ hr).2.2 hreach he') ht ho fun hfull => ?_
      rw [Redoes.eq_of_crowded ht hfull he]
    | endless _ _ hstuck => exact hstuck.elim
    | @passed table row file n q' m hcall hfile hpage hp hq' hnext hn hl =>
      subst hcall
      rw [hs] at hp hl
      have hpasses := hM'.passes hM hlocked hl hp
      refine ⟨M', ?_, hover.trans (by rw [Session.carry, hl]), fun r hr' => ?_⟩
      · rw [Account.note]
        split <;> exact hM'.replay
      · rw [running_carry_self] at hr'
        cases hr'
        dsimp only at hreach ⊢
        rw [hpage] at hreach hpasses
        rw [hnext]
        exact hreach.next hfile hn hpasses

theorem Recorded.remembers (hf : s₀.Fresh) (hi : s₀.catalog.Indexed) (h : Recorded s₀ may a σ)
    (t : TxnId) : Remembers s₀ a σ t := by
  induction h with
  | start =>
    refine fun M hM => ⟨M, .start, hM.bare.trans ?_, fun r hr => by cases hr⟩
    refine funext fun q => (Store.overlay_eq_none fun page hp => ?_).symm
    rw [show (idle s₀).store = s₀ from rfl, hf.cache_eq] at hp
    cases hp
  | @carry a σ u call p run h hc ih =>
    have hreg := h.victimFree hf hi
    by_cases hu : t = u
    · subst hu
      exact ih.carry hreg hc
    · exact ih.carry_of_ne hreg hc hu
  | @commit a σ u h hn _ ih =>
    have hreg := h.victimFree hf hi
    by_cases hu : t = u
    · subst hu
      obtain ⟨-, -, hl⟩ := hreg.commit hn
      refine fun M hM => ⟨M, ?_, hM.bare.trans ?_, fun r hr => ?_⟩
      · rw [Account.past_settle]
        exact .start
      · dsimp only
        rw [hl]
        exact (funext fun q => if_pos rfl).symm
      · dsimp only at hr
        rw [hn] at hr
        cases hr
    · exact ih.commit_of_ne hreg hn hu

/-! ## Transactions one after the other -/

/-- The committed rows that come from transactions that run one after the other, each on what the
ones before it have committed. -/
inductive Settles (s₀ : Store) :
    List (TxnId × List (Call × Reply)) → (RecordId → Option Row) → Prop where
  | start : Settles s₀ [] s₀.ledger.committed
  | next {done : List (TxnId × List (Call × Reply))} {V : RecordId → Option Row} {t : TxnId}
      {calls : List (Call × Reply)} {M : Ledger} (h : Settles s₀ done V)
      (hr : s₀.Replay t (.bare V) calls M) :
      Settles s₀ (done ++ [(t, calls)]) (M.commit t).committed

/-- **What is committed comes from transactions that run one after the other**, in the order of their
commits. -/
theorem Recorded.settles (hf : s₀.Fresh) (hi : s₀.catalog.Indexed)
    (h : Recorded s₀ (StillFull s₀) a σ) : Settles s₀ a.served σ.store.ledger.committed := by
  induction h with
  | start => exact .start
  | carry h hc ih =>
    have hrest := ((h.victimFree hf hi).goes hc).rest.1
    rw [Account.served, Account.settled_note]
    exact hrest.symm ▸ ih
  | @commit a σ t h hn hfull ih =>
    have hreg := h.victimFree hf hi
    obtain ⟨-, -, hl⟩ := hreg.commit hn
    -- what is committed now suits: the pages that have been given back are full in their files
    obtain ⟨M, hreplay, hover, -⟩ := h.remembers hf hi t (.bare σ.store.ledger.committed)
      ⟨rfl, fun _ _ _ => rfl, fun q hq i hi he => hfull q hq i hi
        ((hreg.matchesFiles.stored?_eq ⟨q, i⟩).trans (congrArg _ he))⟩
    have hcommit : (M.commit t).committed = (σ.store.commit t).2.ledger.committed := by
      rw [hl]
      exact funext fun r => Ledger.view_congr (congrFun hover r.page)
        (fun i => congrFun hreplay.committed_eq _) r.slot
    rw [Account.served, Account.settle, List.map_append]
    exact hcommit ▸ ih.next hreplay

end Session
end TableStore

import Mathlib.Logic.Function.Basic
import TableStore.Pool.Call

/-!
# Transactions that run beside each other

Transactions make calls on one store.  A call runs until it needs a lock; there it may have to wait,
and other transactions go on.  This file describes all orders in which that can happen, and what an
observer sees of it.

## What is here

* `Event` — what an observer sees: an answer, the end of a transaction, the victims of a lock wait
  that took too long.
* `Store.seen` — a page as a transaction sees it: the one in memory, or what is stored.
  `Store.taken` is the row that it sees at a place.
* `Store.outcome` — what is seen of the answer to a call.
* `Session` — a store with the calls in progress, at most one for each transaction.
* `Session.Step` — what one transaction does next, and the events of it; `Session.act?` computes it.
* `Session.Manual` — pages written and dropped by hand, and changes from outside.

A call in progress is about to ask for a lock or waits for one.  The two are steps of their own, so
other transactions may come between them; a lock is granted and used in one step.  A call that adds
pages for ever takes no step any more.
-/

set_option autoImplicit false
namespace TableStore

/-! ## What can be seen

An observer sees the pages and rows that are handed out, the ends of transactions, refusals and
victims.  Waits are not seen. -/

/-- What an observer sees of a run. -/
inductive Event where
  /-- A call that fetches the page `id` has returned it. -/
  | read (txn : TxnId) (id : PageId) (page : Page)
  /-- A row has been inserted into a table; it carries its record id. -/
  | inserted (txn : TxnId) (table : TableId) (row : Row)
  /-- A row has been removed; this is the row as it stood in its slot. -/
  | removed (txn : TxnId) (row : Row)
  /-- A changed copy of a page has been handed out, and the pool has kept the page as it was. -/
  | copied (txn : TxnId) (page : Page)
  /-- A call or a commit has been refused. -/
  | refused (txn : TxnId) (error : Error)
  | committed (txn : TxnId)
  | aborted (txn : TxnId)
  /-- A lock wait of `txn` took too long, and others lost their locks and their changes. -/
  | struck (txn : TxnId) (victims : List TxnId)
  deriving DecidableEq

namespace Store

/-- A page as a transaction sees it: the one in memory unless somebody else has changed it, or what
is stored. -/
def seen (s : Store) (t : TxnId) (p : PageId) : Except Error Page :=
  match s.cache.pages.get? p with
  | none => s.readPage p
  | some page =>
    if page.dirtier = none ∨ page.dirtier = some t then .ok page else s.readPage p

/-- The row that a transaction sees at a place. -/
def rowSeen (s : Store) (t : TxnId) (r : RecordId) : Option Row :=
  match s.seen t r.page with
  | .error _ => none
  | .ok page => page.row? r.slot

/-- The row that a transaction sees at the place that the record id of `row` names. -/
def taken (s : Store) (t : TxnId) (row : Row) : Row := (row.rid.bind (s.rowSeen t)).getD row

/-- What is seen of the answer to a call that was made in the store `s`. -/
def outcome (s : Store) (t : TxnId) (call : Call) (reply : Reply) : Event :=
  match reply.result with
  | .error e => .refused t e
  | .ok page =>
    match call with
    | .fetch id _ => .read t id page
    | .insert table row => .inserted t table { row with rid := reply.row.bind Row.rid }
    | .remove row => .removed t (s.taken t row)
    | .insertCopy _ _ => .copied t page
    | .removeCopy _ _ => .copied t page

/-- What is seen of a call that has come as far as `progress` from the store `s`. -/
def outcomes (s : Store) (t : TxnId) (call : Call) : Progress → List Event
  | .done reply => [s.outcome t call reply]
  | .asking _ => []
  | .waiting _ => []
  | .endless => []

/-- What is seen when the time of a request is up: the victims, if it declares a deadlock. -/
def strikes (s : Store) (r : Request) : List Event :=
  match (s.locks.expire r).1 with
  | .granted => []
  | .refused => []
  | .deadlock victims => [.struck r.txn victims]

/-- What is seen of a commit. -/
def commitEvent (s : Store) (t : TxnId) : Event :=
  match (s.commit t).1 with
  | .error e => .refused t e
  | .ok () => .committed t

/-- A call that goes on for ever is never answered. -/
theorem finish_of_endless {n : Nat} {run : Progress × Store} (h : run.1 = .endless) :
    finish n run = none := by
  obtain ⟨progress, s⟩ := run
  cases h
  rw [finish]

theorem ends_of_finish {n : Nat} {run : Progress × Store} {out : Reply × Store}
    (h : finish n run = some out) : run.1.ends = true := by
  cases he : run.1 with
  | endless =>
    rw [finish_of_endless he] at h
    cases h
  | _ => rfl

/-- An empty cache and no locks. -/
structure Fresh (s : Store) : Prop where
  cache_eq : s.cache = {}
  locks_eq : s.locks = {}

end Store

/-! ## Calls in progress -/

/-- A call in progress. -/
structure Running where
  call : Call
  pending : Pending
  /-- Whether its request waits; otherwise it is about to be made. -/
  asleep : Bool
  deriving DecidableEq

/-- A call that has come so far, if it is still in progress. -/
def Running.of? (call : Call) : Progress → Option Running
  | .done _ => none
  | .asking pending => some ⟨call, pending, false⟩
  | .waiting pending => some ⟨call, pending, true⟩
  | .endless => none

/-- A store, and the calls in progress. -/
structure Session where
  store : Store
  running : TxnId → Option Running

namespace Session

/-- The answer to a call names no victims. -/
theorem not_struck_outcomes (s : Store) (t : TxnId) (call : Call) (progress : Progress)
    (u : TxnId) (us : List TxnId) : .struck u us ∉ s.outcomes t call progress := fun h => by
  cases progress with
  | done reply =>
    rw [Store.outcomes, List.mem_singleton, Store.outcome] at h
    split at h
    · cases h
    · split at h <;> cases h
  | asking p => cases h
  | waiting p => cases h
  | endless => cases h

/-- A store in which no call is in progress. -/
def idle (s : Store) : Session := ⟨s, fun _ => none⟩

/-- The session after a call of `t` has been carried on. -/
def carry (σ : Session) (t : TxnId) (call : Call) (run : Progress × Store) : Session :=
  { store := run.2, running := Function.update σ.running t (Running.of? call run.1) }

section Alone

variable (m s : Store) (t : TxnId) (call : Call) (reply : Reply) (run run' : Progress × Store)

/-- Where nobody else has called, no call is in progress once the only one is answered. -/
theorem carry_done : (idle m).carry t call (.done reply, s) = idle s :=
  congrArg (Session.mk s) (Function.update_eq_self t fun _ => none)

theorem carry_carry :
    ((idle m).carry t call run).carry t call run' = (idle run.2).carry t call run' :=
  congrArg (Session.mk run'.2) (Function.update_idem _ _ _)

end Alone

section Running

variable {σ : Session} {t u : TxnId} {call : Call} {run : Progress × Store}

theorem running_carry_self : (σ.carry t call run).running t = Running.of? call run.1 :=
  Function.update_self t _ _

theorem running_carry_of_ne (hu : u ≠ t) : (σ.carry t call run).running u = σ.running u :=
  Function.update_of_ne hu _ _

end Running

/-! ## Steps

A step begins when its transaction gets hold of the store, and ends when it waits or answers.  A
call that never does either is no step. -/

/-- What a transaction does. -/
inductive Action where
  /-- Makes a call. -/
  | begin (call : Call)
  /-- Asks for the lock that its call needs. -/
  | ask
  /-- Looks at its waiting request again, and goes on. -/
  | wake
  /-- Runs out of time. -/
  | expire
  | commit
  | abort

/-- A step of the transaction `t`, with what is seen of it.  A transaction makes a call or ends
only when none of its calls is in progress.  What a call does in a step comes to an end. -/
inductive Step (t : TxnId) : Action → Session → List Event → Session → Prop where
  | begin {σ : Session} (call : Call) (h : σ.running t = none)
      (he : (σ.store.start t call).1.ends = true) :
      Step t (.begin call) σ (σ.store.outcomes t call (σ.store.start t call).1)
        (σ.carry t call (σ.store.start t call))
  | ask {σ : Session} {call : Call} {p : Pending} (h : σ.running t = some ⟨call, p, false⟩)
      (he : (σ.store.ask p).1.ends = true) :
      Step t .ask σ (σ.store.outcomes t call (σ.store.ask p).1) (σ.carry t call (σ.store.ask p))
  | wake {σ : Session} {call : Call} {p : Pending} {run : Progress × Store}
      (h : σ.running t = some ⟨call, p, true⟩) (hw : σ.store.wake? p = some run)
      (he : run.1.ends = true) :
      Step t .wake σ (σ.store.outcomes t call run.1) (σ.carry t call run)
  | expire {σ : Session} {call : Call} {p : Pending} (h : σ.running t = some ⟨call, p, true⟩)
      (he : (σ.store.expire p).1.ends = true) :
      Step t .expire σ
        (σ.store.strikes p.request ++ σ.store.outcomes t call (σ.store.expire p).1)
        (σ.carry t call (σ.store.expire p))
  | commit {σ : Session} (h : σ.running t = none) :
      Step t .commit σ [σ.store.commitEvent t] { σ with store := (σ.store.commit t).2 }
  | abort {σ : Session} (h : σ.running t = none) :
      Step t .abort σ [.aborted t] { σ with store := σ.store.abort t }

/-- The session after a call of `t` has been carried on, with what is seen of it, if what the call
does comes to an end. -/
def carry? (σ : Session) (t : TxnId) (call : Call) (before : List Event) (run : Progress × Store) :
    Option (List Event × Session) :=
  if run.1.ends then some (before ++ σ.store.outcomes t call run.1, σ.carry t call run) else none

theorem carry?_eq_some_iff {σ σ' : Session} {t : TxnId} {call : Call} {before es : List Event}
    {run : Progress × Store} : σ.carry? t call before run = some (es, σ') ↔
      run.1.ends = true ∧ before ++ σ.store.outcomes t call run.1 = es ∧
        σ.carry t call run = σ' := by
  rw [carry?, Option.ite_none_right_eq_some, Option.some_inj, Prod.mk.injEq]

/-- The only step that a transaction can take with an action, if it can. -/
def act? (σ : Session) (t : TxnId) : Action → Option (List Event × Session)
  | .begin call =>
    match σ.running t with
    | none => σ.carry? t call [] (σ.store.start t call)
    | some _ => none
  | .ask =>
    match σ.running t with
    | some ⟨call, p, false⟩ => σ.carry? t call [] (σ.store.ask p)
    | _ => none
  | .wake =>
    match σ.running t with
    | some ⟨call, p, true⟩ => (σ.store.wake? p).bind (σ.carry? t call [])
    | _ => none
  | .expire =>
    match σ.running t with
    | some ⟨call, p, true⟩ => σ.carry? t call (σ.store.strikes p.request) (σ.store.expire p)
    | _ => none
  | .commit =>
    match σ.running t with
    | none => some ([σ.store.commitEvent t], { σ with store := (σ.store.commit t).2 })
    | some _ => none
  | .abort =>
    match σ.running t with
    | none => some ([.aborted t], { σ with store := σ.store.abort t })
    | some _ => none

theorem act?_eq_some_iff {σ σ' : Session} {t : TxnId} {a : Action} {es : List Event} :
    σ.act? t a = some (es, σ') ↔ Step t a σ es σ' := by
  constructor
  · intro h
    cases a with
    | begin call =>
      rw [act?] at h
      split at h
      · rename_i hn
        obtain ⟨he, rfl, rfl⟩ := carry?_eq_some_iff.1 h
        exact .begin call hn he
      · cases h
    | ask =>
      rw [act?] at h
      split at h
      · rename_i hr
        obtain ⟨he, rfl, rfl⟩ := carry?_eq_some_iff.1 h
        exact .ask hr he
      · cases h
    | wake =>
      rw [act?] at h
      split at h
      · rename_i hr
        obtain ⟨run, hw, h⟩ := Option.bind_eq_some_iff.1 h
        obtain ⟨he, rfl, rfl⟩ := carry?_eq_some_iff.1 h
        exact .wake hr hw he
      · cases h
    | expire =>
      rw [act?] at h
      split at h
      · rename_i hr
        obtain ⟨he, rfl, rfl⟩ := carry?_eq_some_iff.1 h
        exact .expire hr he
      · cases h
    | commit =>
      rw [act?] at h
      split at h
      · rename_i hn
        cases h
        exact .commit hn
      · cases h
    | abort =>
      rw [act?] at h
      split at h
      · rename_i hn
        cases h
        exact .abort hn
      · cases h
  · intro h
    cases h with
    | begin call hn he =>
      rw [act?, hn]
      exact carry?_eq_some_iff.2 ⟨he, rfl, rfl⟩
    | ask hr he =>
      rw [act?, hr]
      exact carry?_eq_some_iff.2 ⟨he, rfl, rfl⟩
    | wake hr hw he =>
      rw [act?, hr]
      dsimp only
      rw [hw]
      exact carry?_eq_some_iff.2 ⟨he, rfl, rfl⟩
    | expire hr he =>
      rw [act?, hr]
      exact carry?_eq_some_iff.2 ⟨he, rfl, rfl⟩
    | commit hn => rw [act?, hn]
    | abort hn => rw [act?, hn]

/-- What is done to a store by hand: pages are written or dropped, and the file system, the catalog
and the page size are changed from outside. -/
inductive Manual : Store → Store → Prop where
  | flushPage {s s' : Store} {p : PageId} (h : s.flushPage p = .ok s') : Manual s s'
  | flushTxn (s : Store) (t : TxnId) : Manual s (s.flushTxn t).2
  | flushAll (s : Store) : Manual s s.flushAll.2
  | discard (s : Store) (p : PageId) : Manual s (s.discard p)
  | outside (s : Store) (disk : Disk) (catalog : Catalog) (pageSize : PageSize) :
      Manual s { s with disk, catalog, pageSize }

end Session
end TableStore

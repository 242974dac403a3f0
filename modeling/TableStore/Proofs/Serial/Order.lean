import Mathlib.Data.List.Permutation
import TableStore.Proofs.Serial.Alone

/-!
# Committed transactions are serializable

What committed transactions have done is what they would have done one after the other, in the order
of their commits, each with the pool for itself.  Three things are not repeated: a full page that an
insert has given back may have a free slot later, and is asked to be full still when the transaction
commits; a call may find no room in the pool because of others, and is left out; and a page that has
just been added to its file may be read, where alone it is past the end.

## What is here

* `Store.Carries`, `Store.Serial` — transactions that run one after the other; `Store.Unlocked` —
  the store between two of them.
* `Session.Settles.serial` — what transactions come to on the ledger, they come to in the store.
* `Session.Recorded.serializable` — committed transactions are serializable.
* `Store.retellAll?` — computes whether transactions are told exactly the same, as `Reply.Same` says.
* `Session.Orderless` — in no order would the transactions of a run have been told exactly the same;
  `Session.orderless_runs` — there is such a run for each of the three.
-/

set_option autoImplicit false
namespace TableStore
namespace Store

variable {s₀ s m m' s' : Store} {t : TxnId} {call : Call} {reply reply' : Reply} {L : Ledger}
  {calls : List (Call × Reply)} {done : List (TxnId × List (Call × Reply))}
  {same : Reply → Reply → Prop}

/-! ## One after the other -/

/-- Calls that `t` makes one after the other where nobody else runs.  Its answers are the `same` as
those that stand with the calls. -/
inductive Carries (same : Reply → Reply → Prop) (t : TxnId) :
    Store → List (Call × Reply) → Store → Prop where
  | nil (s : Store) : Carries same t s [] s
  | cons {s m m' : Store} {call : Call} {reply reply' : Reply} {calls : List (Call × Reply)}
      {n : Nat} (hf : Store.finish n (s.start t call) = some (reply', m)) (ha : same reply reply')
      (h : Carries same t m calls m') : Carries same t s ((call, reply) :: calls) m'

/-- Transactions that run one after the other, each to its commit. -/
inductive Serial (same : Reply → Reply → Prop) :
    Store → List (TxnId × List (Call × Reply)) → Store → Prop where
  | nil (s : Store) : Serial same s [] s
  | cons {s m m' : Store} {t : TxnId} {calls : List (Call × Reply)}
      {done : List (TxnId × List (Call × Reply))} (hc : Carries same t s calls m)
      (hok : (m.commit t).1 = .ok ()) (h : Serial same (m.commit t).2 done m') :
      Serial same s ((t, calls) :: done) m'

theorem Carries.snoc (h : Carries same t s calls m) {n : Nat}
    (hf : Store.finish n (m.start t call) = some (reply', m')) (ha : same reply reply') :
    Carries same t s (calls ++ [(call, reply)]) m' := by
  induction h with
  | nil s => exact .cons hf ha (.nil m')
  | cons hf' ha' _ ih => exact .cons hf' ha' (ih hf)

theorem Serial.snoc (h : Serial same s done m) (hc : Carries same t m calls m')
    (hok : (m'.commit t).1 = .ok ()) :
    Serial same s (done ++ [(t, calls)]) (m'.commit t).2 := by
  induction h with
  | nil s => exact .cons hc hok (.nil _)
  | cons hc' hok' _ ih => exact .cons hc' hok' (ih hc)

/-! ## Between two transactions -/

/-- Between two transactions nobody has locks, and no call is in progress. -/
structure Unlocked (s₀ s : Store) : Prop where
  victimFree : (Session.idle s).VictimFree s₀
  nobodyWaits : s.NobodyWaits
  unheld : ∀ u, s.locks.holdings.get? u = none

namespace Unlocked

theorem start (hf : s₀.Fresh) (hi : s₀.catalog.Indexed) : Unlocked s₀ s₀ where
  victimFree := .idle hf hi
  nobodyWaits := hf.nobodyWaits
  unheld u := by rw [hf.locks_eq]; rfl

theorem alone (h : Unlocked s₀ s) (t : TxnId) : s.Alone t := ⟨h.nobodyWaits, fun u _ => h.unheld u⟩

/-- Nobody has copies of pages. -/
theorem ledger_eq (h : Unlocked s₀ s) : s.ledger = .bare s.ledger.committed := by
  refine Ledger.ext (fun _ => rfl) (fun u q => overlay_eq_none fun page hp hd => ?_) fun u => ?_
  · have hx : s.locks.heldMode? u q = some .exclusive :=
      h.victimFree.changesLocked.owned u q page hp hd
    rw [LockTable.heldMode?, h.unheld u] at hx
    cases hx
  · exact ⟨fun hv => h.victimFree.active u hv, False.elim⟩

theorem commit (hreg : (Session.idle s).VictimFree s₀) (ha : s.Alone t) :
    (s.commit t).1 = .ok () ∧ (s.commit t).2.ledger = s.ledger.commit t ∧
      Unlocked s₀ (s.commit t).2 := by
  obtain ⟨hfree, hok, hl⟩ := hreg.commit (t := t) rfl
  refine ⟨hok, hl, hfree, ha.nobodyWaits.commit t, fun u => ?_⟩
  rcases commit_cases s t with ⟨hv, -⟩ | ⟨e, -, -, he⟩ | ⟨-, -, he⟩
  · exact absurd hv (hreg.active t)
  · have hok' : (s.commit t).1 = .ok () := hok
    rw [he] at hok'
    cases hok'
  · rw [he]
    refine (LockTable.get?_holdings_complete _ t u).trans ?_
    rw [locks_flushPages]
    split
    · rfl
    · exact ha.others u ‹_›

end Unlocked

/-- Calls that lead to a ledger lead to a store with this ledger. -/
theorem Replay.carries {M : Ledger} (h : s₀.Replay t s.ledger calls M) (hs : Unlocked s₀ s) :
    ∃ m, Carries Reply.Alike t s calls m ∧ m.ledger = M ∧ (Session.idle m).VictimFree s₀ ∧
      m.Alone t := by
  induction h with
  | start => exact ⟨s, .nil s, rfl, hs.victimFree, hs.alone t⟩
  | @call calls M L' call reply o h hc hw ht ih =>
    obtain ⟨m, hcarries, rfl, hreg, halone⟩ := ih
    obtain ⟨n, reply', m', hf, ha⟩ := hw.finish hc hreg halone
    exact ⟨m', hcarries.snoc hf ⟨o, ht, ha.tells⟩, ha.ledger_eq, ha.victimFree, ha.alone⟩

end Store

namespace Session

open Store

variable {s₀ : Store} {σ : Session} {a : Account}

/-- **What transactions come to on the ledger, they come to in the store**, one after the other. -/
theorem Settles.serial (hf : s₀.Fresh) (hi : s₀.catalog.Indexed)
    {done : List (TxnId × List (Call × Reply))} {V : RecordId → Option Row}
    (h : Settles s₀ done V) :
    ∃ s, Serial Reply.Alike s₀ done s ∧ Unlocked s₀ s ∧ s.ledger.committed = V := by
  induction h with
  | start => exact ⟨s₀, .nil s₀, .start hf hi, rfl⟩
  | @next done V t calls M h hr ih =>
    obtain ⟨s, hserial, hs, rfl⟩ := ih
    rw [← hs.ledger_eq] at hr
    obtain ⟨m, hcarries, rfl, hreg, halone⟩ := hr.carries hs
    obtain ⟨hok, hl, hrest⟩ := Unlocked.commit hreg halone
    exact ⟨_, hserial.snoc hcarries hok, hrest, congrArg Ledger.committed hl⟩

/-- **Committed transactions are serializable.**  In a run in which nobody aborts and no request
runs out of time every commit succeeds, and the transactions that have committed may as well have run
one after the other, in the order of their commits: they would have been told the same by all of
their calls, but for those that others have left no room in the pool, and the same rows would be in
the files. -/
theorem Recorded.serializable (hf : s₀.Fresh) (hi : s₀.catalog.Indexed)
    (h : Recorded s₀ (StillFull s₀) a σ) :
    (∀ t, (σ.store.commit t).1 = .ok ()) ∧
      ∃ s, Serial Reply.Alike s₀ a.served s ∧ ∀ r, s.stored? r = σ.store.stored? r := by
  have hreg := h.victimFree hf hi
  obtain ⟨s, hserial, hs, hl⟩ := (h.settles hf hi).serial hf hi
  refine ⟨fun t => (ledger_commit hreg.matchesFiles (hreg.active t)).1, s, hserial, fun r => ?_⟩
  calc s.stored? r
    _ = (s.ledger.committed r).map Row.stored := hs.victimFree.matchesFiles.stored?_eq r
    _ = (σ.store.ledger.committed r).map Row.stored := by rw [hl]
    _ = σ.store.stored? r := (hreg.matchesFiles.stored?_eq r).symm

/-- Two transactions look for a free slot, and the second has to wait.  It goes on when the first has
committed, and finds the page full. -/
def queued : Option (Account × Session) :=
  records? (StillFull .numbers) .numbers
    [(⟨1⟩, .begin (.insert TableFile.numbers.id { values := [.int 7] })), (⟨1⟩, .ask),
      (⟨2⟩, .begin (.insert TableFile.numbers.id { values := [.int 8] })), (⟨2⟩, .ask),
      (⟨1⟩, .commit), (⟨2⟩, .wake), (⟨2⟩, .ask), (⟨2⟩, .commit)]

theorem serializable_queued :
    Store.numbers.Fresh ∧ Store.numbers.catalog.Indexed ∧ ∃ a σ, queued = some (a, σ) ∧
      a.served.map (fun x => (x.1, x.2.map fun c => c.2.row.bind Row.rid)) =
        [(⟨1⟩, [some ⟨TableFile.numbers.page 0, 0⟩]), (⟨2⟩, [some ⟨TableFile.numbers.page 1, 0⟩])] ∧
      Recorded .numbers (StillFull .numbers) a σ ∧
      ∃ s, Serial Reply.Alike .numbers a.served s ∧ ∀ r, s.stored? r = σ.store.stored? r := by
  have hf : Store.numbers.Fresh := ⟨rfl, rfl⟩
  have hi : Store.numbers.catalog.Indexed := Catalog.Indexed.empty.add _ _ _
  have hp : queued.map (fun x => x.1.served.map fun x =>
      (x.1, x.2.map fun c => c.2.row.bind Row.rid)) = some
        [(⟨1⟩, [some ⟨TableFile.numbers.page 0, 0⟩]),
          (⟨2⟩, [some ⟨TableFile.numbers.page 1, 0⟩])] := by
    decide +kernel
  obtain ⟨⟨a, σ⟩, hp, hrows⟩ := Option.map_eq_some_iff.1 hp
  have hr : Recorded .numbers (StillFull .numbers) a σ := .records hp
  exact ⟨hf, hi, a, σ, hp, hrows, hr, (hr.serializable hf hi).2⟩

end Session

/-! ## Told exactly the same

Answers that are alike do not tell a page without rows from one past the end of its file.  Here they
have to be exactly the same, and there are runs for which no order will do. -/

/-- Exactly the same is told: the same error or the same rows by slot, and the same row. -/
def Reply.Same (a b : Reply) : Prop :=
  a.result.map Page.slots = b.result.map Page.slots ∧ a.row = b.row

instance (a b : Reply) : Decidable (a.Same b) :=
  inferInstanceAs (Decidable (a.result.map Page.slots = b.result.map Page.slots ∧ a.row = b.row))

namespace Store

variable {s m : Store} {t : TxnId} {calls : List (Call × Reply)}
  {done : List (TxnId × List (Call × Reply))} {n : Nat} {x : Option Store}

/-- What the store becomes when `t` makes its calls once more where nobody else runs, with at most
`n` looks each: `some none` if it is told something else. -/
def retell? (n : Nat) (t : TxnId) : Store → List (Call × Reply) → Option (Option Store)
  | s, [] => some (some s)
  | s, (call, reply) :: calls =>
    match Store.finish n (s.start t call) with
    | none => none
    | some (reply', m) => if reply.Same reply' then retell? n t m calls else some none

/-- The same for several transactions, one after the other. -/
def retellAll? (n : Nat) : Store → List (TxnId × List (Call × Reply)) → Option (Option Store)
  | s, [] => some (some s)
  | s, (t, calls) :: done =>
    match retell? n t s calls with
    | some (some m) => retellAll? n (m.commit t).2 done
    | x => x

theorem Carries.retell (h : Carries Reply.Same t s calls m) (hx : retell? n t s calls = some x) :
    x = some m := by
  induction h with
  | nil s => exact (Option.some.inj hx).symm
  | cons hf ha _ ih =>
    rw [retell?] at hx
    split at hx
    · cases hx
    · rename_i hf'
      cases finish_unique hf hf'
      rw [if_pos ha] at hx
      exact ih hx

theorem Serial.retell (h : Serial Reply.Same s done m) (hx : retellAll? n s done = some x) :
    x = some m := by
  induction h with
  | nil s => exact (Option.some.inj hx).symm
  | cons hc _ _ ih =>
    rw [retellAll?] at hx
    split at hx
    · rename_i hm
      cases hc.retell hm
      exact ih hx
    · rename_i hn
      cases hc.retell hx
      exact absurd hx (hn _)

end Store

namespace Session

open Store

section Orders

variable (may : Account → Session → TxnId → Prop) [∀ a σ t, Decidable (may a σ t)]

/-- The transactions `ts` commit in a run, in this order, and in no order would they have been told
exactly the same one after the other. -/
def Orderless (s₀ : Store) (ts : List TxnId) (steps : List (TxnId × Action)) : Prop :=
  ∃ a σ, records? may s₀ steps = some (a, σ) ∧ Recorded s₀ may a σ ∧
    a.answered.map Prod.fst = ts ∧
    ∀ done, done.Perm a.answered → ¬ ∃ s, Serial Reply.Same s₀ done s

variable {may}

/-- It is enough to try all orders. -/
theorem orderless_of_retell {s₀ : Store} {ts : List TxnId} {steps : List (TxnId × Action)} {n : Nat}
    (h : (records? may s₀ steps).map (fun x =>
      decide (x.1.answered.map Prod.fst = ts ∧ ∀ done ∈ x.1.answered.permutations',
        (retellAll? n s₀ done).map Option.isNone = some true)) = some true) :
    Orderless may s₀ ts steps := by
  obtain ⟨⟨a, σ⟩, hp, hd⟩ := Option.map_eq_some_iff.1 h
  obtain ⟨hts, hall⟩ := of_decide_eq_true hd
  refine ⟨a, σ, hp, .records hp, hts, fun done hperm ⟨s, hs⟩ => ?_⟩
  obtain ⟨x, hx, hnone⟩ := Option.map_eq_some_iff.1 (hall done (List.mem_permutations'.2 hperm))
  rw [hs.retell hx] at hnone
  cases hnone

end Orders

/-- The first page is full, and a transaction gives it back on the way to the second one.  Another
one takes away the row of the first page and commits, and the next row of the first one finds its
place there. -/
def refilled : List (TxnId × Action) :=
  let place : RecordId := ⟨TableFile.numbers.page 0, 0⟩
  [(⟨3⟩, .begin (.insert TableFile.numbers.id { values := [.int 7] })), (⟨3⟩, .ask), (⟨3⟩, .commit),
    (⟨1⟩, .begin (.insert TableFile.numbers.id { values := [.int 8] })), (⟨1⟩, .ask), (⟨1⟩, .ask),
    (⟨2⟩, .begin (.remove { values := [.int 7], rid := some place })), (⟨2⟩, .ask), (⟨2⟩, .commit),
    (⟨1⟩, .begin (.insert TableFile.numbers.id { values := [.int 9] })), (⟨1⟩, .ask),
    (⟨1⟩, .commit)]

/-- Both pages are full, and a transaction adds a page to the file.  Another one is handed the page
before the first one has its lock. -/
def lengthened : List (TxnId × Action) :=
  [(⟨3⟩, .begin (.insert TableFile.numbers.id { values := [.int 7] })), (⟨3⟩, .ask),
    (⟨3⟩, .begin (.insert TableFile.numbers.id { values := [.int 8] })), (⟨3⟩, .ask), (⟨3⟩, .ask),
    (⟨3⟩, .commit),
    (⟨1⟩, .begin (.insert TableFile.numbers.id { values := [.int 9] })), (⟨1⟩, .ask), (⟨1⟩, .ask),
    (⟨2⟩, .begin (.fetch (TableFile.numbers.page 2) .readOnly)), (⟨2⟩, .ask), (⟨2⟩, .commit),
    (⟨1⟩, .ask), (⟨1⟩, .commit)]

/-- The pool has room for one page, and a transaction has changed one.  Another one wants to read
another page. -/
def pressed : List (TxnId × Action) :=
  [(⟨1⟩, .begin (.insert TableFile.notes.id { values := [.text "y"] })), (⟨1⟩, .ask),
    (⟨2⟩, .begin (.fetch (TableFile.notes.page 1) .readOnly)), (⟨2⟩, .ask), (⟨2⟩, .commit),
    (⟨1⟩, .commit)]

/-- There may be no order of the transactions where a page that an insert has given back has a free
slot again, where a page is read that has just been added to its file, and where the pool is full. -/
theorem orderless_runs :
    Orderless (fun _ _ _ => True) .numbers [⟨3⟩, ⟨2⟩, ⟨1⟩] refilled ∧
      Orderless (StillFull .numbers) .numbers [⟨3⟩, ⟨2⟩, ⟨1⟩] lengthened ∧
      Orderless (StillFull .notes) .notes [⟨2⟩, ⟨1⟩] pressed := by
  refine ⟨orderless_of_retell (n := 9) ?_, orderless_of_retell (n := 9) ?_,
    orderless_of_retell (n := 9) ?_⟩
  · decide +kernel
  · decide +kernel
  · decide +kernel

end Session
end TableStore

import TableStore.Proofs.Ledger.Refinement
import TableStore.Proofs.Pool.Protection

/-!
# Every run is a run of the ledger

Transactions read pages, put rows into tables, take rows away, commit and abort, in any order and
beside each other, in a pool of any size.  An observer cannot tell the store from a ledger.

## What is here

* `Session.Run` — the sessions that come about from a store, with all that is seen on the way.
  `Session.play?` computes the one that given steps lead to.
* `Session.FollowsLedger` — in every session on the way the calls fit, memory and files agree, and
  the ledger is the one that the history leads to.  `Session.FollowsReadable` — and all pages can be
  read if they can at first.
* `Session.Run.perform` — a call that is carried out while nobody else runs is part of such a run.
* `Session.Step.struck_iff` — a lock wait that takes too long strikes exactly the other holders.
* `Session.run_refines` — a run of a store is a run of its ledger, and without cuts if all texts fit.
* `Session.overlong_text_cut` — a text that does not fit is cut when its page is read again, so there
  are runs of a store that are no runs of its ledger without cuts.
-/

set_option autoImplicit false
namespace TableStore

/-! ## Moves and runs -/

namespace Store

variable {sealed : Prop} {serves : TableId → TableFile → Prop} {t : TxnId} {es h : List Event}
  {s s' : Store}

theorem catalog_flushPages (s : Store) (ps : List PageId) :
    (s.flushPages ps).2.catalog = s.catalog := by
  refine flushPages_induction (P := fun m => m.catalog = s.catalog) (fun m p m' hm hf => ?_) ps rfl
  rcases flushPage_cases hf with ⟨rfl, -⟩ | ⟨page, file, disk, -, -, -, -, rfl⟩
  · exact hm
  · exact hm

/-- The tables of a store are always the same. -/
theorem Move.catalog_eq (hm : Move sealed serves t es s s') (hg : s.ChangesLocked) :
    s'.catalog = s.catalog := by
  cases hm with
  | refresh hr => exact hr.catalog_eq
  | @strike _ k _ _ hk =>
    have hd := discarded_foldl_rollBack (s := { s with locks := k }.bump .deadlocks)
      (hk.same.consistent hg.consistent) hg.sound (s.locks.victimsOf t)
    exact hd.sameFiles.catalog_eq
  | commit =>
    rcases commit_cases s t with ⟨-, he⟩ | ⟨e, -, -, he⟩ | ⟨-, -, he⟩
    · rw [he]
    · rw [he, catalog_flushPages]
    · rw [he, catalog_flushPages]
  | abort => exact (discarded_abort hg.consistent hg.sound t).sameFiles.catalog_eq
  | _ => rfl

/-- Moves of a transaction are a run of the ledger. -/
theorem Moves.simulate (hm : Moves sealed serves t es s s') (hi : s.MatchesFiles) (hsealed : sealed)
    (hserves : ∀ table file, serves table file → s.catalog.file table = .ok file) {L₀ : Ledger}
    (hr : Ledger.Run L₀ h s.ledger) :
    s'.MatchesFiles ∧ s'.catalog = s.catalog ∧ Ledger.Run L₀ (h ++ es) s'.ledger := by
  induction hm generalizing h with
  | done => exact ⟨hi, rfl, by rwa [List.append_nil]⟩
  | more hm _ ih =>
    have hc := hm.catalog_eq hi.changesLocked
    have hs := hm.simulate hi hsealed hserves hr
    obtain ⟨hi', hc', hs'⟩ :=
      ih (hm.matchesFiles hi hsealed hserves) (fun table file h => hc ▸ hserves table file h) hs
    rw [List.append_assoc] at hs'
    exact ⟨hi', hc'.trans hc, hs'⟩

/-- Moves of a transaction leave all pages readable. -/
theorem Moves.readable (hm : Moves sealed serves t es s s') (hi : s.MatchesFiles) (hsealed : sealed)
    (hserves : ∀ table file, serves table file → s.catalog.file table = .ok file)
    (hr : s.Readable) : s'.Readable := by
  induction hm with
  | done => exact hr
  | more hm _ ih =>
    have hc := hm.catalog_eq hi.changesLocked
    exact ih (hm.matchesFiles hi hsealed hserves) (fun table file h => hc ▸ hserves table file h)
      (hm.readable hi hsealed hserves hr)

/-! ### Counted pages

What one transaction has counted still agrees with the files when others have made theirs grow. -/

section Counts

variable {search : SlotSearch} {file : TableFile}

theorem CountsPages.rewritten (h : s.CountsPages search) (hr : Rewritten s s') :
    s'.CountsPages search := by
  have hcount := hr.pageCount_eq search.file
  exact ⟨h.next_le, hcount.symm ▸ h.count_le, fun hfull =>
    (h.full (hr.wholePages_eq search.file ▸ hfull)).trans hcount.symm⟩

theorem CountsPages.append (h : s.CountsPages search) (hroom : file.HasRoom s.disk s.pageSize) :
    { s with disk := (file.appendPage s.disk s.pageSize).2 }.CountsPages search := by
  refine ⟨h.next_le, Nat.le_trans h.count_le (TableFile.pageCount_le_appendPage hroom _),
    fun hfull => ?_⟩
  by_cases hp : search.file.path = file.path
  · have hwhole := file.wholePages_appendPage s.disk s.pageSize
    rw [hroom.pageCount_eq, Nat.max_eq_right (Nat.le_succ _)] at hwhole
    rw [wholePages, TableFile.wholePages_of_path hp, hwhole] at hfull
    exact absurd hroom (Nat.not_lt.2 hfull)
  · have hc : (file.appendPage s.disk s.pageSize).2.content search.file.path =
        s.disk.content search.file.path := TableFile.content_writeAt_of_ne hp _ _
    have hcount : s.pageCount search.file = _ := (TableFile.pageCount_congr hc).symm
    have hwhole : _ = s.wholePages search.file := TableFile.wholePages_congr hc
    exact (h.full (Nat.le_trans hfull (Nat.le_of_eq hwhole))).trans hcount

theorem Move.counts (hm : Move sealed serves t es s s') (hi : s.MatchesFiles) (hsealed : sealed)
    (h : s.CountsPages search) : s'.CountsPages search := by
  have hg := hi.changesLocked
  cases hm with
  | refresh hr => exact h.congr hr.disk_eq hr.pageSize_eq
  | append _ hroom => exact h.append (hroom hsealed)
  | @strike _ k _ _ hk =>
    have hd := discarded_foldl_rollBack (s := { s with locks := k }.bump .deadlocks)
      (hk.same.consistent hg.consistent) hg.sound (s.locks.victimsOf t)
    exact h.congr hd.sameFiles.disk_eq hd.sameFiles.pageSize_eq
  | commit => exact h.rewritten (hi.commit t)
  | abort =>
    have hd := discarded_abort hg.consistent hg.sound t
    exact h.congr hd.sameFiles.disk_eq hd.sameFiles.pageSize_eq
  | _ => exact h.congr rfl rfl

theorem Moves.counts (hm : Moves sealed serves t es s s') (hi : s.MatchesFiles) (hsealed : sealed)
    (hserves : ∀ table file, serves table file → s.catalog.file table = .ok file)
    (h : s.CountsPages search) : s'.CountsPages search := by
  induction hm with
  | done => exact h
  | more hm _ ih =>
    have hc := hm.catalog_eq hi.changesLocked
    exact ih (hm.matchesFiles hi hsealed hserves) (fun table file h => hc ▸ hserves table file h)
      (hm.counts hi hsealed h)

end Counts

/-- The victims of a deadlock are the others that hold locks. -/
theorem ChangesLocked.mem_victimsOf (h : s.ChangesLocked) {u : TxnId} :
    u ∈ s.locks.victimsOf t ↔ u ≠ t ∧ ∃ p, s.holds u p = true := by
  rw [h.consistent.mem_victimsOf_iff]
  refine and_congr_right fun _ => ⟨fun hu => hu.2, fun hu => ⟨fun ha => ?_, hu⟩⟩
  exact h.consistent.get?_ne_none_iff.2 hu (h.marked u ha)

/-- What has been read from files would lose nothing if it were stored again. -/
theorem Fresh.ledger_fits (h : s.Fresh) : s.ledger.Fits where
  committed r row hr := by
    have hc : s.ledger.committed r = s.stored? r :=
      committed_of_not_clean (fun page hp => by rw [h.cache_eq] at hp; cases hp) r.slot
    rw [hc, stored?] at hr
    split at hr
    · cases hr
    · rename_i page hread
      obtain ⟨-, -, hstored⟩ := readPage_home hread
      have := hstored r.slot
      rw [hr] at this
      exact Option.some.inj this
  overlay t p rows i row ho := by
    rw [overlay_eq_none fun page hp => by rw [h.cache_eq] at hp; cases hp] at ho
    cases ho

end Store

/-! ## Runs of a store

Steps of different transactions come in any order, and what is seen of them makes one history.  A
run holds the history and the session that it has led to. -/

/-- Calls to the pool put rows into files of the catalog only. -/
theorem Call.served_of_pool {c : Catalog} {call : Call}
    (hc : ∀ file row, call ≠ .insertCopy file row) : call.Served c.Serves c := by
  cases call with
  | insert table row => exact fun _ hf => hf
  | insertCopy file row => exact absurd rfl (hc file row)
  | _ => trivial

namespace Session

variable {s₀ : Store} {h h₀ es : List Event} {σ σ' : Session} {t : TxnId} {call : Call}

/-- The sessions that come about from a store in which no call is in progress, with all that is seen
on the way.  Calls that put rows into a file other than the catalog's are left out; there are none
among the calls to the pool. -/
inductive Run (s₀ : Store) : List Event → Session → Prop where
  | start : Run s₀ [] (idle s₀)
  | step {h es : List Event} {σ σ' : Session} {t : TxnId} {a : Action} (hr : Run s₀ h σ)
      (ha : a.Served s₀.catalog.Serves s₀.catalog) (hs : Step t a σ es σ') :
      Run s₀ (h ++ es) σ'

/-- What is seen of several steps, if all of them can be taken. -/
def play? (σ : Session) : List (TxnId × Action) → Option (List Event × Session)
  | [] => some ([], σ)
  | (t, a) :: rest =>
    match σ.act? t a with
    | none => none
    | some (es, σ') => (σ'.play? rest).map fun run => (es ++ run.1, run.2)

theorem Run.play {as : List (TxnId × Action)} (hr : Run s₀ h σ)
    (ha : ∀ x ∈ as, x.2.Served s₀.catalog.Serves s₀.catalog)
    (hp : σ.play? as = some (es, σ')) : Run s₀ (h ++ es) σ' := by
  induction as generalizing h es σ with
  | nil =>
    cases hp
    rwa [List.append_nil]
  | cons x as ih =>
    obtain ⟨hx, has⟩ := List.forall_mem_cons.1 ha
    rw [play?] at hp
    split at hp
    · cases hp
    · rename_i es₁ σ₁ hact
      obtain ⟨⟨es₂, σ₂⟩, hrest, he⟩ := Option.map_eq_some_iff.1 hp
      cases he
      rw [← List.append_assoc]
      exact ih (hr.step hx (act?_eq_some_iff.1 hact)) has hrest

/-- What every run keeps up. -/
structure FollowsLedger (s₀ : Store) (h : List Event) (σ : Session) : Prop where
  callsFit : σ.CallsFit s₀.catalog.Serves
  counted : σ.CountsPages
  matchesFiles : σ.store.MatchesFiles
  catalog_eq : σ.store.catalog = s₀.catalog
  run : Ledger.Run s₀.ledger h σ.store.ledger

theorem FollowsLedger.step (h : FollowsLedger s₀ h₀ σ) {a : Action}
    (ha : a.Served s₀.catalog.Serves s₀.catalog) (hs : Step t a σ es σ') :
    FollowsLedger s₀ (h₀ ++ es) σ' ∧ Store.Moves True s₀.catalog.Serves t es σ.store σ'.store := by
  have hc := h.catalog_eq
  have hserves : ∀ table file, s₀.catalog.Serves table file →
      σ.store.catalog.file table = .ok file := fun _ _ hs => hc.symm ▸ hs
  have hstep : Moved True s₀.catalog.Serves t es σ σ' :=
    hs.moved (hc.symm ▸ ha) h.callsFit fun _ => h.counted
  have hm := hstep.moves
  obtain ⟨hi, hc', hrun⟩ := hm.simulate h.matchesFiles trivial hserves h.run
  refine ⟨⟨hstep.callsFit, fun u r hr search he => ?_, hi, hc'.trans hc, hrun⟩, hm⟩
  by_cases hu : u = t
  · subst hu
    exact hstep.counted trivial r hr search he
  · rw [hstep.others u hu] at hr
    exact hm.counts h.matchesFiles trivial hserves (h.counted u r hr search he)

theorem Run.followsLedger (hf : s₀.Fresh) (hi : s₀.catalog.Indexed) (hr : Run s₀ h σ) :
    FollowsLedger s₀ h σ := by
  induction hr with
  | start =>
    exact ⟨.idle hf.changesLocked, fun _ _ hr => (nomatch hr), hf.matchesFiles hi, rfl, .start⟩
  | step _ ha hstep ih => exact (ih.step ha hstep).1

/-- What every run keeps up, if all pages can be read at first. -/
structure FollowsReadable (s₀ : Store) (h : List Event) (σ : Session) : Prop where
  callsFit : σ.CallsFit s₀.catalog.Serves
  matchesReadable : σ.store.MatchesReadable
  catalog_eq : σ.store.catalog = s₀.catalog
  run : Ledger.Run s₀.ledger h σ.store.ledger

theorem Run.readable (hf : s₀.Fresh) (hs : s₀.Readable) (hr : Run s₀ h σ) :
    σ.store.Readable := by
  induction hr with
  | start => exact hs
  | step hr ha hstep ih =>
    have ht := hr.followsLedger hf hs.indexed
    exact (ht.step ha hstep).2.readable ht.matchesFiles trivial
      (fun _ _ hs => ht.catalog_eq.symm ▸ hs) ih

theorem Run.followsReadable (hf : s₀.Fresh) (hs : s₀.Readable) (hr : Run s₀ h σ) :
    FollowsReadable s₀ h σ := by
  have ht := hr.followsLedger hf hs.indexed
  exact ⟨ht.callsFit, ht.matchesFiles.matchesReadable (hr.readable hf hs), ht.catalog_eq, ht.run⟩

/-! ## Calls that are carried out alone

Somebody who calls where nobody else runs sees one call and one answer.  In a run this takes several
steps, of which all but the last are silent, unless a deadlock is declared. -/

section Alone

variable {s s' m : Store} {reply : Reply}

/-- A deadlock is declared by the transaction whose time is up, and strikes the others that hold
locks. -/
theorem strikes_cases (hc : s.locks.Consistent) (r : Request) :
    s.strikes r = [] ∨ s.strikes r = [.struck r.txn (s.locks.victimsOf r.txn)] := by
  rw [Store.strikes]
  rcases LockTable.expire_cases hc r with ⟨l, he, -⟩ | ⟨l, he, -⟩ | ⟨l, he, -⟩
  · rw [he]
    exact Or.inl rfl
  · rw [he]
    exact Or.inl rfl
  · rw [he]
    exact Or.inr rfl

/-- The rest of a call that is carried out alone.  Nothing is seen of it but victims, and at last
its answer. -/
theorem Run.finish (hf : s₀.Fresh) (hs : s₀.Readable) {n : Nat} {run : Progress × Store}
    (hr : Run s₀ (h ++ m.outcomes t call run.1) ((idle m).carry t call run))
    (hp : Store.finish n run = some (reply, s')) :
    ∃ (es : List Event) (m' : Store), (∀ e ∈ es, ∃ us, e = .struck t us) ∧
      Run s₀ (h ++ es ++ [m'.outcome t call reply]) (idle s') := by
  fun_induction Store.finish n run generalizing h m with
  | case1 _ r s =>
    cases hp
    rw [carry_done] at hr
    exact ⟨[], m, fun _ he => absurd he List.not_mem_nil, by rwa [List.append_nil]⟩
  | case2 => cases hp
  | case3 => cases hp
  | case4 n p s ih =>
    have hask := hr.step (a := .ask) trivial (.ask running_carry_self (Store.ends_of_finish hp))
    rw [carry_carry, Store.outcomes, List.append_nil] at hask
    exact ih hask hp
  | case5 n p s ih =>
    have hrun : ((idle m).carry t call (.waiting p, s)).running t = some ⟨call, p, true⟩ :=
      running_carry_self
    have hexpire := hr.step (a := .expire) trivial (.expire hrun (Store.ends_of_finish hp))
    rw [carry_carry, Store.outcomes, List.append_nil, ← List.append_assoc] at hexpire
    obtain ⟨es, m', hes, hend⟩ := ih hexpire hp
    have ho := (hr.followsReadable hf hs).callsFit
    have hg : s.ChangesLocked := ho.changesLocked
    refine ⟨s.strikes p.request ++ es, m', fun e he => ?_, by rwa [← List.append_assoc]⟩
    rcases List.mem_append.1 he with he | he
    · rcases strikes_cases hg.consistent p.request with hn | hv
      · rw [hn] at he
        cases he
      · rw [hv, (ho.fits _ _ hrun).txn_eq] at he
        exact ⟨_, List.mem_singleton.1 he⟩
    · exact hes e he

/-- **A call that is carried out alone is part of a run.** -/
theorem Run.perform (hf : s₀.Fresh) (hs : s₀.Readable) (hr : Run s₀ h (idle s))
    (hc : call.Served s₀.catalog.Serves s₀.catalog) (hp : s.perform t call = some (reply, s')) :
    ∃ (es : List Event) (m : Store), (∀ e ∈ es, ∃ us, e = .struck t us) ∧
      Run s₀ (h ++ es ++ [m.outcome t call reply]) (idle s') :=
  Run.finish hf hs (hr.step (a := .begin call) hc (.begin call rfl (Store.ends_of_finish hp))) hp

end Alone

/-! ## Victims -/

/-- A lock wait that takes too long strikes exactly the others that hold locks. -/
theorem Step.struck_iff {a : Action} (ho : σ.CallsFit s₀.catalog.Serves) (hs : Step t a σ es σ')
    {u : TxnId} {us : List TxnId} (he : .struck u us ∈ es) :
    u = t ∧ ∀ v, v ∈ us ↔ v ≠ t ∧ ∃ p, σ.store.holds v p = true := by
  cases hs with
  | begin => exact absurd he (not_struck_outcomes _ _ _ _ _ _)
  | ask => exact absurd he (not_struck_outcomes _ _ _ _ _ _)
  | wake => exact absurd he (not_struck_outcomes _ _ _ _ _ _)
  | expire hr _ =>
    have he := (List.mem_append.1 he).resolve_right (not_struck_outcomes _ _ _ _ _ _)
    rcases strikes_cases ho.changesLocked.consistent _ with hn | hv
    · rw [hn] at he
      cases he
    · rw [hv, (ho.fits _ _ hr).txn_eq, List.mem_singleton] at he
      cases he
      exact ⟨rfl, fun v => ho.changesLocked.mem_victimsOf⟩
  | commit =>
    rw [List.mem_singleton, Store.commitEvent] at he
    split at he <;> cases he
  | abort =>
    rw [List.mem_singleton] at he
    cases he

/-! ## The store and its ledger -/

/-- **A store cannot be told from its ledger.**  At first nothing is committed but what the files
hold.  Then all that is seen of transactions beside each other is a run of the ledger: pages are
read as the ledger shows them, a row that is put into a table or taken away changes one place of the
copy that the transaction has of one page, a commit makes the copies the committed pages, an abort
drops them, and a lock wait that takes too long drops those of exactly the others that hold locks.
A commit is refused to victims only.  Pages that leave the cache and come back are not seen, but for
texts that are too long to be stored: those are cut.  Calls that are carried out alone, so that a
request that has to wait runs out of time at once, make up such a run as well. -/
theorem run_refines (hf : s₀.Fresh) (hs : s₀.Readable) (hr : Run s₀ h σ) :
    ((∀ r, s₀.ledger.committed r = s₀.stored? r) ∧ (∀ t p, s₀.ledger.overlay t p = none) ∧
      ∀ t, ¬ s₀.ledger.victims t) ∧
    Ledger.Run s₀.ledger h σ.store.ledger ∧
    ((∀ row, Ledger.Inserts h row → row.stored = row) →
      Ledger.Exact s₀.ledger h σ.store.ledger) ∧
    (∀ t, (σ.store.commit t).1 = .ok () ↔ ¬ σ.store.ledger.victims t) ∧
    (∀ t a es σ' u us, Step t a σ es σ' → .struck u us ∈ es →
      u = t ∧ ∀ v, v ∈ us ↔ v ≠ t ∧ ∃ p, σ.store.holds v p = true) ∧
    (∀ s t call reply s', σ = idle s → (∀ file row, call ≠ .insertCopy file row) →
      s.perform t call = some (reply, s') →
      ∃ (es : List Event) (m : Store), (∀ e ∈ es, ∃ us, e = .struck t us) ∧
        Run s₀ (h ++ es ++ [m.outcome t call reply]) (idle s')) := by
  have hfollows := hr.followsReadable hf hs
  have hempty : ∀ p page, s₀.cache.pages.get? p = some page → False := fun p page hp => by
    rw [hf.cache_eq] at hp
    cases hp
  refine ⟨⟨fun r => ?_, fun t p => ?_, fun t ht => ?_⟩, hfollows.run, fun hfit => ?_,
    fun t => Store.commit_ok_iff hfollows.matchesReadable.matchesFiles,
    fun t a es σ' u us hstep he => hstep.struck_iff hfollows.callsFit he,
    fun s t call reply s' he hc hp => ?_⟩
  · exact Store.committed_of_not_clean (fun page hp => (hempty _ page hp).elim) r.slot
  · exact Store.overlay_eq_none fun page hp => (hempty p page hp).elim
  · rw [Store.ledger, hf.locks_eq] at ht
    exact Distinct.not_mem_empty t ht
  · exact (hfollows.run.exact hf.ledger_fits hfit).1
  · subst he
    exact hr.perform hf hs (Call.served_of_pool hc) hp

/-- A transaction changes a page, and loses the change to another one that waits for the page. -/
def bereft : Option (List Event × Session) :=
  (idle .numbers).play?
    [(⟨1⟩, .begin (.insert TableFile.numbers.id { values := [.int 7] })), (⟨1⟩, .ask),
      (⟨2⟩, .begin (.fetch (TableFile.numbers.page 0) .readOnly)), (⟨2⟩, .ask), (⟨2⟩, .expire),
      (⟨2⟩, .ask), (⟨2⟩, .commit)]

theorem run_refines_bereft :
    Store.numbers.Fresh ∧ Store.numbers.Readable ∧ ∃ h σ, .struck ⟨2⟩ [⟨1⟩] ∈ h ∧
      Run .numbers h σ ∧ Ledger.Run Store.numbers.ledger h σ.store.ledger := by
  have hf : Store.numbers.Fresh := ⟨rfl, rfl⟩
  have hs : Store.numbers.Readable := .single rfl (by decide +kernel)
  have hp : bereft.map (fun run => decide (.struck ⟨2⟩ [⟨1⟩] ∈ run.1)) = some true := by
    decide +kernel
  obtain ⟨⟨h, σ⟩, hp, hm⟩ := Option.map_eq_some_iff.1 hp
  have hr : Run .numbers h σ :=
    Run.start.play (by simp [Action.Served, Call.Served, Catalog.Serves]) hp
  exact ⟨hf, hs, h, σ, of_decide_eq_true hm, hr, (run_refines hf hs hr).2.1⟩

/-! ## A text that is too long -/

/-- A text of 129 characters is committed, another page takes the place in memory, and the text is
read. -/
def overlong : Option (List Event × Session) :=
  let text := String.ofList (List.replicate 129 'x')
  (idle .notes).play?
    [(⟨1⟩, .begin (.insert TableFile.notes.id { values := [.text text] })), (⟨1⟩, .ask),
      (⟨1⟩, .commit), (⟨2⟩, .begin (.fetch (TableFile.notes.page 1) .readOnly)), (⟨2⟩, .ask),
      (⟨2⟩, .begin (.fetch (TableFile.notes.page 0) .readOnly)), (⟨2⟩, .ask)]

/-- A row is committed, and something else is read at its place then. -/
def misread : List Event → Bool
  | [.inserted t _ row, .committed t', .read _ _ _, .read u p page] =>
    t' = t ∧ u ≠ t ∧ row.rid = some ⟨p, 0⟩ ∧ page.row? 0 ≠ some row
  | _ => false

/-- What is read is not what has been put in, so this is no run of the ledger without cuts. -/
theorem overlong_text_cut :
    Store.notes.Fresh ∧ Store.notes.Readable ∧ ∃ h σ, overlong = some (h, σ) ∧
      Run .notes h σ ∧ ¬ Ledger.Exact Store.notes.ledger h σ.store.ledger := by
  have hf : Store.notes.Fresh := ⟨rfl, rfl⟩
  have hs : Store.notes.Readable := .single rfl (by decide +kernel)
  have hp : overlong.map (fun run => misread run.1) = some true := by decide +kernel
  obtain ⟨⟨h, σ⟩, hp, hm⟩ := Option.map_eq_some_iff.1 hp
  have hr : Run .notes h σ :=
    Run.start.play (by simp [Action.Served, Call.Served, Catalog.Serves]) hp
  refine ⟨hf, hs, h, σ, hp, hr, fun hx => ?_⟩
  generalize σ.store.ledger = L₄ at hx
  dsimp only at hm
  rw [misread.eq_def] at hm
  split at hm
  · rename_i t table row t' v q other u p page
    obtain ⟨rfl, hu, hrid, hne⟩ := of_decide_eq_true hm
    obtain ⟨L₃, hx, hread⟩ := hx.last (h := [_, _, _])
    obtain ⟨L₂, hx, hother⟩ := hx.last (h := [_, _])
    obtain ⟨L₁, hx, hcommit⟩ := hx.last (h := [_])
    obtain ⟨L, hx, hinsert⟩ := hx.last (h := [])
    obtain rfl := hx.eq_of_nil
    cases hinsert with
    | @inserted _ _ _ _ r hr' =>
      obtain rfl : r = ⟨p, 0⟩ := Option.some.inj (hr'.symm.trans hrid)
      cases hcommit
      cases hother
      cases hread with
      | read _ hseen =>
        have hnone : Store.notes.ledger.overlay u p = none :=
          Store.overlay_eq_none fun page hp => by cases hp
        have ho : ((Store.notes.ledger.put t' ⟨p, 0⟩ (some row)).commit t').overlay u p = none :=
          (if_neg hu).trans ((Ledger.overlay_put_of_ne _ hu).trans hnone)
        refine hne ((hseen 0).trans ((Ledger.view_of_none ho 0).trans ?_))
        exact Ledger.view_put_self _ t' ⟨p, 0⟩ _
  · cases hm

end Session
end TableStore

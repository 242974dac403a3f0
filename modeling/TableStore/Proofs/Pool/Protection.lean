import TableStore.Proofs.Pool.Step

/-!
# Uncommitted changes are protected

Transactions make calls beside each other, wait for locks, are woken, run out of time and end, in any
order, while pages are written and dropped by hand and the files change from outside.  Nothing of
this exposes the uncommitted changes of a transaction to another one.

## What is here

* `Session.Reachable` — the sessions that come about from a store with an empty pool.
* `Session.Reachable.callsFit` — in all of them changes are locked, and the calls fit.
* `Session.changes_protected` — so a page with changes is locked by whoever made them, and nobody
  else replaces it, drops it or reads it.
-/

set_option autoImplicit false
namespace TableStore

/-! ## By hand -/

/-- Writing and dropping pages by hand changes no lock. -/
theorem Session.Manual.locks_eq {s s' : Store} (hm : Manual s s') : s'.locks = s.locks := by
  cases hm with
  | flushPage hf =>
    rcases Store.flushPage_cases hf with ⟨rfl, -⟩ | ⟨page, file, disk, -, -, -, -, rfl⟩
    · rfl
    · rfl
  | flushTxn t => exact Store.locks_flushPages s _
  | flushAll => exact Store.locks_flushPages s _
  | discard => rfl
  | outside => rfl

/-- It keeps the protection up. -/
theorem Session.Manual.changesLocked {s s' : Store} (hm : Manual s s') (h : s.ChangesLocked) :
    s'.ChangesLocked := by
  cases hm with
  | flushPage hf => exact h.flushPage hf
  | flushTxn t => exact h.flushPages _
  | flushAll => exact h.flushPages _
  | discard p =>
    refine ⟨h.consistent, h.sound.drop p, fun t q page hq hd => ?_, h.marked⟩
    rw [Store.discard, Cache.get?_drop] at hq
    split at hq
    · cases hq
    · exact h.owned t q page hq hd
  | outside disk catalog pageSize => exact ⟨h.consistent, h.sound, h.owned, h.marked⟩

namespace Session

/-! ## All orders of steps

What is done by hand may come between any two steps.  Only one thing is left out, the lock that is
given back before the end, since it would expose the changes that were made under it. -/

/-- The sessions that come about from a store in which no call is in progress. -/
inductive Reachable (s₀ : Store) : Session → Prop where
  | start : Reachable s₀ (idle s₀)
  | step {σ σ' : Session} {t : TxnId} {a : Action} {es : List Event} (h : Reachable s₀ σ)
      (hs : Step t a σ es σ') : Reachable s₀ σ'
  | manual {σ : Session} {s : Store} (h : Reachable s₀ σ) (hm : Manual σ.store s) :
      Reachable s₀ { σ with store := s }

theorem Reachable.callsFit {s₀ : Store} (h₀ : s₀.Fresh) {σ : Session} (h : Reachable s₀ σ) :
    σ.CallsFit fun _ _ => True := by
  induction h with
  | start => exact .idle h₀.changesLocked
  | step _ hs ih =>
    exact (hs.moved (.of_all fun _ _ => trivial) ih False.elim).callsFit
  | manual _ hm ih =>
    exact ⟨hm.changesLocked ih.changesLocked, fun t r hr => (ih.fits t r hr).mono fun q hq => by
      rw [hm.locks_eq, hq]⟩

/-- **Uncommitted changes are always protected by the exclusive lock of whoever made them.**  So a
page that is locked in any way is clean or was changed by the holder; an abort and a rollback drop no
changes of others; a step touches no changes of others that it does not strike; and a page that is
read is clean or was changed by the reader. -/
theorem changes_protected {s₀ : Store} (h₀ : s₀.Fresh) {σ : Session} (h : Reachable s₀ σ) :
    (∀ t p page, σ.store.cache.pages.get? p = some page → page.dirtier = some t →
      σ.store.locks.heldMode? t p = some .exclusive) ∧
    (∀ t p page, σ.store.cache.pages.get? p = some page → σ.store.holds t p = true →
      page.dirtier = none ∨ page.dirtier = some t) ∧
    (∀ t u p page, u ≠ t → σ.store.cache.pages.get? p = some page → page.dirtier = some u →
      (σ.store.abort t).cache.pages.get? p = some page ∧
      (σ.store.rollBack t).cache.pages.get? p = some page) ∧
    (∀ t a es σ', Step t a σ es σ' →
      (∀ u p page, u ≠ t → σ.store.cache.pages.get? p = some page → page.dirtier = some u →
        (∀ us, .struck t us ∈ es → u ∉ us) → σ'.store.cache.pages.get? p = some page) ∧
      (∀ p page, .read t p page ∈ es → page.dirtier = none ∨ page.dirtier = some t)) := by
  have ho := h.callsFit h₀
  have hg := ho.changesLocked
  refine ⟨hg.owned, fun t p page hp hl => ?_, fun t u p page hu hp hd => ?_,
    fun t a es σ' hs => ?_⟩
  · obtain ⟨m, hm⟩ := Option.isSome_iff_exists.1 hl
    cases hd : page.dirtier with
    | none => exact Or.inl rfl
    | some u => exact Or.inr (congrArg some (hg.eq_of_owned hp hd hm))
  · have hn : page.dirtier ≠ none := by simp [hd]
    have ht : ∀ v ∈ [t], page.dirtier ≠ some v := List.forall_mem_singleton.2 fun he => by
      rw [hd] at he
      exact hu (Option.some.inj he)
    exact ⟨(Store.discarded_abort hg.consistent hg.sound t).kept p page hp hn ht,
      (Store.discarded_rollBack hg.consistent hg.sound t).kept p page hp hn ht⟩
  · have hm := (hs.moved (.of_all fun _ _ => trivial) ho False.elim).moves
    refine ⟨fun u p page hu hp hd hn => ?_, fun p page hr => hm.read_own hg hr⟩
    refine (hm.kept hg hu hp hd).resolve_right ?_
    rintro ⟨us, hus, hmem⟩
    exact hn us hus hmem

end Session

/-! ## Small stores -/

/-- The file of a table with one column of numbers. -/
def TableFile.numbers : TableFile := .ofPath ⟨[[0x61]]⟩ ⟨[⟨.int, none⟩], by decide⟩

/-- A store with one table of numbers, whose file has two pages of one slot each. -/
def Store.numbers : Store :=
  { Store.standard with
    pageSize := ⟨5, by decide⟩
    disk := { Disk.empty with files := Assoc.insert ∅ TableFile.numbers.path (Bytes.zeros 10) }
    catalog := Catalog.add {} .numbers "numbers" "" }

/-- The file of a table with one column of texts. -/
def TableFile.notes : TableFile := .ofPath ⟨[[0x62]]⟩ ⟨[⟨.text, none⟩], by decide⟩

/-- A store with one table of texts, whose file has two pages of one slot each, and with a pool of
one page. -/
def Store.notes : Store :=
  { Store.standard with
    pageSize := ⟨133, by decide⟩
    disk := { Disk.empty with files := Assoc.insert ∅ TableFile.notes.path (Bytes.zeros 266) }
    catalog := Catalog.add {} .notes "notes" ""
    capacity := 1
    capacity_pos := by decide }

namespace Session

/-- A transaction is about to ask for the first page, to put a row into it. -/
def seeking : Session :=
  let call : Call := .insert TableFile.numbers.id { values := [.int 7] }
  (idle .numbers).carry ⟨1⟩ call (Store.numbers.start ⟨1⟩ call)

/-- It has put the row into the page, and has not committed yet. -/
def placed : Session :=
  match seeking.running ⟨1⟩ with
  | none => seeking
  | some r => seeking.carry ⟨1⟩ r.call (seeking.store.ask r.pending)

theorem reachable_placed : Reachable .numbers placed := by
  have hs : Reachable .numbers seeking := .step .start (.begin _ rfl (by decide +kernel))
  have hr : (seeking.running ⟨1⟩).map Running.asleep = some false := by decide +kernel
  obtain ⟨⟨call, p, asleep⟩, hr, rfl⟩ := Option.map_eq_some_iff.1 hr
  have he : (seeking.running ⟨1⟩).all (fun r => (seeking.store.ask r.pending).1.ends) = true := by
    decide +kernel
  rw [hr] at he
  have ha := hs.step (.ask hr he)
  rw [placed, hr]
  exact ha

/-- The page with the new row is locked by the transaction, which is handed no other page with
changes. -/
theorem changes_protected_placed :
    Store.numbers.Fresh ∧ Reachable .numbers placed ∧
      placed.store.locks.heldMode? ⟨1⟩ (TableFile.numbers.page 0) = some .exclusive := by
  have hf : Store.numbers.Fresh := ⟨rfl, rfl⟩
  refine ⟨hf, reachable_placed, ?_⟩
  have hp : ∃ page, placed.store.cache.pages.get? (TableFile.numbers.page 0) = some page ∧
      page.dirtier = some ⟨1⟩ := Cache.mem_dirtyPages.1 (by decide +kernel)
  obtain ⟨page, hp, hd⟩ := hp
  exact (changes_protected hf reachable_placed).1 _ _ page hp hd

end Session
end TableStore

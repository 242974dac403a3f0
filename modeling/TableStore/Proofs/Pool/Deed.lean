import TableStore.Proofs.Pool.Alone
import TableStore.Proofs.Pool.Protection

/-!
# Stores where nobody else runs

A single thread makes calls for any number of transactions, ends them, gives back locks, and writes
and drops pages by hand; tables may be registered and files may change from outside.  Everything that
is done is a deed, and it is over before the next one begins.

## What is here

* `Deed`, `Store.Does` — what is done, with the answer to it, and what it makes of a store.
* `Store.After` — the stores after a list of deeds.
* `Store.After.nobodyWaits` — between two deeds nobody waits, and no victim holds anything.
-/

set_option autoImplicit false
namespace TableStore

instance decidableEqResult {α : Type} [DecidableEq α] : DecidableEq (Except Error α)
  | .ok a, .ok b => decidable_of_iff (a = b) (by rw [Except.ok.injEq])
  | .error e, .error e' => decidable_of_iff (e = e') (by rw [Except.error.injEq])
  | .ok _, .error _ => isFalse fun h => by cases h
  | .error _, .ok _ => isFalse fun h => by cases h

theorem eq_ok_of_mem_toOption {α : Type} {x : Except Error α} {a : α} (h : a ∈ x.toOption) :
    x = .ok a := by
  cases x with
  | error e => cases h
  | ok b =>
    cases h
    rfl

/-- What is done to a store, with the answer to it. -/
inductive Deed where
  | call (t : TxnId) (call : Call) (reply : Reply)
  | commit (t : TxnId) (result : Except Error Unit)
  | abort (t : TxnId)
  /-- The lock on a page is given back before the end. -/
  | release (t : TxnId) (p : PageId)
  | flushPage (p : PageId)
  | flushTxn (t : TxnId)
  | flushAll
  | discard (p : PageId)
  /-- Tables are registered or unregistered. -/
  | register (catalog : Catalog)
  /-- Somebody else writes to the files, or the page size is set. -/
  | outside (disk : Disk) (pageSize : PageSize)

namespace Deed

/-- Pages are written by hand. -/
def flushes : Deed → Bool
  | flushPage _ => true
  | flushTxn _ => true
  | flushAll => true
  | _ => false

/-- A lock is given back by hand. -/
def releases : Deed → Bool
  | release _ _ => true
  | _ => false

/-- The tables change. -/
def registers : Deed → Bool
  | register _ => true
  | _ => false

/-- The files or the page size change from outside. -/
def foreign : Deed → Bool
  | outside _ _ => true
  | _ => false

end Deed

namespace Store

/-- What a deed makes of a store.  A page that cannot be written by hand leaves the store as it
is. -/
inductive Does : Deed → Store → Store → Prop where
  | call {s s' : Store} {t : TxnId} {call : Call} {reply : Reply} {n : Nat}
      (h : finish n (s.start t call) = some (reply, s')) : Does (.call t call reply) s s'
  | commit (s : Store) (t : TxnId) : Does (.commit t (s.commit t).1) s (s.commit t).2
  | abort (s : Store) (t : TxnId) : Does (.abort t) s (s.abort t)
  | release (s : Store) (t : TxnId) (p : PageId) : Does (.release t p) s (s.releasePage t p).2
  | flushPage {s s' : Store} {p : PageId} (h : s.flushPage p = .ok s') : Does (.flushPage p) s s'
  | flushTxn (s : Store) (t : TxnId) : Does (.flushTxn t) s (s.flushTxn t).2
  | flushAll (s : Store) : Does .flushAll s s.flushAll.2
  | discard (s : Store) (p : PageId) : Does (.discard p) s (s.discard p)
  | register (s : Store) (catalog : Catalog) : Does (.register catalog) s { s with catalog }
  | outside (s : Store) (disk : Disk) (pageSize : PageSize) :
      Does (.outside disk pageSize) s { s with disk, pageSize }

/-- The stores after some deeds. -/
inductive After (s₀ : Store) : List Deed → Store → Prop where
  | start : After s₀ [] s₀
  | deed {ds : List Deed} {d : Deed} {s s' : Store} (h : After s₀ ds s) (hd : Does d s s') :
      After s₀ (ds ++ [d]) s'

variable {s₀ s s' : Store} {d : Deed} {ds : List Deed} {p : PageId}

/-! ## Nobody waits between two deeds

A request waits within a call only.  So between two deeds of a single thread none is waiting,
whatever the deeds were. -/

theorem NobodyWaits.flushPage (h : s.NobodyWaits) (hf : s.flushPage p = .ok s') :
    s'.NobodyWaits := by
  rcases flushPage_cases hf with ⟨rfl, -⟩ | ⟨page, file, disk, hp, -, -, -, rfl⟩
  · exact h
  · exact ⟨h.locks, h.sound.settle (h.sound.keyed p page hp)⟩

theorem NobodyWaits.flushPages (h : s.NobodyWaits) (ps : List PageId) :
    (s.flushPages ps).2.NobodyWaits :=
  flushPages_induction (fun _ _ _ hs hf => hs.flushPage hf) ps h

theorem NobodyWaits.commit (h : s.NobodyWaits) (t : TxnId) : (s.commit t).2.NobodyWaits := by
  have hf := h.flushPages (s.cache.dirtyPages t)
  rcases commit_cases s t with ⟨-, he⟩ | ⟨e, -, -, he⟩ | ⟨-, -, he⟩
  · rw [he]
    exact h
  · rw [he]
    exact hf
  · rw [he]
    exact ⟨hf.locks.complete t, hf.sound⟩

theorem NobodyWaits.abort (h : s.NobodyWaits) (t : TxnId) : (s.abort t).NobodyWaits :=
  ⟨locks_abort s t ▸ h.locks.complete t,
    (discarded_abort h.locks.consistent h.sound t).sound⟩

theorem NobodyWaits.releasePage (h : s.NobodyWaits) (t : TxnId) (p : PageId) :
    (s.releasePage t p).2.NobodyWaits := by
  rw [Store.releasePage]
  cases hr : s.locks.release t p with
  | error e => exact h
  | ok locks => exact ⟨h.locks.release hr, h.sound⟩

theorem Does.nobodyWaits (hd : Does d s s') (h : s.NobodyWaits) : s'.NobodyWaits := by
  cases hd with
  | call hf =>
    obtain ⟨m, hm, he⟩ := finish_changes h hf
    exact he.nobodyWaits (hm.nobodyWaits h)
  | commit _ t => exact h.commit t
  | abort _ t => exact h.abort t
  | release _ t p => exact h.releasePage t p
  | flushPage hf => exact h.flushPage hf
  | flushTxn _ t => exact h.flushPages _
  | flushAll => exact h.flushPages _
  | discard _ p => exact ⟨h.locks, h.sound.drop p⟩
  | register => exact ⟨h.locks, h.sound⟩
  | outside => exact ⟨h.locks, h.sound⟩

theorem After.nobodyWaits (h₀ : s₀.NobodyWaits) (h : After s₀ ds s) : s.NobodyWaits := by
  induction h with
  | start => exact h₀
  | deed _ hd ih => exact hd.nobodyWaits ih

/-- A call in a small store, with the answer to it: a transaction has put a row into the first page
and has not committed yet. -/
def entered : Option (Reply × Store) :=
  finish 1 (numbers.start ⟨1⟩ (.insert TableFile.numbers.id { values := [.int 7] }))

end Store
end TableStore

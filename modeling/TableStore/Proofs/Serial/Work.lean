import Mathlib.Data.Finset.Card
import TableStore.Proofs.Ledger.Basic
import TableStore.Proofs.Page.Clipped
import TableStore.Proofs.Serial.Files

/-!
# What a call comes to

What a call comes to can be told from the rows that its transaction sees, as far as the call looks at
them, and from the pages of which it has copies already.  Two stores in which these are the same give
the same answer, whatever is in memory, and however long the files are.

## What is here

* `Outcome`, `Reply.Tells` — what the answer to a call tells; `Reply.Alike` — two answers that tell
  the same.  A page past the end of its file is as good as one without rows.
* `Call.Plain` — a call to the pool, with texts that fit; `Call.refusal?` — why a call is refused
  before it asks for a lock.
* `Ledger.Room` — there is room for one more page beside the copies of a transaction.
* `Store.Passes` — an insert goes on from a page; `Store.Reaches` — a call gets as far as a page;
  `Store.Yields` — what it comes to with the page; `Store.Ends` — or there is no room for the page.
* `Store.Works` — what a call comes to on a ledger; `Store.Replay` — several calls.
* `Store.Ends.unique`, `Store.Ends.transport` — what a call comes to at a page is determined by the
  rows that are seen of the page, and the pages of which there are copies.
-/

set_option autoImplicit false
namespace TableStore

/-! ## Answers -/

/-- What the answer to a call tells. -/
inductive Outcome where
  | failed (e : Error)
  /-- A page with these rows, by slot. -/
  | shown (p : PageId) (rows : Nat → Option Row)
  /-- There is no row to take away. -/
  | vacant (r : RecordId)
  /-- A page with these rows, and the row that has been put in or taken away. -/
  | changed (p : PageId) (rows : Nat → Option Row) (row : Row)

/-- What an answer tells.  It cannot be told apart whether a page has no rows, or is past the end of
its file. -/
inductive Reply.Tells : Reply → Outcome → Prop where
  | failed (e : Error) : Tells { result := .error e } (.failed e)
  | shown {page : Page} {p : PageId} {rows : Nat → Option Row} (hid : page.id = p)
      (hrows : ∀ i, page.row? i = rows i) : Tells { result := .ok page } (.shown p rows)
  | past {p : PageId} {rows : Nat → Option Row} (hrows : ∀ i, rows i = none) :
      Tells { result := .error (.pageNotFound p) } (.shown p rows)
  | vacant (p : PageId) (i : Nat) : Tells { result := .error (.slotEmpty p i) } (.vacant ⟨p, i⟩)
  | nowhere (p : PageId) (i : Nat) : Tells { result := .error (.pageNotFound p) } (.vacant ⟨p, i⟩)
  | changed {page : Page} {p : PageId} {rows : Nat → Option Row} {row : Row} (hid : page.id = p)
      (hrows : ∀ i, page.row? i = rows i) :
      Tells { result := .ok page, row := some row } (.changed p rows row)

/-- Two answers tell the same. -/
def Reply.Alike (a b : Reply) : Prop := ∃ o, a.Tells o ∧ b.Tells o

/-- The call is one to the pool, and all texts of a row that it brings in fit. -/
def Call.Plain : Call → Prop
  | .fetch _ _ => True
  | .insert _ row => row.Short
  | .remove _ => True
  | .insertCopy _ _ => False
  | .removeCopy _ _ => False

instance (call : Call) : Decidable call.Plain :=
  match call with
  | .fetch _ _ => isTrue trivial
  | .insert _ row => inferInstanceAs (Decidable row.Short)
  | .remove _ => isTrue trivial
  | .insertCopy _ _ => isFalse id
  | .removeCopy _ _ => isFalse id

/-- Why a call to the pool is refused before it asks for a lock. -/
def Call.refusal? (c : Catalog) : Call → Option Error
  | .insert table row =>
    match c.file table with
    | .error e => some e
    | .ok file => if row.types ≠ file.schema.types then some .schemaMismatch else none
  | .remove row =>
    match row.rid with
    | none => some .noRecordId
    | some r =>
      match c.file r.page.table with
      | .error e => some e
      | .ok file => if r.page.table ≠ file.id then some (.notOnPage r.page) else none
  | _ => none

/-! ## Calls on a ledger

A call is told here without locks, memory and files.  An insert goes through pages that are full
until it comes to one that is not; a fetch and a removal have one page to look at. -/

/-- The transaction has a copy of the page, or copies of fewer than `n` pages. -/
def Ledger.Room (L : Ledger) (t : TxnId) (n : Nat) (p : PageId) : Prop :=
  L.overlay t p ≠ none ∨ ∃ D : Finset PageId, D.card < n ∧ ∀ q, L.overlay t q ≠ none → q ∈ D

namespace Store

/-- All slots of a page are taken. -/
def Full (s : Store) (p : PageId) (rows : Nat → Option Row) : Prop :=
  ∀ i, i < s.slotsOn p → rows i ≠ none

instance (s : Store) (p : PageId) (rows : Nat → Option Row) : Decidable (s.Full p rows) :=
  inferInstanceAs (Decidable (∀ i, i < s.slotsOn p → rows i ≠ none))

variable (s : Store) (t : TxnId)

/-- An insert goes on from a page. -/
structure Passes (L : Ledger) (p : PageId) : Prop where
  fault : s.fault? p = none
  room : L.Room t s.capacity p
  full : s.Full p (L.view t p)

/-- A call gets as far as a page. -/
inductive Reaches (L : Ledger) : Call → PageId → Prop where
  | fetch (p : PageId) (access : Access) : Reaches L (.fetch p access) p
  | remove {row : Row} {p : PageId} {i : Nat} (hr : row.rid = some ⟨p, i⟩) :
      Reaches L (.remove row) p
  | insert {table : TableId} {file : TableFile} {n : Nat} (row : Row)
      (hf : s.catalog.file table = .ok file) (hn : s.CanHave file n)
      (hb : ∀ k, k < n → s.Passes t L (file.page k)) : Reaches L (.insert table row) (file.page n)

/-- What a call comes to at a page that it does not go on from, and the ledger after it. -/
inductive Yields (L : Ledger) (p : PageId) : Call → Outcome → Ledger → Prop where
  | faulty {call : Call} {e : Error} (hf : s.fault? p = some e) : Yields L p call (.failed e) L
  | fetch {access : Access} (hf : s.fault? p = none) :
      Yields L p (.fetch p access) (.shown p (L.view t p)) L
  | vacant {row : Row} {i : Nat} (hf : s.fault? p = none) (hr : row.rid = some ⟨p, i⟩)
      (hv : L.view t p i = none) : Yields L p (.remove row) (.vacant ⟨p, i⟩) L
  | remove {row : Row} {i : Nat} (hf : s.fault? p = none) (hr : row.rid = some ⟨p, i⟩)
      (hv : L.view t p i ≠ none) :
      Yields L p (.remove row)
        (.changed p (Function.update (L.view t p) i none) { row with rid := none })
        (L.put t ⟨p, i⟩ none)
  /-- A row is put into the first free slot. -/
  | insert {table : TableId} {row : Row} {i : Nat} (hf : s.fault? p = none)
      (hi : i < s.slotsOn p) (hv : L.view t p i = none) (hb : ∀ j, j < i → L.view t p j ≠ none) :
      Yields L p (.insert table row)
        (.changed p (Function.update (L.view t p) i (some { row with rid := some ⟨p, i⟩ }))
          { row with rid := some ⟨p, i⟩ })
        (L.put t ⟨p, i⟩ (some { row with rid := some ⟨p, i⟩ }))

/-- How a call ends that has got as far as a page and does not go on from it. -/
inductive Ends (L : Ledger) (p : PageId) (call : Call) : Outcome → Ledger → Prop where
  /-- The copies of the transaction fill the pool. -/
  | crowded (hn : ¬ L.Room t s.capacity p) : Ends L p call (.failed (.poolFull s.capacity)) L
  | yields {o : Outcome} {L' : Ledger} (hr : L.Room t s.capacity p)
      (hy : s.Yields t L p call o L') : Ends L p call o L'

/-- What a call comes to, and the ledger after it. -/
inductive Works (L : Ledger) : Call → Outcome → Ledger → Prop where
  | refused {call : Call} {e : Error} (h : call.refusal? s.catalog = some e) :
      Works L call (.failed e) L
  | done {call : Call} {p : PageId} {o : Outcome} {L' : Ledger}
      (hc : call.refusal? s.catalog = none) (hp : s.Reaches t L call p)
      (he : s.Ends t L p call o L') : Works L call o L'

/-- The transaction makes calls, one after the other, and their answers tell what they come to. -/
inductive Replay (L : Ledger) : List (Call × Reply) → Ledger → Prop where
  | start : Replay L [] L
  | call {calls : List (Call × Reply)} {M L' : Ledger} {call : Call} {reply : Reply} {o : Outcome}
      (h : Replay L calls M) (hc : call.Plain) (hw : s.Works t M call o L') (ht : reply.Tells o) :
      Replay L (calls ++ [(call, reply)]) L'

/-! ## What is determined

What a call comes to depends on what its transaction sees of the pages that it gets as far as, and
on nothing else. -/

variable {s : Store} {t : TxnId} {L M L₁ L₂ : Ledger} {p : PageId} {call : Call} {o o₁ o₂ : Outcome}

theorem Yields.committed_eq (h : s.Yields t L p call o M) : M.committed = L.committed := by
  cases h <;> rfl

/-- The copies of others stay as they are. -/
theorem Yields.overlay_of_ne (h : s.Yields t L p call o M) {u : TxnId} (hu : u ≠ t) :
    M.overlay u = L.overlay u := by
  cases h with
  | remove => exact funext fun _ => Ledger.overlay_put_of_ne none hu
  | insert => exact funext fun _ => Ledger.overlay_put_of_ne _ hu
  | _ => rfl

theorem Ends.committed_eq (h : s.Ends t L p call o M) : M.committed = L.committed := by
  cases h with
  | crowded => rfl
  | yields _ hy => exact hy.committed_eq

theorem Ends.overlay_of_ne (h : s.Ends t L p call o M) {u : TxnId} (hu : u ≠ t) :
    M.overlay u = L.overlay u := by
  cases h with
  | crowded => rfl
  | yields _ hy => exact hy.overlay_of_ne hu

theorem Works.committed_eq (h : s.Works t L call o M) : M.committed = L.committed := by
  cases h with
  | refused => rfl
  | done _ _ he => exact he.committed_eq

theorem Replay.committed_eq {calls : List (Call × Reply)} (h : s.Replay t L calls M) :
    M.committed = L.committed := by
  induction h with
  | start => rfl
  | call _ _ hw _ ih => exact hw.committed_eq.trans ih

/-- There is at most one first free slot. -/
theorem first_unique {rows : Nat → Option Row} {i j : Nat} (hi : rows i = none)
    (hbi : ∀ k, k < i → rows k ≠ none) (hj : rows j = none) (hbj : ∀ k, k < j → rows k ≠ none) :
    i = j := by
  rcases Nat.lt_trichotomy i j with hlt | he | hgt
  · exact absurd hi (hbj i hlt)
  · exact he
  · exact absurd hj (hbi j hgt)

theorem Yields.unique (h₁ : s.Yields t L p call o₁ L₁) (h₂ : s.Yields t L p call o₂ L₂) :
    o₁ = o₂ ∧ L₁ = L₂ := by
  have hfault : ∀ {e : Error}, s.fault? p = some e → s.fault? p ≠ none := fun h he => by
    rw [h] at he
    cases he
  cases h₁ with
  | faulty hf₁ =>
    cases h₂ with
    | faulty hf₂ =>
      cases hf₁.symm.trans hf₂
      exact ⟨rfl, rfl⟩
    | fetch hf₂ => exact absurd hf₂ (hfault hf₁)
    | vacant hf₂ => exact absurd hf₂ (hfault hf₁)
    | remove hf₂ => exact absurd hf₂ (hfault hf₁)
    | insert hf₂ => exact absurd hf₂ (hfault hf₁)
  | fetch hf₁ =>
    cases h₂ with
    | faulty hf₂ => exact absurd hf₁ (hfault hf₂)
    | fetch => exact ⟨rfl, rfl⟩
  | vacant hf₁ hr₁ hv₁ =>
    cases h₂ with
    | faulty hf₂ => exact absurd hf₁ (hfault hf₂)
    | vacant _ hr₂ _ =>
      cases hr₁.symm.trans hr₂
      exact ⟨rfl, rfl⟩
    | remove _ hr₂ hv₂ =>
      cases hr₁.symm.trans hr₂
      exact absurd hv₁ hv₂
  | remove hf₁ hr₁ hv₁ =>
    cases h₂ with
    | faulty hf₂ => exact absurd hf₁ (hfault hf₂)
    | vacant _ hr₂ hv₂ =>
      cases hr₁.symm.trans hr₂
      exact absurd hv₂ hv₁
    | remove _ hr₂ _ =>
      cases hr₁.symm.trans hr₂
      exact ⟨rfl, rfl⟩
  | insert hf₁ _ hv₁ hb₁ =>
    cases h₂ with
    | faulty hf₂ => exact absurd hf₁ (hfault hf₂)
    | insert _ _ hv₂ hb₂ =>
      cases first_unique hv₁ hb₁ hv₂ hb₂
      exact ⟨rfl, rfl⟩

/-- **A call comes to one thing at a page.** -/
theorem Ends.unique (h₁ : s.Ends t L p call o₁ L₁) (h₂ : s.Ends t L p call o₂ L₂) :
    o₁ = o₂ ∧ L₁ = L₂ := by
  cases h₁ with
  | crowded hn =>
    cases h₂ with
    | crowded => exact ⟨rfl, rfl⟩
    | yields hr => exact absurd hr hn
  | yields hr hy₁ =>
    cases h₂ with
    | crowded hn => exact absurd hr hn
    | yields _ hy₂ => exact hy₁.unique hy₂

/-- An insert does not end at a page from which it goes on. -/
theorem Ends.not_passes {table : TableId} {row : Row}
    (h : s.Ends t L p (.insert table row) o L₁) : ¬ s.Passes t L p := fun hp => by
  cases h with
  | crowded hn => exact hn hp.room
  | yields _ hy =>
    cases hy with
    | faulty hf =>
      rw [hp.fault] at hf
      cases hf
    | insert _ hi hv _ => exact hp.full _ hi hv

/-- An insert gets as far as pages that the file can have. -/
theorem Reaches.canHave {table : TableId} {file : TableFile} {row : Row}
    (h : s.Reaches t L (.insert table row) p) (hf : s.catalog.file table = .ok file) :
    s.CanHave file p.number := by
  cases h with
  | insert _ hf' hn =>
    cases hf.symm.trans hf'
    exact hn

/-- An insert that goes on gets as far as the next page, if the file can have it. -/
theorem Reaches.next {table : TableId} {file : TableFile} {row : Row} {n : Nat}
    (h : s.Reaches t L (.insert table row) (file.page n)) (hf : s.catalog.file table = .ok file)
    (hn : s.CanHave file (n + 1)) (hp : s.Passes t L (file.page n)) :
    s.Reaches t L (.insert table row) (file.page (n + 1)) := by
  generalize hq : file.page n = q at h
  cases h with
  | insert _ hf' _ hb =>
    cases hf.symm.trans hf'
    obtain rfl : n = _ := congrArg PageId.number hq
    refine .insert row hf hn fun k hk => ?_
    rcases Nat.lt_succ_iff_lt_or_eq.1 hk with hlt | rfl
    · exact hb k hlt
    · exact hp

/-- A call ends at the last of the pages that it gets as far as. -/
theorem Ends.last {q : PageId} (h : s.Ends t L p call o L₁) (hp : s.Reaches t L call p)
    (hq : s.Reaches t L call q) : q = p ∨ s.Passes t L q ∧ q.number < p.number := by
  cases hq with
  | fetch q access =>
    cases hp
    exact Or.inl rfl
  | remove hr =>
    cases hp with
    | remove hr' =>
      cases hr.symm.trans hr'
      exact Or.inl rfl
  | @insert table file n row hf _ hb =>
    cases hp with
    | @insert _ file' n' _ hf' _ hb' =>
      cases hf.symm.trans hf'
      rcases Nat.lt_trichotomy n n' with hlt | rfl | hgt
      · exact Or.inr ⟨hb' n hlt, hlt⟩
      · exact Or.inl rfl
      · exact absurd (hb n' hgt) h.not_passes

/-- What a call comes to at a page is told by what is seen of the page. -/
theorem Yields.transport (h : s.Yields t L p call o L₁) (hv : M.view t p = L.view t p)
    (ho : M.overlay t = L.overlay t) :
    ∃ M₁, s.Yields t M p call o M₁ ∧ M₁.overlay t = L₁.overlay t := by
  have hput : ∀ (i : Nat) (x : Option Row), (M.put t ⟨p, i⟩ x).overlay t =
      (L.put t ⟨p, i⟩ x).overlay t := fun i x => by
    funext q
    rw [Ledger.put, Ledger.put]
    dsimp only
    by_cases hq : q = p
    · rw [if_pos ⟨rfl, hq⟩, if_pos ⟨rfl, hq⟩, hq, hv]
    · rw [if_neg fun he => hq he.2, if_neg fun he => hq he.2, ho]
  cases h with
  | faulty hf => exact ⟨M, .faulty hf, ho⟩
  | fetch hf => exact ⟨M, hv ▸ .fetch hf, ho⟩
  | vacant hf hr hn => exact ⟨M, .vacant hf hr (hv ▸ hn), ho⟩
  | remove hf hr hn => exact ⟨_, hv ▸ .remove hf hr (hv ▸ hn), hput _ _⟩
  | insert hf hi hn hb => exact ⟨_, hv ▸ .insert hf hi (hv ▸ hn) (hv ▸ hb), hput _ _⟩

/-- Room is a matter of the copies of the transaction. -/
theorem room_congr {n : Nat} (ho : M.overlay t = L.overlay t) : M.Room t n p ↔ L.Room t n p := by
  rw [Ledger.Room, Ledger.Room, ho]

theorem Ends.transport (h : s.Ends t L p call o L₁) (hv : M.view t p = L.view t p)
    (ho : M.overlay t = L.overlay t) :
    ∃ M₁, s.Ends t M p call o M₁ ∧ M₁.overlay t = L₁.overlay t := by
  cases h with
  | crowded hn => exact ⟨M, .crowded (mt (room_congr ho).1 hn), ho⟩
  | yields hr hy =>
    obtain ⟨M₁, hy, ho₁⟩ := hy.transport hv ho
    exact ⟨M₁, .yields ((room_congr ho).2 hr) hy, ho₁⟩

end Store
end TableStore

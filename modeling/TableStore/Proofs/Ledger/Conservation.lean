import TableStore.Proofs.Ledger.Basic

/-!
# No committed row is lost

A history tells which rows the committed transactions have put in and taken away.  The committed rows
of a ledger are those that were there at first with exactly these changes, however the transactions
run beside each other.

## What is here

* `Event.inserted?`, `Event.removed?` — the row of a table that an event puts in or takes away.
* `Event.rowsBy`, `Event.committedRows` — the rows of certain transactions, and of the committed ones.
* `Event.Open`, `Event.Once` — a transaction has not ended yet, and none does anything after its end.
* `Ledger.shown` — whether a row is at a place.
* `Ledger.Balanced` — rows at a place and rows put in and taken away make up for each other.
* `Ledger.Conserved` — what every history keeps up: copies of a page have one owner, each transaction
  that has not ended balances what it sees against what is committed, and the committed rows balance
  against those at first.
* `Ledger.Run.conserved` — it is kept up.
-/

set_option autoImplicit false
namespace TableStore

/-! ## What a history says -/

namespace Event

/-- The transaction that the event is about. -/
def txn : Event → TxnId
  | read t _ _ => t
  | inserted t _ _ => t
  | removed t _ => t
  | copied t _ => t
  | refused t _ => t
  | committed t => t
  | aborted t => t
  | struck t _ => t

/-- Whether the transaction has ended. -/
def ends : Event → Bool
  | committed _ => true
  | aborted _ => true
  | _ => false

/-- The row that an event puts into a table. -/
def inserted? (table : TableId) : Event → Option Row
  | inserted _ table' row => if table' = table then some row else none
  | _ => none

/-- The row that an event takes away from a table. -/
def removed? (table : TableId) : Event → Option Row
  | removed _ row => row.rid.bind fun r => if r.page.table = table then some row else none
  | _ => none

/-- The rows of certain transactions, as they are stored. -/
def rowsBy (f : Event → Option Row) (among : TxnId → Bool) (h : List Event) : List Row :=
  ((h.filter fun e => among e.txn).filterMap f).map Row.stored

/-- The rows of the transactions that have committed, as they are stored. -/
def committedRows (f : Event → Option Row) (h : List Event) : List Row :=
  rowsBy f (fun t => .committed t ∈ h) h

/-- The transaction has not ended yet. -/
def Open (t : TxnId) (h : List Event) : Prop := ∀ e ∈ h, e.ends = true → e.txn ≠ t

/-- No transaction does anything after its end. -/
def Once (h : List Event) : Prop := h.Pairwise fun e e' => e.ends = true → e'.txn ≠ e.txn

instance (h : List Event) : Decidable (Once h) :=
  inferInstanceAs (Decidable (h.Pairwise fun e e' => e.ends = true → e'.txn ≠ e.txn))

variable {f : Event → Option Row} {among among' : TxnId → Bool} {h : List Event} {e : Event}
  {t u : TxnId}

theorem Once.of_append (ho : Once (h ++ [e])) : Once h ∧ Open e.txn h := by
  obtain ⟨hh, -, he⟩ := List.pairwise_append.1 ho
  exact ⟨hh, fun e' he' hends => (he e' he' e (List.mem_singleton_self e) hends).symm⟩

theorem Open.of_append (ho : Open t (h ++ [e])) : Open t h ∧ (e.ends = true → e.txn ≠ t) :=
  ⟨fun e' he' => ho e' (List.mem_append_left _ he'),
    ho e (List.mem_append_right _ (List.mem_singleton_self e))⟩

theorem Open.not_committed (ho : Open t h) : .committed t ∉ h := fun hm =>
  ho _ hm rfl rfl

theorem rowsBy_append (f : Event → Option Row) (among : TxnId → Bool) (h h' : List Event) :
    rowsBy f among (h ++ h') = rowsBy f among h ++ rowsBy f among h' := by
  simp only [rowsBy, List.filter_append, List.filterMap_append, List.map_append]

theorem rowsBy_singleton (f : Event → Option Row) (among : TxnId → Bool) (e : Event) :
    rowsBy f among [e] = if among e.txn then ((f e).map Row.stored).toList else [] := by
  rw [rowsBy, List.filter_cons, List.filter_nil]
  split
  · cases hf : f e with
    | none => rw [List.filterMap_cons_none hf]; rfl
    | some row => rw [List.filterMap_cons_some hf]; rfl
  · rfl

theorem mem_rowsBy {y : Row} : y ∈ rowsBy f among h ↔
    ∃ e ∈ h, among e.txn = true ∧ ∃ row, f e = some row ∧ row.stored = y := by
  simp only [rowsBy, List.mem_map, List.mem_filterMap, List.mem_filter]
  constructor
  · rintro ⟨row, ⟨e, ⟨he, ha⟩, hf⟩, hy⟩
    exact ⟨e, he, ha, row, hf, hy⟩
  · rintro ⟨e, he, ha, row, hf, hy⟩
    exact ⟨row, ⟨e, ⟨he, ha⟩, hf⟩, hy⟩

theorem inserted?_eq_some_iff {table : TableId} {row : Row} :
    inserted? table e = some row ↔ e = .inserted e.txn table row := by
  cases e with
  | inserted t table' row' =>
    rw [inserted?, txn, Option.ite_none_right_eq_some]
    constructor
    · rintro ⟨rfl, hrow⟩
      rw [Option.some.inj hrow]
    · intro he
      cases he
      exact ⟨rfl, rfl⟩
  | _ => exact ⟨fun h => (by cases h), fun h => by cases h⟩

/-- A row is taken away from its own table. -/
theorem place_of_removed? {table : TableId} {row : Row} (h : removed? table e = some row) :
    ∃ r, row.rid = some r ∧ r.page.table = table := by
  cases e with
  | removed t row' =>
    obtain ⟨r, hr, h⟩ := Option.bind_eq_some_iff.1 h
    obtain ⟨ht, hrow⟩ := Option.ite_none_right_eq_some.1 h
    exact ⟨r, Option.some.inj hrow ▸ hr, ht⟩
  | _ => cases h

/-- Rows of some transactions and rows of others. -/
theorem count_rowsBy_add (y : Row) {either : TxnId → Bool}
    (hor : ∀ t, either t = (among t || among' t))
    (hnot : ∀ e ∈ h, among e.txn = true → among' e.txn = false) :
    (rowsBy f either h).count y = (rowsBy f among h).count y + (rowsBy f among' h).count y := by
  induction h with
  | nil => rfl
  | cons e h ih =>
    obtain ⟨hnot, hrest⟩ := List.forall_mem_cons.1 hnot
    rw [← List.singleton_append, rowsBy_append, rowsBy_append, rowsBy_append, List.count_append,
      List.count_append, List.count_append, ih hrest, rowsBy_singleton, rowsBy_singleton,
      rowsBy_singleton, hor]
    cases hb : among e.txn with
    | true =>
      rw [hnot hb]
      simp only [Bool.true_or, if_true, Bool.false_eq_true, if_false, List.count_nil]
      omega
    | false =>
      simp only [Bool.false_or, Bool.false_eq_true, if_false, List.count_nil]
      omega

/-- What a transaction does before its commit does not count yet. -/
theorem committedRows_append (hc : ∀ t, e ≠ .committed t) (ho : Open e.txn h) :
    committedRows f (h ++ [e]) = committedRows f h := by
  have hmem : ∀ t, .committed t ∈ h ++ [e] ↔ .committed t ∈ h := fun t => by
    rw [List.mem_append, List.mem_singleton, or_iff_left (hc t).symm]
  rw [committedRows, rowsBy_append, rowsBy_singleton]
  simp only [hmem, ho.not_committed, decide_false, Bool.false_eq_true, if_false, List.append_nil]
  rfl

/-- With its commit all that a transaction has done counts. -/
theorem count_committedRows_commit (hf : f (.committed t) = none) (ho : Open t h) (y : Row) :
    (committedRows f (h ++ [.committed t])).count y =
      (committedRows f h).count y + (rowsBy f (fun u => u = t) h).count y := by
  rw [committedRows, rowsBy_append, rowsBy_singleton, hf, Option.map_none, Option.toList_none,
    ite_self, List.append_nil]
  refine count_rowsBy_add y (fun u => ?_) fun e _ he => ?_
  · simp only [List.mem_append, List.mem_singleton, committed.injEq]
    exact Bool.decide_or _ _
  · refine decide_eq_false fun he' => ?_
    rw [he'] at he
    exact ho.not_committed (of_decide_eq_true he)

end Event

namespace Ledger

open Event (rowsBy committedRows inserted? removed? Open Once)

variable {L₀ L M : Ledger} {h h' : List Event} {e : Event} {t u : TxnId} {r q : RecordId}
  {x x' x₀ : Option Row} {among : TxnId → Bool}

/-! ## Balance at one place

Rows are counted for one place and one row at a time.  A place holds at most one row, so what it
holds counts zero or one; what a history puts in and takes away may count more, and only the
difference has to agree. -/

/-- Whether the row is at a place that holds `x`, as it is stored. -/
def shown (x : Option Row) (y : Row) : Nat := if x.map Row.stored = some y then 1 else 0

theorem shown_eq_count (row y : Row) : shown (some row) y = [row.stored].count y := by
  rw [shown, Option.map_some, List.count_singleton]
  simp only [Option.some.injEq, beq_iff_eq]

/-- A place has come to hold `x` where it held `x₀`, and certain transactions have put in and taken
away just the rows that make the difference. -/
def Balanced (x x₀ : Option Row) (among : TxnId → Bool) (h : List Event) (r : RecordId) : Prop :=
  ∀ y, y.rid = some r →
    shown x y + (rowsBy (removed? r.page.table) among h).count y =
      shown x₀ y + (rowsBy (inserted? r.page.table) among h).count y

theorem Balanced.nil (x : Option Row) (among : TxnId → Bool) (r : RecordId) :
    Balanced x x among [] r := fun _ _ => rfl

theorem Balanced.append (hb : Balanced x x₀ among h r) (hb' : Balanced x' x among h' r) :
    Balanced x' x₀ among (h ++ h') r := fun y hy => by
  have := hb y hy
  have := hb' y hy
  rw [Event.rowsBy_append, Event.rowsBy_append, List.count_append, List.count_append]
  omega

/-- Transactions that have left a place as it was could have done so with any other row. -/
theorem Balanced.same (hb : Balanced x x among h r) (x' : Option Row) :
    Balanced x' x' among h r := fun y hy => by
  have := hb y hy
  omega

theorem Balanced.congr (hb : Balanced x x₀ among h r) {z z₀ : Option Row}
    (hz : ∀ y, shown z y = shown x y) (hz₀ : ∀ y, shown z₀ y = shown x₀ y) :
    Balanced z z₀ among h r := fun y hy => by
  rw [hz, hz₀]
  exact hb y hy

/-- An event of others, or one that puts nothing in and takes nothing away, changes no balance. -/
theorem Balanced.quiet (x : Option Row)
    (hq : among e.txn = true → inserted? r.page.table e = none ∧ removed? r.page.table e = none) :
    Balanced x x among [e] r := fun y _ => by
  rw [Event.rowsBy_singleton, Event.rowsBy_singleton]
  split
  · rename_i ha
    rw [(hq ha).1, (hq ha).2]
  · rfl

/-! ## What every history keeps up

There are two balances.  What a transaction sees is balanced against what is committed by its own
events; what is committed is balanced against the beginning by the events of those that have
committed.  A commit turns the first into the second. -/

/-- Copies of a page have one owner, a transaction that has not ended and is no victim balances what
it sees against what is committed, and the committed rows balance against those at first. -/
structure Conserved (L₀ : Ledger) (h : List Event) (L : Ledger) : Prop where
  alone : ∀ t u p, L.overlay t p ≠ none → L.overlay u p ≠ none → t = u
  owed : ∀ t, ¬ L.victims t → Open t h → ∀ r,
    Balanced (L.view t r.page r.slot) (L.committed r) (fun u => u = t) h r
  settled : ∀ r,
    Balanced (L.committed r) (L₀.committed r) (fun u => .committed u ∈ h) h r

theorem Conserved.start (h₀ : ∀ t p, L₀.overlay t p = none) : Conserved L₀ [] L₀ where
  alone t u p ht := absurd (h₀ t p) ht
  owed t _ _ r := by
    rw [view_of_none (h₀ t r.page)]
    exact .nil _ _ r
  settled r := .nil _ _ r

/-- A history goes on without a commit: what is committed stays balanced. -/
theorem settled_append (hs : ∀ r,
      Balanced (L.committed r) (L₀.committed r) (fun u => .committed u ∈ h) h r)
    (hc : ∀ t, e ≠ .committed t) (ho : Open e.txn h) (r : RecordId) :
    Balanced (L.committed r) (L₀.committed r) (fun u => .committed u ∈ h ++ [e]) (h ++ [e]) r :=
  fun y hy => by
    have := hs r y hy
    have hi := Event.committedRows_append (f := inserted? r.page.table) hc ho
    have hr := Event.committedRows_append (f := removed? r.page.table) hc ho
    rw [committedRows, committedRows] at hi hr
    rw [hi, hr]
    exact this

/-- Changed copies are dropped, or nothing happens at all. -/
theorem Conserved.drop (hl : Conserved L₀ h L) (hcommitted : M.committed = L.committed)
    (hoverlay : ∀ t p, M.overlay t p = L.overlay t p ∨ M.overlay t p = none)
    (hopen : ∀ t, ¬ M.victims t → Open t (h ++ [e]) →
      ¬ L.victims t ∧ ∀ p, M.overlay t p = L.overlay t p)
    (hc : ∀ t, e ≠ .committed t) (ho : Open e.txn h)
    (hi : ∀ table, inserted? table e = none) (hr : ∀ table, removed? table e = none) :
    Conserved L₀ (h ++ [e]) M where
  alone t u p ht hu := by
    refine hl.alone t u p ?_ ?_
    · rcases hoverlay t p with he | he
      · rwa [he] at ht
      · exact absurd he ht
    · rcases hoverlay u p with he | he
      · rwa [he] at hu
      · exact absurd he hu
  owed t hv hopen' r := by
    obtain ⟨hv, hsame⟩ := hopen t hv hopen'
    have hview : M.view t r.page r.slot = L.view t r.page r.slot := by
      rw [view, view, hsame, hcommitted]
    rw [hview, hcommitted]
    exact (hl.owed t hv (hopen'.of_append).1 r).append (.quiet _ fun _ => ⟨hi _, hr _⟩)
  settled r := by
    rw [hcommitted]
    exact settled_append hl.settled hc ho r

/-- A transaction changes one place of which nobody else has a copy, and the event says how. -/
theorem Conserved.put (hl : Conserved L₀ h L) (hc : ∀ t, e ≠ .committed t) (ho : Open e.txn h)
    (halone : ∀ u, u ≠ e.txn → L.overlay u r.page = none)
    (hx : Balanced x (L.view e.txn r.page r.slot) (fun u => u = e.txn) [e] r)
    (hother : ∀ q, q ≠ r → ∀ z, Balanced z z (fun u => u = e.txn) [e] q) :
    Conserved L₀ (h ++ [e]) (L.put e.txn r x) where
  alone t u p ht hu := by
    by_cases hp : p = r.page
    · subst hp
      have hown : ∀ v, (L.put e.txn r x).overlay v r.page ≠ none → v = e.txn := fun v hv => by
        by_contra hne
        rw [overlay_put_of_ne x hne] at hv
        exact hv (halone v hne)
      exact (hown t ht).trans (hown u hu).symm
    · have hsame : ∀ v, (L.put e.txn r x).overlay v p = L.overlay v p := fun v =>
        if_neg fun he => hp he.2
      rw [hsame] at ht hu
      exact hl.alone t u p ht hu
  owed t hv' hopen q := by
    have hold := hl.owed t hv' (hopen.of_append).1 q
    by_cases ht : t = e.txn
    · subst ht
      by_cases hq : q = r
      · subst hq
        rw [view_put_self]
        exact hold.append hx
      · rw [view_put_of_ne L e.txn x hq]
        exact hold.append (hother q hq _)
    · have hview : (L.put e.txn r x).view t q.page q.slot = L.view t q.page q.slot := by
        rw [view, overlay_put_of_ne x ht]
        rfl
      rw [hview]
      exact hold.append (.quiet _ fun he => absurd (of_decide_eq_true he).symm ht)
  settled := settled_append hl.settled hc ho

/-- A row is another one than the rows of other places. -/
theorem count_stored_of_ne {row y : Row} (hrid : row.rid = some r) (hy : y.rid = some q)
    (hq : q ≠ r) : [row.stored].count y = 0 := by
  refine List.count_eq_zero.2 fun hm => hq ?_
  rw [List.mem_singleton.1 hm, Row.rid_stored, hrid] at hy
  exact (Option.some.inj hy).symm

theorem Conserved.inserted (hl : Conserved L₀ h L) {table : TableId} {row : Row}
    (hrid : row.rid = some r) (htable : r.page.table = table) (ho : Open t h)
    (hfree : L.view t r.page r.slot = none) (halone : ∀ u, u ≠ t → L.overlay u r.page = none) :
    Conserved L₀ (h ++ [.inserted t table row]) (L.put t r (some row)) := by
  have hr : ∀ q : RecordId, removed? q.page.table (.inserted t table row) = none := fun _ => rfl
  refine hl.put (e := .inserted t table row) (by simp) ho halone (fun y _ => ?_)
    fun q hq z y hy => ?_
  · have hi : inserted? r.page.table (.inserted t table row) = some row := if_pos htable.symm
    rw [Event.rowsBy_singleton, Event.rowsBy_singleton, hi, hr, shown_eq_count]
    dsimp only [Event.txn]
    rw [hfree]
    simp [shown]
  · rw [Event.rowsBy_singleton, Event.rowsBy_singleton, hr, inserted?]
    split
    · split
      · exact congrArg (shown z y + ·) (count_stored_of_ne hrid hy hq).symm
      · rfl
    · rfl

theorem Conserved.removed (hl : Conserved L₀ h L) {row : Row} (hrid : row.rid = some r)
    (ho : Open t h) (hrow : L.view t r.page r.slot = some row)
    (halone : ∀ u, u ≠ t → L.overlay u r.page = none) :
    Conserved L₀ (h ++ [.removed t row]) (L.put t r none) := by
  have hi : ∀ q : RecordId, inserted? q.page.table (.removed t row) = none := fun _ => rfl
  refine hl.put (e := .removed t row) (by simp) ho halone (fun y _ => ?_)
    fun q hq z y hy => ?_
  · have hr : removed? r.page.table (.removed t row) = some row := by
      rw [removed?, hrid]
      exact if_pos rfl
    rw [Event.rowsBy_singleton, Event.rowsBy_singleton, hi, hr]
    dsimp only [Event.txn]
    rw [hrow, shown_eq_count]
    simp [shown]
  · rw [Event.rowsBy_singleton, Event.rowsBy_singleton, hi, removed?, hrid]
    dsimp only [Option.bind]
    split
    · split
      · exact congrArg (shown z y + ·) (count_stored_of_ne hrid hy hq)
      · rfl
    · rfl

/-- What a transaction owes is settled with its commit. -/
theorem Conserved.commit (hl : Conserved L₀ h L) (ho : Open t h) (hv : ¬ L.victims t) :
    Conserved L₀ (h ++ [.committed t]) (L.commit t) where
  alone u v p hu hv := by
    have hsub : ∀ w, (L.commit t).overlay w p ≠ none → L.overlay w p ≠ none := fun w hw he => by
      rw [Ledger.commit] at hw
      dsimp only at hw
      rw [he, ite_self] at hw
      exact hw rfl
    exact hl.alone u v p (hsub u hu) (hsub v hv)
  owed u hvu hopen q := by
    obtain ⟨hopen, hends⟩ := hopen.of_append
    have hu : u ≠ t := fun he => hends rfl he.symm
    have hold := hl.owed u hvu hopen q
    have hsame : (L.commit t).overlay u q.page = L.overlay u q.page := if_neg hu
    have hquiet : ∀ z, Balanced z z (fun w => w = u) [.committed t] q := fun z =>
      .quiet z fun he => ⟨rfl, rfl⟩
    cases hov : L.overlay u q.page with
    | none =>
      rw [view_of_none hov] at hold
      rw [view_of_none (hsame.trans hov)]
      exact (hold.same _).append (hquiet _)
    | some rows =>
      have hnone : L.overlay t q.page = none := by
        by_contra hne
        exact hu (hl.alone u t q.page (by simp [hov]) hne)
      rw [view_of_overlay hov] at hold
      rw [view_of_overlay (hsame.trans hov)]
      have hc : (L.commit t).committed q = L.committed q := view_of_none hnone q.slot
      rw [hc]
      exact hold.append (hquiet _)
  settled q y hy := by
    have howed := hl.owed t hv ho q y hy
    have hsettled := hl.settled q y hy
    have hi := Event.count_committedRows_commit (f := inserted? q.page.table) rfl ho y
    have hr := Event.count_committedRows_commit (f := removed? q.page.table) rfl ho y
    simp only [committedRows] at hi hr
    rw [hi, hr]
    dsimp only [Ledger.commit]
    omega

/-- Cuts are not seen in rows as they are stored. -/
theorem Cut.shown_committed (hc : Cut L M) (r : RecordId) (y : Row) :
    shown (M.committed r) y = shown (L.committed r) y := by
  rw [shown, shown, hc.committed_stored]

theorem Cut.shown_view (hc : Cut L M) (t : TxnId) (r : RecordId) (y : Row) :
    shown (M.view t r.page r.slot) y = shown (L.view t r.page r.slot) y := by
  rw [shown, shown, hc.view_stored]

theorem Conserved.cut (hl : Conserved L₀ h L) (hc : Cut L M) : Conserved L₀ h M where
  alone := hc.overlay_eq ▸ hl.alone
  owed t hv ho r := by
    rw [hc.victims_eq] at hv
    exact (hl.owed t hv ho r).congr (hc.shown_view t r) (hc.shown_committed r)
  settled r := (hl.settled r).congr (hc.shown_committed r) fun _ => rfl

/-! ## Histories -/

theorem Conserved.step (hl : Conserved L₀ h L) (hs : Step e L M) (ho : Open e.txn h) :
    Conserved L₀ (h ++ [e]) M := by
  cases hs with
  | read =>
    exact hl.drop rfl (fun _ _ => Or.inl rfl) (fun _ hv _ => ⟨hv, fun _ => rfl⟩)
      (by simp) ho (fun _ => rfl) fun _ => rfl
  | copied =>
    exact hl.drop rfl (fun _ _ => Or.inl rfl) (fun _ hv _ => ⟨hv, fun _ => rfl⟩)
      (by simp) ho (fun _ => rfl) fun _ => rfl
  | refused =>
    exact hl.drop rfl (fun _ _ => Or.inl rfl) (fun _ hv _ => ⟨hv, fun _ => rfl⟩)
      (by simp) ho (fun _ => rfl) fun _ => rfl
  | inserted hr ht _ hfree halone => exact hl.inserted hr ht ho hfree halone
  | removed hr _ hrow halone => exact hl.removed hr ho hrow halone
  | committed hv => exact hl.commit ho hv
  | @aborted _ t =>
    refine hl.drop rfl (fun u p => ?_) (fun u hv hopen => ?_) (by simp) ho
      (fun _ => rfl) fun _ => rfl
    · rw [abort]
      dsimp only
      split
      · exact Or.inr rfl
      · exact Or.inl rfl
    · have hu : u ≠ t := fun he => hopen.of_append.2 rfl he.symm
      exact ⟨fun hv' => hv ⟨hu, hv'⟩, fun p => if_neg hu⟩
  | @struck _ t us _ =>
    refine hl.drop rfl (fun u p => ?_) (fun u hv _ => ?_) (by simp) ho
      (fun _ => rfl) fun _ => rfl
    · rw [strike]
      dsimp only
      split
      · exact Or.inr rfl
      · exact Or.inl rfl
    · obtain ⟨hv, hu⟩ := not_or.1 hv
      exact ⟨hv, fun p => if_neg hu⟩

/-- **No committed row is lost or appears from nowhere.**  In every history in which no transaction
does anything after its end, the committed rows are those at first and those that committed
transactions have put in, without those that they have taken away. -/
theorem Run.conserved (h₀ : ∀ t p, L₀.overlay t p = none) (hr : Run L₀ h L) (ho : Once h) :
    Conserved L₀ h L := by
  induction hr with
  | start => exact .start h₀
  | step _ hs ih =>
    obtain ⟨hh, he⟩ := ho.of_append
    exact (ih hh).step hs he
  | cut _ hc ih => exact (ih ho).cut hc

/-- A row that has been put in has a place in its table. -/
theorem Run.inserted_place (hr : Run L₀ h L) {table : TableId} {row : Row}
    (hm : .inserted t table row ∈ h) : ∃ r, row.rid = some r ∧ r.page.table = table := by
  induction hr with
  | start => cases hm
  | step _ hs ih =>
    rcases List.mem_append.1 hm with hm | hm
    · exact ih hm
    · cases List.mem_singleton.1 hm
      cases hs with
      | inserted hr ht => exact ⟨_, hr, ht⟩
  | cut _ _ ih => exact ih hm

end Ledger
end TableStore

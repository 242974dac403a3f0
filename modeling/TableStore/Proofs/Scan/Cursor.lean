import TableStore.Proofs.Scan.Fetch

/-!
# What a scan yields

A scan goes from page to page and, on each, from row to row, and it reads a page when it comes to
it.  All the same it is nothing but a place in a list that is settled when the scan begins: the rows
that its transaction sees, page by page and slot by slot, and after them the refusal that it meets,
if it meets one.

What is read of a page is settled by the page, except for one thing: whether there is room for it.
That is settled by the first page of which the transaction has no copy.  If that page comes, there is
room from then on; if it is refused, the scan ends there, each time.  So it can be told beforehand
whether the scan is `Store.Crowded`.

## What is here

* `ScanCall`, `Store.useScan` — the calls that are made of a scan; `ScanCall.answers` is how a place
  in a list answers them.
* `Store.Fetched` — pages read one after the other until one is refused.
* `Store.scanned` — what is read of a page; it depends on the store in which the scan begins only.
* `Store.Underway` — the stores that come about while a scan is used; `Underway.fetch` says what is
  read in them, and that this is the same each time.
* `Store.Unread` — what a scan has still to yield, and `Unread.next`, `Unread.use` — that it yields
  it.
* `Store.Readings` — the rows of the pages that are read and the reason why there may be no more of
  them.
* `Store.scan_yields` — what a scan yields.
-/

set_option autoImplicit false
namespace TableStore

/-- What is asked of a scan. -/
inductive ScanCall where
  | next
  | rewind

/-- How a place in a list answers such calls. -/
def ScanCall.answers {α : Type} (items : List α) : Nat → List ScanCall → List (Option α)
  | _, [] => []
  | i, .next :: cs => items[i]? :: answers items (i + 1) cs
  | _, .rewind :: cs => answers items 0 cs

/-! ## What a scan does next -/

namespace Scan

variable {scan after : Scan} {row : Row} {p : PageId}

theorem of_step_yield (h : scan.step = .yield row after) :
    ∃ rest, scan.rest = row :: rest ∧ after = { scan with rest } := by
  rw [step] at h
  split at h
  · rename_i rest hrest
    cases h
    exact ⟨rest, hrest, rfl⟩
  · split at h <;> cases h

theorem of_step_fetch (h : scan.step = .fetch p) :
    scan.rest = [] ∧ scan.next < scan.pages ∧ p = scan.file.page scan.next := by
  rw [step] at h
  split at h
  · cases h
  · rename_i hrest
    split at h
    · rename_i hlt
      cases h
      exact ⟨hrest, hlt, rfl⟩
    · cases h

theorem of_step_finish (h : scan.step = .finish) : scan.rest = [] ∧ scan.pages ≤ scan.next := by
  rw [step] at h
  split at h
  · cases h
  · rename_i hrest
    split at h
    · cases h
    · rename_i hle
      exact ⟨hrest, Nat.not_lt.1 hle⟩

end Scan

namespace Store

variable {s₀ s m m' : Store} {t : TxnId} {file : TableFile} {crowded : Bool} {i n : Nat}
  {scan : Scan} {page : Page}

/-- Uses a scan where nobody else runs.  These are its answers, one for each `next`, and what
becomes of it. -/
def useScan : Store → Scan → List ScanCall →
    Option (List (Option (Except Error Row)) × Scan × Store)
  | s, scan, [] => some ([], scan, s)
  | s, scan, .rewind :: cs => s.useScan scan.rewind cs
  | s, scan, .next :: cs =>
    match s.next scan with
    | none => none
    | some (item, scan, s) =>
      match s.useScan scan cs with
      | none => none
      | some (items, scan, s) => some (item :: items, scan, s)

/-- The pages that have been read of a list, one after the other, and the refusal at which that
ended. -/
inductive Fetched (t : TxnId) : Store → List PageId → List Page → Option Error → Prop
  | done {s : Store} : Fetched t s [] [] none
  | refused {s m : Store} {p : PageId} {ps : List PageId} {e : Error}
      (h : s.perform t (Scan.call p) = some (⟨.error e, none⟩, m)) :
      Fetched t s (p :: ps) [] (some e)
  | read {s m : Store} {p : PageId} {ps : List PageId} {page : Page} {pages : List Page}
      {refusal : Option Error}
      (h : s.perform t (Scan.call p) = some (⟨.ok page, none⟩, m))
      (hrest : Fetched t m ps pages refusal) : Fetched t s (p :: ps) (page :: pages) refusal

/-- There is one way only for pages to be read. -/
theorem Fetched.unique {ps : List PageId} {pages pages' : List Page}
    {refusal refusal' : Option Error} (h : Fetched t s ps pages refusal)
    (h' : Fetched t s ps pages' refusal') : pages = pages' ∧ refusal = refusal' := by
  induction h generalizing pages' with
  | done =>
    cases h'
    exact ⟨rfl, rfl⟩
  | refused hp =>
    cases h' with
    | refused hp' =>
      cases hp.symm.trans hp'
      exact ⟨rfl, rfl⟩
    | read hp' _ => cases hp.symm.trans hp'
  | read hp _ ih =>
    cases h' with
    | refused hp' => cases hp.symm.trans hp'
    | read hp' hrest =>
      cases hp.symm.trans hp'
      obtain ⟨rfl, rfl⟩ := ih hrest
      exact ⟨rfl, rfl⟩

/-! ## What is read of each page

A scan reads its pages one after the other, and others of its own calls may have changed memory in
between.  What it reads of a page depends on one thing that may change: whether there is room for a
page without an own copy. -/

/-- The number `i` is that of the first page of which `t` has no copy. -/
def FirstForeign (s : Store) (t : TxnId) (file : TableFile) (i : Nat) : Prop :=
  s.own? t (file.page i) = none ∧ ∀ j, j < i → s.own? t (file.page j) ≠ none

theorem FirstForeign.unique {j : Nat} (h : s.FirstForeign t file i)
    (h' : s.FirstForeign t file j) : i = j := by
  refine Nat.le_antisymm (Nat.not_lt.1 fun hlt => ?_) (Nat.not_lt.1 fun hlt => ?_)
  · exact h.2 j hlt h'.1
  · exact h'.2 i hlt h.1

/-- There is no room for the first page of which `t` has no copy. -/
def Crowded (s : Store) (t : TxnId) (file : TableFile) : Prop :=
  ∃ i k m, s.FirstForeign t file i ∧
    s.perform t (Scan.call (file.page i)) = some (⟨.error (.poolFull k), none⟩, m)

/-- What is read of page `i`, as it would be stored. -/
def scanned (s : Store) (t : TxnId) (file : TableFile) (crowded : Bool) (i : Nat) :
    Except Error (List Row) :=
  if crowded && (s.own? t (file.page i)).isNone then .error (.poolFull s.capacity)
  else s.contents t (file.page i)

/-- The stores that come about from `s` while `t` scans `file`.  Nothing has been read but own
copies, or there was no room and there is none, or there is room. -/
structure Underway (s₀ s : Store) (t : TxnId) (file : TableFile) (crowded : Bool) (m : Store) :
    Prop where
  afterHolding : AfterHolding s₀ m
  active : t ∉ m.locks.aborted
  files : SameFiles s m
  own : ∀ p, m.own? t p = s.own? t p
  capacity_eq : m.capacity = s.capacity
  phase : Alike s m ∨
    crowded = true ∧ (∃ i, s.FirstForeign t file i ∧ m.Starved t (file.page i)) ∨
    crowded = false ∧ m.Roomy

/-- If a page without an own copy has been read before page `i`, there is room. -/
def Clear (s : Store) (t : TxnId) (file : TableFile) (crowded : Bool) (m : Store) (i : Nat) :
    Prop :=
  (∃ j, j < i ∧ s.own? t (file.page j) = none) → crowded = false ∧ m.Roomy

theorem underway_start (h : AfterHolding s₀ s) (ht : t ∉ s.locks.aborted) :
    Underway s₀ s t file crowded s :=
  ⟨h, ht, ⟨rfl, rfl, rfl⟩, fun _ => rfl, rfl, .inl (.refl s)⟩

theorem clear_zero : Clear s t file crowded m 0 := by
  rintro ⟨j, hj, -⟩
  exact absurd hj (Nat.not_lt_zero j)

namespace Underway

/-- A page that is read leaves the files and the own copies. -/
theorem keep (h : Underway s₀ s t file crowded m) {p : PageId} {reply : Reply}
    (hp : m.perform t (Scan.call p) = some (reply, m'))
    (hphase : Alike s m' ∨
      crowded = true ∧ (∃ i, s.FirstForeign t file i ∧ m'.Starved t (file.page i)) ∨
      crowded = false ∧ m'.Roomy) : Underway s₀ s t file crowded m' := by
  have hv := h.afterHolding.visited h.active hp
  have hholding := h.afterHolding.perform hp
  obtain ⟨log, hstocked⟩ := h.afterHolding.stocked
  obtain ⟨log', hstocked'⟩ := hholding.stocked
  exact
    { afterHolding := hholding
      active := hv.active
      files := h.files.trans hv.files
      own := fun q =>
        ((hv.changes fun _ => False).own?_eq h.afterHolding.nobodyWaits q).trans (h.own q)
      capacity_eq := (hstocked'.capacity_eq.trans hstocked.capacity_eq.symm).trans h.capacity_eq
      phase := hphase }

theorem contents_eq (h : Underway s₀ s t file crowded m) (p : PageId) :
    m.contents t p = s.contents t p :=
  contents_congr h.files (h.own p)

/-- What `t` reads of page `i`, and that it may go on to the next one. -/
structure Reads (s₀ s : Store) (t : TxnId) (file : TableFile) (crowded : Bool) (i : Nat)
    (result : Except Error Page) (m' : Store) : Prop where
  underway : Underway s₀ s t file crowded m'
  rows_eq : result.map (fun page => page.rows.map Row.stored) = s.scanned t file crowded i
  clear : ∀ page, result = .ok page → Clear s t file crowded m' (i + 1)

/-- An own copy is read. -/
theorem fetch_own (h : Underway s₀ s t file crowded m) (hc : Clear s t file crowded m i)
    (hown : s.own? t (file.page i) = some page) :
    ∃ result m', m.perform t (Scan.call (file.page i)) = some (⟨result, none⟩, m') ∧
      Reads s₀ s t file crowded i result m' := by
  obtain ⟨m', hp, halike⟩ := h.afterHolding.fetch_own h.active ((h.own _).trans hown)
  refine ⟨_, m', hp, h.keep hp ?_, ?_, fun _ _ => ?_⟩
  · rcases h.phase with hs | ⟨hcrowded, j, hj, hst⟩ | ⟨hcrowded, hroomy⟩
    · exact .inl (hs.trans halike)
    · exact .inr (.inl ⟨hcrowded, j, hj, halike.starved hst⟩)
    · exact .inr (.inr ⟨hcrowded, halike.roomy_iff.2 hroomy⟩)
  · rw [scanned, hown, Option.isNone_some, Bool.and_false, if_neg Bool.false_ne_true,
      contents_of_own hown]
    rfl
  · rintro ⟨j, hj, hforeign⟩
    have hne : j ≠ i := fun he => by
      rw [he, hown] at hforeign
      cases hforeign
    obtain ⟨hcrowded, hroomy⟩ := hc ⟨j, by omega, hforeign⟩
    exact ⟨hcrowded, halike.roomy_iff.2 hroomy⟩

/-- Where a page without an own copy could be brought in, it tells what the file holds. -/
theorem reads_roomy (h : Underway s₀ s t file crowded m) (hcrowded : crowded = false)
    {result : Except Error Page}
    (hp : m.perform t (Scan.call (file.page i)) = some (⟨result, none⟩, m'))
    (hcontents : result.map (fun page => page.rows.map Row.stored) =
      m.contents t (file.page i)) (hroomy : m'.Roomy) :
    Reads s₀ s t file crowded i result m' := by
  refine ⟨h.keep hp (.inr (.inr ⟨hcrowded, hroomy⟩)), ?_, fun _ _ _ => ⟨hcrowded, hroomy⟩⟩
  rw [scanned, hcrowded, Bool.false_and, if_neg Bool.false_ne_true, hcontents, h.contents_eq]

/-- Where it could not, this was the first page without an own copy, and there is still no room. -/
theorem reads_starved (h : Underway s₀ s t file crowded m) (hcrowded : crowded = true)
    (hfirst : s.FirstForeign t file i)
    (hp : m.perform t (Scan.call (file.page i)) =
      some (⟨.error (.poolFull m.capacity), none⟩, m'))
    (hst : m'.Starved t (file.page i)) :
    Reads s₀ s t file crowded i (.error (.poolFull m.capacity)) m' := by
  refine ⟨h.keep hp (.inr (.inl ⟨hcrowded, i, hfirst, hst⟩)), ?_, fun page he => by cases he⟩
  rw [scanned, hcrowded, hfirst.1, h.capacity_eq]
  rfl

/-- **What is read of a page is the same each time**, whatever has been read of the scan before. -/
theorem fetch (hcrowded : crowded = true ↔ s.Crowded t file)
    (h : Underway s₀ s t file crowded m) (hs : AfterHolding s₀ s) (ht : t ∉ s.locks.aborted)
    (hc : Clear s t file crowded m i) :
    ∃ result m', m.perform t (Scan.call (file.page i)) = some (⟨result, none⟩, m') ∧
      Reads s₀ s t file crowded i result m' := by
  cases hown : s.own? t (file.page i) with
  | some page => exact h.fetch_own hc hown
  | none =>
    have hforeign : m.own? t (file.page i) = none := (h.own _).trans hown
    have hroomy : crowded = false → m.Roomy → ∃ result m',
        m.perform t (Scan.call (file.page i)) = some (⟨result, none⟩, m') ∧
          Reads s₀ s t file crowded i result m' := fun hfalse hm => by
      obtain ⟨result, m', hp, ⟨-, hfull, -⟩ | ⟨hcontents, hm', -⟩⟩ :=
        h.afterHolding.fetch_foreign h.active hforeign
      · exact absurd hm hfull
      · exact ⟨result, m', hp, h.reads_roomy hfalse hp hcontents hm'⟩
    by_cases hbefore : ∃ j, j < i ∧ s.own? t (file.page j) = none
    · obtain ⟨hfalse, hm⟩ := hc hbefore
      exact hroomy hfalse hm
    · have hfirst : s.FirstForeign t file i :=
        ⟨hown, fun j hj hn => hbefore ⟨j, hj, hn⟩⟩
      rcases h.phase with halike | ⟨htrue, j, hj, hst⟩ | ⟨hfalse, hm⟩
      · -- only own copies have been read, so the page is refused if it would be refused in `s`
        obtain ⟨result, m', hp, ⟨rfl, -, hst⟩ | ⟨hcontents, hm', hnot⟩⟩ :=
          h.afterHolding.fetch_foreign h.active hforeign
        · have htrue := hcrowded.2 ?_
          · exact ⟨_, m', hp, h.reads_starved htrue hfirst hp hst⟩
          · obtain ⟨w, hw⟩ := h.afterHolding.fetch_alike hs halike.symm h.active hp rfl
            exact ⟨i, _, w, hfirst, hw⟩
        · have hfalse : crowded = false := by
            rw [← Bool.not_eq_true, hcrowded]
            rintro ⟨j, k, w, hj, hw⟩
            obtain rfl := hj.unique hfirst
            obtain ⟨w', hw'⟩ := hs.fetch_alike h.afterHolding halike ht hw rfl
            cases hw'.symm.trans hp
            exact hnot k rfl
          exact ⟨result, m', hp, h.reads_roomy hfalse hp hcontents hm'⟩
      · obtain rfl := hj.unique hfirst
        obtain ⟨m', hp, hst'⟩ := h.afterHolding.fetch_starved h.active hst
        exact ⟨_, m', hp, h.reads_starved htrue hfirst hp hst'⟩
      · exact hroomy hfalse hm

end Underway

/-! ## What a scan has still to yield

A scan keeps the page that it is at, and has not asked for the next one yet.  The items that are
left are told by what is seen of the remaining pages. -/

/-- The rows of pages, one page after the other, and the first refusal, which is the last item. -/
def yields (read : Nat → Except Error (List Row)) : List Nat → List (Except Error Row)
  | [] => []
  | i :: is =>
    match read i with
    | .error e => [.error e]
    | .ok rows => rows.map .ok ++ yields read is

theorem yields_of_error {read : Nat → Except Error (List Row)} {e : Error} (h : read i = .error e)
    (is : List Nat) : yields read (i :: is) = [.error e] := by
  rw [yields, h]

theorem yields_of_ok {read : Nat → Except Error (List Row)} {rows : List Row}
    (h : read i = .ok rows) (is : List Nat) :
    yields read (i :: is) = rows.map .ok ++ yields read is := by
  rw [yields, h]

/-- In the store `m`, the items `items` are what `scan` has still to yield, as they would be stored.
-/
structure Unread (s₀ s : Store) (t : TxnId) (file : TableFile) (crowded : Bool) (m : Store)
    (scan : Scan) (items : List (Except Error Row)) : Prop where
  file_eq : scan.file = file
  txn_eq : scan.txn = t
  pages_eq : scan.pages = s.pageCount file
  underway : Underway s₀ s t file crowded m
  clear : scan.next < scan.pages → Clear s t file crowded m scan.next
  items_eq : items = scan.rest.map (fun row => .ok row.stored) ++
    yields (s.scanned t file crowded) (List.range' scan.next (scan.pages - scan.next))

namespace Unread

variable {items : List (Except Error Row)}

/-- A scan that has been rewound has everything to yield, whatever it has yielded. -/
theorem rewind (h : Unread s₀ s t file crowded m scan items) :
    Unread s₀ s t file crowded m scan.rewind
      (yields (s.scanned t file crowded) (List.range (s.pageCount file))) where
  file_eq := h.file_eq
  txn_eq := h.txn_eq
  pages_eq := h.pages_eq
  underway := h.underway
  clear _ := clear_zero
  items_eq := by
    rw [← h.pages_eq, List.range_eq_range']
    rfl

/-- A scan that asks for a page has come to the end of the page before. -/
theorem fetch (hcrowded : crowded = true ↔ s.Crowded t file) (hs : AfterHolding s₀ s)
    (ht : t ∉ s.locks.aborted) (h : Unread s₀ s t file crowded m scan items) {p : PageId}
    (hstep : scan.step = .fetch p) :
    ∃ result m', m.perform scan.txn (Scan.call p) = some (⟨result, none⟩, m') ∧
      Underway.Reads s₀ s t file crowded scan.next result m' ∧
      items = yields (s.scanned t file crowded)
        (scan.next :: List.range' (scan.next + 1) (scan.pages - (scan.next + 1))) := by
  obtain ⟨hrest, hlt, rfl⟩ := Scan.of_step_fetch hstep
  obtain ⟨result, m', hp, hreads⟩ := h.underway.fetch hcrowded hs ht (h.clear hlt)
  rw [← h.txn_eq, ← h.file_eq] at hp
  refine ⟨result, m', hp, hreads, ?_⟩
  rw [h.items_eq, hrest, ← List.range'_succ,
    show scan.pages - (scan.next + 1) + 1 = scan.pages - scan.next by omega]
  rfl

/-- **The next item of a scan is the first one that it has still to yield.** -/
theorem next (hcrowded : crowded = true ↔ s.Crowded t file) (hs : AfterHolding s₀ s)
    (ht : t ∉ s.locks.aborted) (h : Unread s₀ s t file crowded m scan items) :
    ∃ item scan' m', m.next scan = some (item, scan', m') ∧
      item.map (Except.map Row.stored) = items.head? ∧
      Unread s₀ s t file crowded m' scan' items.tail := by
  -- a page without rows is passed over, so the induction is on the pages that are left
  fun_induction Store.next m scan generalizing items with
  | case1 m scan row after hstep =>
    obtain ⟨rest, hrest, rfl⟩ := Scan.of_step_yield hstep
    have hitems := h.items_eq
    rw [hrest, List.map_cons, List.cons_append] at hitems
    refine ⟨_, _, _, rfl, ?_, h.file_eq, h.txn_eq, h.pages_eq, h.underway, h.clear, ?_⟩
    · rw [hitems]
      rfl
    · rw [hitems]
      rfl
  | case2 m scan hstep =>
    obtain ⟨hrest, hle⟩ := Scan.of_step_finish hstep
    have hitems : items = [] := by
      rw [h.items_eq, hrest, Nat.sub_eq_zero_of_le hle]
      rfl
    subst hitems
    exact ⟨_, _, _, rfl, rfl, h⟩
  | case3 m scan p hstep hperform =>
    obtain ⟨result, m', hp, -⟩ := h.fetch hcrowded hs ht hstep
    cases hperform.symm.trans hp
  | case4 m scan p hstep reply m' hperform e he =>
    obtain ⟨result, m'', hp, hreads, hitems⟩ := h.fetch hcrowded hs ht hstep
    cases hperform.symm.trans hp
    obtain rfl := he
    have hscanned : s.scanned t file crowded scan.next = .error e := hreads.rows_eq.symm
    rw [yields_of_error hscanned] at hitems
    refine ⟨_, _, _, rfl, by rw [hitems]; rfl, h.file_eq, h.txn_eq, h.pages_eq, hreads.underway,
      fun hlt => absurd hlt (Nat.lt_irrefl _), ?_⟩
    have hrest : scan.rest = [] := (Scan.of_step_fetch hstep).1
    rw [hitems, Scan.failed, hrest, Nat.sub_self]
    rfl
  | case5 m scan p hstep reply m' hperform page hpage ih =>
    obtain ⟨result, m'', hp, hreads, hitems⟩ := h.fetch hcrowded hs ht hstep
    cases hperform.symm.trans hp
    obtain rfl := hpage
    have hscanned : s.scanned t file crowded scan.next = .ok (page.rows.map Row.stored) :=
      hreads.rows_eq.symm
    rw [yields_of_ok hscanned, List.map_map] at hitems
    refine ih ⟨h.file_eq, h.txn_eq, h.pages_eq, hreads.underway,
      fun _ => hreads.clear page rfl, hitems⟩

/-- **A scan answers like a place in the list of its items.** -/
theorem use (hcrowded : crowded = true ↔ s.Crowded t file) (hs : AfterHolding s₀ s)
    (ht : t ∉ s.locks.aborted) (calls : List ScanCall) {k : Nat}
    (h : Unread s₀ s t file crowded m scan
      ((yields (s.scanned t file crowded) (List.range (s.pageCount file))).drop k)) :
    ∃ outs scan' m', m.useScan scan calls = some (outs, scan', m') ∧
      outs.map (Option.map (Except.map Row.stored)) = ScanCall.answers
        (yields (s.scanned t file crowded) (List.range (s.pageCount file))) k calls := by
  induction calls generalizing m scan k with
  | nil => exact ⟨[], scan, m, rfl, rfl⟩
  | cons call calls ih =>
    cases call with
    | next =>
      obtain ⟨item, scan', m', hnext, hitem, hrest⟩ := h.next hcrowded hs ht
      rw [List.head?_drop] at hitem
      rw [List.tail_drop] at hrest
      obtain ⟨outs, scan'', m'', huse, houts⟩ := ih hrest
      refine ⟨item :: outs, scan'', m'', ?_, ?_⟩
      · rw [useScan, hnext]
        dsimp only
        rw [huse]
      · rw [List.map_cons, hitem, houts, ScanCall.answers]
    | rewind =>
      obtain ⟨outs, scan', m', huse, houts⟩ := ih (k := 0) h.rewind
      exact ⟨outs, scan', m', huse, houts⟩

end Unread

/-! ## The pages that a scan reads -/

/-- What comes of reading `n` pages in a row, from page `i` on: the rows that `t` sees on them,
either of all of them or of those before the first one that `t` cannot get. -/
structure Readings (s : Store) (t : TxnId) (file : TableFile) (i n : Nat) (pages : List Page)
    (refusal : Option Error) : Prop where
  contents_eq : ∀ k page, pages[k]? = some page →
    s.contents t (file.page (i + k)) = .ok (page.rows.map Row.stored)
  whole : refusal = none → pages.length = n
  refused : ∀ e, refusal = some e → pages.length < n ∧
    s.own? t (file.page (i + pages.length)) = none ∧
    (e = .poolFull s.capacity ∨ s.contents t (file.page (i + pages.length)) = .error e)

/-- The rows of the pages, as they would be stored, and then the refusal. -/
def itemsOf (pages : List Page) (refusal : Option Error) : List (Except Error Row) :=
  (pages.flatMap Page.rows).map (fun row => .ok row.stored) ++ (refusal.map .error).toList

theorem itemsOf_cons (page : Page) (pages : List Page) (refusal : Option Error) :
    itemsOf (page :: pages) refusal =
      (page.rows.map Row.stored).map .ok ++ itemsOf pages refusal := by
  rw [itemsOf, List.flatMap_cons, List.map_append, List.append_assoc, List.map_map]
  rfl

theorem contents_of_scanned {rows : List Row} (h : s.scanned t file crowded i = .ok rows) :
    s.contents t (file.page i) = .ok rows := by
  rw [scanned] at h
  split at h
  · cases h
  · exact h

theorem refused_of_scanned {e : Error} (h : s.scanned t file crowded i = .error e) :
    s.own? t (file.page i) = none ∧
      (e = .poolFull s.capacity ∨ s.contents t (file.page i) = .error e) := by
  rw [scanned] at h
  split at h
  · rename_i hforeign
    cases h
    exact ⟨Option.isNone_iff_eq_none.1 (Bool.and_eq_true_iff.1 hforeign).2, .inl rfl⟩
  · refine ⟨Option.eq_none_iff_forall_ne_some.2 fun page hown => ?_, .inr h⟩
    rw [contents_of_own hown] at h
    cases h

theorem Readings.nil : Readings s t file i 0 [] none where
  contents_eq k page hk := by cases hk
  whole _ := rfl
  refused e he := by cases he

theorem Readings.stopped {e : Error} (h : s.own? t (file.page i) = none ∧
    (e = .poolFull s.capacity ∨ s.contents t (file.page i) = .error e)) :
    Readings s t file i (n + 1) [] (some e) where
  contents_eq k page hk := by cases hk
  whole hn := by cases hn
  refused e' he := by
    cases he
    exact ⟨Nat.succ_pos n, h⟩

theorem Readings.cons {pages : List Page} {refusal : Option Error}
    (hpage : s.contents t (file.page i) = .ok (page.rows.map Row.stored))
    (h : Readings s t file (i + 1) n pages refusal) :
    Readings s t file i (n + 1) (page :: pages) refusal where
  contents_eq k page' hk := by
    cases k with
    | zero =>
      cases hk
      exact hpage
    | succ k =>
      rw [← Nat.succ_add_eq_add_succ]
      exact h.contents_eq k page' hk
  whole hn := congrArg (· + 1) (h.whole hn)
  refused e he := by
    obtain ⟨hlt, hrefused⟩ := h.refused e he
    rw [show i + (page :: pages).length = i + 1 + pages.length from
      (Nat.succ_add_eq_add_succ i pages.length).symm]
    exact ⟨Nat.succ_lt_succ hlt, hrefused⟩

/-- **The pages of a file are read as the scan tells.** -/
theorem Underway.fetched (hcrowded : crowded = true ↔ s.Crowded t file)
    (h : Underway s₀ s t file crowded m) (hs : AfterHolding s₀ s) (ht : t ∉ s.locks.aborted)
    (hc : Clear s t file crowded m i) (n : Nat) :
    ∃ pages refusal, Fetched t m ((List.range' i n).map file.page) pages refusal ∧
      Readings s t file i n pages refusal ∧
      yields (s.scanned t file crowded) (List.range' i n) = itemsOf pages refusal := by
  induction n generalizing m i with
  | zero =>
    exact ⟨[], none, .done, .nil, rfl⟩
  | succ n ih =>
    rw [List.range'_succ, List.map_cons]
    obtain ⟨result, m', hp, hreads⟩ := h.fetch hcrowded hs ht hc
    cases result with
    | error e =>
      have hscanned : s.scanned t file crowded i = .error e := hreads.rows_eq.symm
      exact ⟨[], some e, .refused hp, .stopped (refused_of_scanned hscanned),
        yields_of_error hscanned _⟩
    | ok page =>
      have hscanned : s.scanned t file crowded i = .ok (page.rows.map Row.stored) :=
        hreads.rows_eq.symm
      obtain ⟨pages, refusal, hfetched, hread, hitems⟩ :=
        ih hreads.underway (hreads.clear page rfl)
      refine ⟨page :: pages, refusal, .read hp hfetched,
        hread.cons (contents_of_scanned hscanned), ?_⟩
      rw [yields_of_ok hscanned, hitems, itemsOf_cons]

/-- **A scan yields every row once, in order.**  The pages of a file that has room can be read one
after the other, all of them or up to the first one that `t` cannot get, and they have the rows that
`t` sees when the scan begins.  However `next` and `rewind` are called, the answers are those of a
place in the list of these rows, with the refusal at its end: a `rewind` goes back to the first row,
and after the last item there is nothing more. -/
theorem scan_yields {ds : List Deed} (h₀ : s₀.Fresh) (hi : s₀.catalog.Indexed)
    (h : After s₀ ds s) (hfixed : ∀ d ∈ ds, d.registers = false ∧ d.foreign = false)
    (hhand : ∀ d ∈ ds, d.releases = false) (ht : t ∉ s.locks.aborted) (file : TableFile)
    (hroom : file.HasRoom s.disk s.pageSize) :
    ∃ pages refusal,
      Fetched t s ((List.range (s.wholePages file)).map file.page) pages refusal ∧
      Readings s t file 0 (s.wholePages file) pages refusal ∧
      ∀ calls, ∃ outs scan m, s.useScan (s.scan t file) calls = some (outs, scan, m) ∧
        outs.map (Option.map (Except.map Row.stored)) =
          ScanCall.answers (itemsOf pages refusal) 0 calls := by
  classical
  have hs : AfterHolding s₀ s := ⟨h₀, hi, ds, h, hfixed, hhand⟩
  have hcrowded : decide (s.Crowded t file) = true ↔ s.Crowded t file := decide_eq_true_iff
  have hstart : Underway s₀ s t file (decide (s.Crowded t file)) s := underway_start hs ht
  have hcount : s.pageCount file = s.wholePages file := hroom.pageCount_eq
  rw [← hcount]
  obtain ⟨pages, refusal, hfetched, hread, hitems⟩ :=
    hstart.fetched hcrowded hs ht clear_zero (s.pageCount file)
  rw [← List.range_eq_range'] at hfetched hitems
  refine ⟨pages, refusal, hfetched, hread, fun calls => ?_⟩
  have hunread : Unread s₀ s t file (decide (s.Crowded t file)) s (s.scan t file)
      ((yields (s.scanned t file _) (List.range (s.pageCount file))).drop 0) :=
    { file_eq := rfl
      txn_eq := rfl
      pages_eq := rfl
      underway := hstart
      clear := fun _ => clear_zero
      items_eq := by rw [List.range_eq_range']; rfl }
  rw [← hitems]
  exact hunread.use hcrowded hs ht calls

/-- A transaction that has put a row into the first page finds it when it scans the table, and finds
it again when it scans the table once more. -/
theorem scan_yields_entered : numbers.Fresh ∧ numbers.catalog.Indexed ∧
    ∃ (ds : List Deed) (s : Store), After numbers ds s ∧ ⟨1⟩ ∉ s.locks.aborted ∧
      TableFile.numbers.HasRoom s.disk s.pageSize ∧
      s.own? ⟨1⟩ (TableFile.numbers.page 0) ≠ none ∧
      ∃ outs scan m,
        s.useScan (s.scan ⟨1⟩ TableFile.numbers) [.next, .next, .rewind, .next, .next] =
          some (outs, scan, m) ∧
        outs.map (Option.map (Except.map Row.stored)) =
          [some (.ok ⟨[.int 7], some ⟨TableFile.numbers.page 0, 0⟩⟩), none,
            some (.ok ⟨[.int 7], some ⟨TableFile.numbers.page 0, 0⟩⟩), none] := by
  have hf : numbers.Fresh := ⟨rfl, rfl⟩
  have hi : numbers.catalog.Indexed := Catalog.Indexed.empty.add _ _ _
  have hd : entered.map (fun run => decide (⟨1⟩ ∉ run.2.locks.aborted ∧
      run.2.own? ⟨1⟩ (TableFile.numbers.page 0) ≠ none ∧
      run.2.wholePages TableFile.numbers = 2 ∧ TableFile.numbers.HasRoom run.2.disk run.2.pageSize ∧
      ∃ x ∈ run.2.perform ⟨1⟩ (Scan.call (TableFile.numbers.page 0)),
        ∃ y ∈ x.2.perform ⟨1⟩ (Scan.call (TableFile.numbers.page 1)),
          ∃ page ∈ x.1.result.toOption, ∃ page' ∈ y.1.result.toOption,
            x.1.row = none ∧ y.1.row = none ∧
            page.rows = [⟨[.int 7], some ⟨TableFile.numbers.page 0, 0⟩⟩] ∧ page'.rows = [])) =
      some true := by
    decide +kernel
  obtain ⟨⟨reply, s⟩, hs, hd⟩ := Option.map_eq_some_iff.1 hd
  obtain ⟨ht, hown, hcount, hroom, ⟨⟨result, row⟩, m⟩, hx, ⟨⟨result', row'⟩, m'⟩, hy, page, hpage,
    page', hpage', rfl, rfl, hrows, hrows'⟩ := of_decide_eq_true hd
  obtain rfl := eq_ok_of_mem_toOption hpage
  obtain rfl := eq_ok_of_mem_toOption hpage'
  have h := After.start.deed (.call hs)
  obtain ⟨pages, refusal, hfetched, -, huse⟩ := scan_yields hf hi h
    (by simp [Deed.registers, Deed.foreign]) (by simp [Deed.releases]) ht TableFile.numbers hroom
  rw [hcount] at hfetched
  obtain ⟨rfl, rfl⟩ := hfetched.unique (.read hx (.read hy .done))
  obtain ⟨outs, scan, m, hcalls, houts⟩ := huse [.next, .next, .rewind, .next, .next]
  refine ⟨hf, hi, _, s, h, ht, hroom, hown, outs, scan, m, hcalls, houts.trans ?_⟩
  rw [itemsOf, List.flatMap_cons, List.flatMap_singleton, hrows, hrows']
  rfl

end Store
end TableStore

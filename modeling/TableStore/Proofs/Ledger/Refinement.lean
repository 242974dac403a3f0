import TableStore.Proofs.Ledger.Basic
import TableStore.Proofs.Pool.Data
import TableStore.Proofs.Pool.Step

/-!
# A store is a simple transactional store

Seen from outside, a store with its cache, its locks and its files is a ledger.  The committed rows
of a page are those of the clean page in memory, or else those in the file; the pages that a
transaction has changed are its copies.

## What is here

* `Store.ledger` — the ledger that a store stands for.
* `Store.committed_cut` — pages that come from their files and are dropped again change the committed
  rows in nothing but texts that are cut.
* `Store.ledger_flush`, `Store.ledger_commit` — writing a page commits its rows, and a commit writes
  all changed pages of the transaction.  `Store.commit_ok_iff` — it is refused to victims only.
* `Store.Move.simulate` — every move of a transaction is a step of the ledger, or not seen at all.
-/

set_option autoImplicit false
namespace TableStore
namespace Store

variable {s s' m : Store} {t u : TxnId} {p : PageId} {page : Page}

/-! ## The ledger of a store

A page in memory may hold a text that its file has already cut.  So the committed rows of a clean
page are those in memory, and those of any other page are read from its file. -/

/-- The ledger that a store stands for. -/
def ledger (s : Store) : Ledger where
  committed r :=
    match s.cache.pages.get? r.page with
    | none => s.stored? r
    | some page => if page.dirtier = none then page.row? r.slot else s.stored? r
  overlay t p :=
    match s.cache.pages.get? p with
    | none => none
    | some page => if page.dirtier = some t then some page.row? else none
  victims t := t ∈ s.locks.aborted

theorem committed_of_clean (hp : s.cache.pages.get? p = some page) (hd : page.dirtier = none)
    (i : Nat) : s.ledger.committed ⟨p, i⟩ = page.row? i := by
  rw [ledger]
  dsimp only
  rw [hp]
  exact if_pos hd

theorem committed_of_not_clean
    (hp : ∀ page, s.cache.pages.get? p = some page → page.dirtier ≠ none) (i : Nat) :
    s.ledger.committed ⟨p, i⟩ = s.stored? ⟨p, i⟩ := by
  rw [ledger]
  dsimp only
  split
  · rfl
  · rename_i page hpage
    exact if_neg (hp page hpage)

theorem overlay_of_own (hp : s.cache.pages.get? p = some page) (hd : page.dirtier = some t) :
    s.ledger.overlay t p = some page.row? := by
  rw [ledger]
  dsimp only
  rw [hp]
  exact if_pos hd

theorem overlay_eq_none (hp : ∀ page, s.cache.pages.get? p = some page → page.dirtier ≠ some t) :
    s.ledger.overlay t p = none := by
  rw [ledger]
  dsimp only
  split
  · rfl
  · rename_i page hpage
    exact if_neg (hp page hpage)

/-- Overlays depend on the changed pages in memory only. -/
theorem overlay_congr (h : ∀ page, page.dirtier = some t →
    (s'.cache.pages.get? p = some page ↔ s.cache.pages.get? p = some page)) :
    s'.ledger.overlay t p = s.ledger.overlay t p := by
  by_cases ho : ∃ page, s.cache.pages.get? p = some page ∧ page.dirtier = some t
  · obtain ⟨page, hp, hd⟩ := ho
    rw [overlay_of_own hp hd, overlay_of_own ((h page hd).2 hp) hd]
  · rw [overlay_eq_none fun page hp hd => ho ⟨page, hp, hd⟩,
      overlay_eq_none fun page hp hd => ho ⟨page, (h page hd).1 hp, hd⟩]

/-- A page in memory that is clean or its own is what a transaction sees. -/
theorem view_of_cached (hp : s.cache.pages.get? p = some page)
    (hd : page.dirtier = none ∨ page.dirtier = some t) (i : Nat) :
    s.ledger.view t p i = page.row? i := by
  rcases hd with hd | hd
  · have ho : s.ledger.overlay t p = none := overlay_eq_none fun page' hp' hd' => by
      rw [hp] at hp'
      cases hp'
      rw [hd] at hd'
      cases hd'
    rw [Ledger.view_of_none ho, committed_of_clean hp hd]
  · rw [Ledger.view_of_overlay (overlay_of_own hp hd)]

/-! ## Nothing but cuts -/

/-- A page may come from its file, and clean pages may be dropped: then texts have been cut. -/
theorem committed_cut (h : s.MatchesFiles) (hs : ∀ r, s'.stored? r = s.stored? r)
    (hc : ∀ q page, s'.cache.pages.get? q = some page → page.dirtier = none →
      s.cache.pages.get? q = some page ∨
        s.cache.pages.get? q = none ∧ s.readPage q = .ok page) (q : PageId) :
    (∀ i, s'.ledger.committed ⟨q, i⟩ = s.ledger.committed ⟨q, i⟩) ∨
    ∀ i, s'.ledger.committed ⟨q, i⟩ = (s.ledger.committed ⟨q, i⟩).map Row.stored := by
  by_cases hclean' : ∃ page, s'.cache.pages.get? q = some page ∧ page.dirtier = none
  · obtain ⟨page, hp', hd⟩ := hclean'
    left
    intro i
    rw [committed_of_clean hp' hd]
    rcases hc q page hp' hd with hp | ⟨hn, hread⟩
    · exact (committed_of_clean hp hd i).symm
    · rw [committed_of_not_clean fun page' hp => by rw [hn] at hp; cases hp]
      exact (stored?_of_readPage hread i).symm
  · have hstored : ∀ i, s'.ledger.committed ⟨q, i⟩ = s.stored? ⟨q, i⟩ := fun i => by
      rw [committed_of_not_clean fun page hp hd => hclean' ⟨page, hp, hd⟩, hs]
    by_cases hclean : ∃ page, s.cache.pages.get? q = some page ∧ page.dirtier = none
    · obtain ⟨page, hp, hd⟩ := hclean
      right
      intro i
      rw [hstored, committed_of_clean hp hd, h.agrees q page hp hd]
    · left
      intro i
      rw [hstored, committed_of_not_clean fun page hp hd => hclean ⟨page, hp, hd⟩]

theorem Refreshes.cut (h : s.MatchesFiles) (hr : s.Refreshes p s') :
    Ledger.Cut s.ledger s'.ledger where
  committed := by
    refine committed_cut h hr.sameFiles.stored?_eq fun q page hq _ => ?_
    exact (hr.origin q page hq).imp_right fun ho => ho.2
  overlay_eq := funext fun t => funext fun q => overlay_congr fun page hd =>
    hr.dirty_iff (by simp [hd])
  victims_eq := by
    rw [ledger, ledger, hr.locks_eq]

/-- Some transactions have lost their changes. -/
theorem Discarded.cut {us : List TxnId} (h : s.MatchesFiles) (hd : Discarded us m s')
    (hm : m.cache = s.cache) (hs : SameFiles s m) {L : Ledger}
    (hc : L.committed = s.ledger.committed)
    (ho : ∀ u q, L.overlay u q = if u ∈ us then none else s.ledger.overlay u q)
    (hv : ∀ u, L.victims u ↔ u ∈ s'.locks.aborted) : Ledger.Cut L s'.ledger where
  committed := by
    rw [hc]
    refine committed_cut h (fun r => ?_) fun q page hq _ => ?_
    · rw [hd.sameFiles.stored?_eq, hs.stored?_eq]
    · exact Or.inl (hm ▸ (hd.origin q page hq).1)
  overlay_eq := by
    funext u q
    rw [ho]
    by_cases hu : u ∈ us
    · rw [if_pos hu]
      exact overlay_eq_none fun page hq => (hd.origin q page hq).2 u hu
    · rw [if_neg hu]
      refine overlay_congr fun page hdu => ⟨fun hq => hm ▸ (hd.origin q page hq).1, fun hq => ?_⟩
      have hn : page.dirtier ≠ none := by simp [hdu]
      refine hd.kept q page (hm ▸ hq) hn fun v hv' he => hu ?_
      rw [hdu] at he
      cases he
      exact hv'
  victims_eq := funext fun u => propext (hv u).symm

/-! ## Committing

A commit writes one page after the other.  On the ledger this settles one page after the other, and
the order does not matter, since the copies that are left are of other pages. -/

/-- The copy that a transaction has of one page becomes the committed page. -/
def settle (L : Ledger) (t : TxnId) (p : PageId) : Ledger :=
  { L with
    committed := fun r => if r.page = p then L.view t p r.slot else L.committed r
    overlay := fun u q => if u = t ∧ q = p then none else L.overlay u q }

theorem settle_of_none {L : Ledger} (h : L.overlay t p = none) : settle L t p = L := by
  refine Ledger.ext (fun r => ?_) (fun u q => ?_) fun u => Iff.rfl
  · rw [settle]
    dsimp only
    split
    · rename_i he
      rw [Ledger.view_of_none h, ← he]
    · rfl
  · rw [settle]
    dsimp only
    split
    · rename_i he
      rw [he.1, he.2, h]
    · rfl

theorem view_settle (L : Ledger) (t : TxnId) (p q : PageId) (i : Nat) :
    (settle L t p).view t q i = L.view t q i := by
  rw [Ledger.view, settle]
  by_cases hq : q = p
  · simp only [hq, and_self, if_true]
  · simp only [hq, and_false, if_false]
    rfl

/-- All pages of which a transaction has copies, one after the other, make up its commit. -/
theorem foldl_settle {L : Ledger} (ps : List PageId)
    (h : ∀ p, p ∉ ps → L.overlay t p = none) :
    ps.foldl (fun L p => settle L t p) L = L.commit t := by
  induction ps generalizing L with
  | nil =>
    refine Ledger.ext (fun r => ?_) (fun u q => ?_) fun u => Iff.rfl
    · rw [List.foldl_nil]
      exact (Ledger.view_of_none (h _ List.not_mem_nil) r.slot).symm
    · rw [List.foldl_nil, Ledger.commit]
      dsimp only
      split
      · rename_i he
        rw [he]
        exact h q List.not_mem_nil
      · rfl
  | cons p ps ih =>
    rw [List.foldl_cons, ih fun q hq => ?_]
    · refine Ledger.ext (fun r => view_settle L t p r.page r.slot) (fun u q => ?_) fun u => Iff.rfl
      rw [Ledger.commit, Ledger.commit, settle]
      dsimp only
      by_cases hu : u = t
      · rw [if_pos hu, if_pos hu]
      · rw [if_neg hu, if_neg hu, if_neg fun he => hu he.1]
    · rw [settle]
      dsimp only
      by_cases he : q = p
      · rw [if_pos ⟨rfl, he⟩]
      · rw [if_neg fun h => he h.2]
        exact h q fun hm => (List.mem_cons.1 hm).elim he hq

/-- A page that is written is committed. -/
theorem ledger_flush (hp : s.cache.pages.get? p = some page) (hd : page.dirtier = some t)
    (hf : Flushed p page s s') : s'.ledger = settle s.ledger t p := by
  have hclean : s'.cache.pages.get? p = some page.clean := (hf.pages p).trans (if_pos rfl)
  have hother : ∀ q, q ≠ p → s'.cache.pages.get? q = s.cache.pages.get? q := fun q hq =>
    (hf.pages q).trans (if_neg hq)
  refine Ledger.ext (fun r => ?_) (fun u q => ?_) fun u => ?_
  · obtain ⟨q, i⟩ := r
    rw [settle]
    dsimp only
    by_cases hq : q = p
    · rw [if_pos hq, hq, committed_of_clean hclean rfl, view_of_cached hp (Or.inr hd)]
      rfl
    · rw [if_neg hq]
      simp only [ledger, hother q hq, hf.stored, hq, if_false]
  · rw [settle]
    dsimp only
    by_cases hq : q = p
    · subst hq
      have hnone : s'.ledger.overlay u q = none := overlay_eq_none fun page' hp' hd' => by
        rw [hclean] at hp'
        cases hp'
        cases hd'
      rw [hnone]
      split
      · rfl
      · rename_i hu
        refine (overlay_eq_none fun page' hp' hd' => hu ⟨?_, rfl⟩).symm
        rw [hp] at hp'
        cases hp'
        exact Option.some.inj (hd'.symm.trans hd)
    · rw [if_neg fun he => hq he.2]
      simp only [ledger, hother q hq]
  · simp only [ledger, settle, hf.locks_eq]

theorem flushPage_of_clean (hp : s.cache.pages.get? p = some page) (hd : page.dirtier = none) :
    s.flushPage p = .ok s := by
  rw [flushPage, hp]
  dsimp only
  rw [Page.isDirty, hd]
  rfl

/-- Pages that a transaction has changed can all be written, and are committed then. -/
theorem ledger_flushPages (h : s.MatchesFiles) (ps : List PageId)
    (hps : ∀ p ∈ ps, ∃ page, s.cache.pages.get? p = some page ∧
      (page.dirtier = none ∨ page.dirtier = some t)) :
    (s.flushPages ps).1 = .ok () ∧
      (s.flushPages ps).2.ledger = ps.foldl (fun L p => settle L t p) s.ledger := by
  induction ps generalizing s with
  | nil => exact ⟨rfl, rfl⟩
  | cons p ps ih =>
    obtain ⟨⟨page, hp, hd⟩, hrest⟩ := List.forall_mem_cons.1 hps
    rw [flushPages, List.foldl_cons]
    rcases hd with hd | hd
    · have hnone : s.ledger.overlay t p = none := overlay_eq_none fun page' hp' hd' => by
        rw [hp] at hp'
        cases hp'
        rw [hd] at hd'
        cases hd'
      rw [flushPage_of_clean hp hd, settle_of_none hnone]
      exact ih h hrest
    · obtain ⟨m, hm, hf⟩ := h.flush hp (by simp [hd])
      rw [hm, ← ledger_flush hp hd hf]
      refine ih hf.matchesFiles fun q hq => ?_
      rw [hf.pages]
      by_cases he : q = p
      · exact ⟨page.clean, if_pos he, Or.inl rfl⟩
      · rw [if_neg he]
        exact hrest q hq

/-- **A commit makes the copies of the transaction the committed pages**, unless it is a victim. -/
theorem ledger_commit (h : s.MatchesFiles) (ha : t ∉ s.locks.aborted) :
    (s.commit t).1 = .ok () ∧ (s.commit t).2.ledger = s.ledger.commit t := by
  obtain ⟨hok, hl⟩ := ledger_flushPages (t := t) h (s.cache.dirtyPages t) fun p hp => by
    obtain ⟨page, hp, hd⟩ := Cache.mem_dirtyPages.1 hp
    exact ⟨page, hp, Or.inr hd⟩
  have hfold := foldl_settle (t := t) (L := s.ledger) (s.cache.dirtyPages t) fun p hp =>
    overlay_eq_none fun page hpage hd => hp (Cache.mem_dirtyPages.2 ⟨page, hpage, hd⟩)
  have hlocks := locks_flushPages s (s.cache.dirtyPages t)
  rcases commit_cases s t with ⟨ha', -⟩ | ⟨e, -, he, -⟩ | ⟨-, -, he⟩
  · exact absurd ha' ha
  · rw [hok] at he
    cases he
  · rw [he]
    refine ⟨rfl, Eq.trans ?_ (hl.trans hfold)⟩
    refine Ledger.ext (fun _ => rfl) (fun _ _ => rfl) fun u => ?_
    have hm := LockTable.mem_aborted_complete (l := s.locks) (t := t) (u := u)
    rw [← hlocks] at hm ha
    exact hm.trans ⟨fun hu => hu.2, fun hu => ⟨fun he => ha (he ▸ hu), hu⟩⟩

/-- A commit is refused to victims only. -/
theorem commit_ok_iff (h : s.MatchesFiles) : (s.commit t).1 = .ok () ↔ ¬ s.ledger.victims t := by
  refine ⟨fun hok ha => ?_, fun ha => (ledger_commit h ha).1⟩
  rw [commit_of_aborted ha] at hok
  cases hok

/-! ## Every move is a step of the ledger -/

/-- Nobody else has a changed copy of a page that is locked. -/
theorem ChangesLocked.overlay_none (h : s.ChangesLocked) {m : Mode}
    (hl : s.locks.heldMode? t p = some m) (hu : u ≠ t) : s.ledger.overlay u p = none :=
  overlay_eq_none fun _ hp hd => hu (h.eq_of_owned hp hd hl)

/-- Whoever has a lock sees the page in memory. -/
theorem ChangesLocked.view_eq (h : s.ChangesLocked) (hp : s.cache.pages.get? p = some page)
    (hl : s.locks.heldMode? t p ≠ none) (i : Nat) : s.ledger.view t p i = page.row? i := by
  obtain ⟨m, hm⟩ := Option.ne_none_iff_exists'.1 hl
  refine view_of_cached hp ?_ i
  cases hd : page.dirtier with
  | none => exact Or.inl rfl
  | some u => exact Or.inr (congrArg some (h.eq_of_owned hp hd hm))

/-- A page that has been changed in one place is the changed copy of the transaction. -/
theorem edited_cut (h : s.MatchesFiles) {copy : Page} (hp : s.cache.pages.get? p = some page)
    (hl : s.locks.heldMode? t p = some .exclusive) (hid : copy.id = p) {i : Nat} {x : Option Row}
    (hrow : ∀ j, copy.row? j = if j = i then x else page.row? j) :
    Ledger.Cut (s.ledger.put t ⟨p, i⟩ x) (s.edited t copy).ledger where
  committed := by
    refine committed_cut h (fun _ => rfl) fun q page' hq hd => ?_
    by_cases he : q = p
    · rw [edited, Cache.get?_put, if_pos (he.trans hid.symm)] at hq
      cases hq
      cases hd
    · exact Or.inl ((get?_edited (hid ▸ he)).symm.trans hq)
  overlay_eq := by
    have hcopy : (s.edited t copy).cache.pages.get? p = some { copy with dirtier := some t } := by
      rw [edited, Cache.get?_put, if_pos hid.symm]
    funext u q
    rw [Ledger.put]
    dsimp only
    by_cases hq : q = p
    · subst hq
      by_cases hu : u = t
      · subst hu
        rw [if_pos ⟨rfl, rfl⟩, overlay_of_own hcopy rfl]
        refine congrArg some (funext fun j => ?_)
        rw [Function.update_apply, h.changesLocked.view_eq hp (by simp [hl])]
        exact hrow j
      · rw [if_neg fun he => hu he.1, h.changesLocked.overlay_none hl hu]
        refine overlay_eq_none fun page' hp' hd => hu ?_
        rw [hcopy] at hp'
        cases hp'
        exact (Option.some.inj hd).symm
    · rw [if_neg fun he => hq he.2]
      refine overlay_congr fun page' _ => ?_
      rw [get?_edited (hid ▸ hq)]
  victims_eq := rfl

variable {sealed : Prop} {serves : TableId → TableFile → Prop} {es : List Event} {L₀ : Ledger}
  {h : List Event}

/-- The row that is taken away is the one that the transaction sees. -/
theorem taken_eq_of_cached (hp : s.cache.pages.get? p = some page)
    (hd : page.dirtier = none ∨ page.dirtier = some t) {row old : Row} {r : RecordId}
    (hr : row.rid = some r) (hrp : r.page = p) (hold : page.row? r.slot = some old) :
    s.taken t row = old := by
  have hseen : s.seen t r.page = .ok page := by
    rw [seen, hrp, hp]
    exact if_pos hd
  rw [taken, hr]
  dsimp only [Option.bind]
  rw [rowSeen, hseen]
  dsimp only
  rw [hold]
  rfl

/-- A row is put into a free place of the page. -/
theorem MatchesFiles.inserted (h : s.MatchesFiles) {copy : Page} {row placed : Row}
    (hp : s.cache.pages.get? p = some page) (he : page.insert row = .ok (copy, placed)) :
    ∃ i, placed.rid = some ⟨p, i⟩ ∧ page.row? i = none ∧
      ∀ j, copy.row? j = if j = i then some placed else page.row? j := by
  obtain ⟨home, hh⟩ := h.homes _ _ hp
  obtain ⟨-, i, hplaced, hfree, hrow⟩ := hh.formed.insert he
  exact ⟨i, by rw [hplaced, h.changesLocked.sound.keyed _ _ hp], hfree, hrow⟩

/-- The row that is taken away stands in its place on the page. -/
theorem MatchesFiles.removed (h : s.MatchesFiles) {copy : Page} {row bare : Row}
    (hp : s.cache.pages.get? p = some page) (hl : s.locks.heldMode? t p = some .exclusive)
    (he : page.remove row = .ok (copy, bare)) :
    ∃ i, (s.taken t row).rid = some ⟨p, i⟩ ∧ page.row? i = some (s.taken t row) ∧
      ∀ j, copy.row? j = if j = i then none else page.row? j := by
  obtain ⟨home, hh⟩ := h.homes _ _ hp
  obtain ⟨-, r, old, hrid, hrp, hold, hrow⟩ := hh.formed.remove he
  have hid := h.changesLocked.sound.keyed _ _ hp
  have hown : page.dirtier = none ∨ page.dirtier = some t := by
    cases hd : page.dirtier with
    | none => exact Or.inl rfl
    | some u => exact Or.inr (congrArg some (h.changesLocked.eq_of_owned hp hd hl))
  rw [taken_eq_of_cached hp hown hrid (hrp.trans hid) hold]
  exact ⟨r.slot, by rw [hh.formed.placed _ _ hold, hid], hold, hrow⟩

/-- **Every move of a transaction is a step of the ledger**, apart from cuts. -/
theorem Move.simulate (hm : Move sealed serves t es s s') (hi : s.MatchesFiles) (hsealed : sealed)
    (hserves : ∀ table file, serves table file → s.catalog.file table = .ok file)
    (hr : Ledger.Run L₀ h s.ledger) : Ledger.Run L₀ (h ++ es) s'.ledger := by
  have hg := hi.changesLocked
  cases hm with
  | look _ hl =>
    rw [List.append_nil]
    refine hr.cut ⟨fun _ => Or.inl fun _ => rfl, rfl, funext fun u => ?_⟩
    exact congrArg (u ∈ ·) hl.aborted_eq
  | refresh href =>
    rw [List.append_nil]
    exact hr.cut (href.cut hi)
  | giveBack _ _ hrel =>
    rw [List.append_nil]
    refine hr.cut ⟨fun _ => Or.inl fun _ => rfl, rfl, funext fun u => ?_⟩
    exact congrArg (u ∈ ·) (LockTable.aborted_release hrel)
  | append hs hroom =>
    rw [List.append_nil]
    have hf := hserves _ _ hs
    have hstored := stored?_append hi.indexed (hi.indexed _ _ hf ▸ hf) (hroom hsealed)
    exact hr.cut ⟨committed_cut hi hstored fun _ _ hq _ => Or.inl hq, rfl, rfl⟩
  | refuse => exact hr.step (.refused _ t _)
  | read hp hl =>
    exact hr.step (.read (hg.sound.keyed _ _ hp) fun i => (hg.view_eq hp hl i).symm)
  | copy => exact hr.step (.copied _ t _)
  | @insert _ p page copy row placed table file hp hl ha hs hf he =>
    obtain ⟨i, hplace, hfree, hrow⟩ := hi.inserted hp he
    have hid := (Page.insert_id he).trans (hg.sound.keyed _ _ hp)
    have htable : file.id = table := hi.indexed _ _ (hserves _ _ hs)
    have hview := hg.view_eq hp (t := t) (by simp [hl])
    refine (hr.step (.inserted hplace (hf.trans htable) ha ((hview i).trans hfree) fun u hu =>
      hg.overlay_none hl hu)).cut (edited_cut hi hp hl hid hrow)
  | @remove _ p page copy row bare hp hl ha he =>
    obtain ⟨i, hplace, hold, hrow⟩ := hi.removed hp hl he
    have hid := (Page.remove_id he).trans (hg.sound.keyed _ _ hp)
    have hview := hg.view_eq hp (t := t) (by simp [hl])
    refine (hr.step (.removed hplace ha ((hview i).trans hold) fun u hu =>
      hg.overlay_none hl hu)).cut (edited_cut hi hp hl hid hrow)
  | @strike _ k r ht hk =>
    have hd := discarded_foldl_rollBack (s := { s with locks := k }.bump .deadlocks)
      (hk.same.consistent hg.consistent) hg.sound (s.locks.victimsOf t)
    have hnot : t ∉ s.locks.victimsOf t := fun hm => (LockTable.mem_victimsOf.1 hm).1 rfl
    refine (hr.step (.struck hnot)).cut ?_
    refine hd.cut hi rfl ⟨rfl, rfl, rfl⟩ rfl (fun _ _ => rfl) fun u => ?_
    rw [aborted_foldl_rollBack]
    exact (ht ▸ hk.mem_aborted u).symm
  | commit =>
    by_cases ha : t ∈ s.locks.aborted
    · rw [commitEvent, commit_of_aborted ha]
      exact hr.step (.refused _ t _)
    · obtain ⟨hok, hl⟩ := ledger_commit hi ha
      rw [commitEvent, hok, hl]
      exact hr.step (.committed ha)
  | abort =>
    have hd := discarded_abort hg.consistent hg.sound t
    refine (hr.step (.aborted _ t)).cut ?_
    refine hd.cut hi rfl ⟨rfl, rfl, rfl⟩ rfl (fun u q => ?_) fun u => ?_
    · rw [Ledger.abort]
      simp only [List.mem_singleton]
    · rw [locks_abort, LockTable.mem_aborted_complete]
      exact Iff.rfl

end Store
end TableStore

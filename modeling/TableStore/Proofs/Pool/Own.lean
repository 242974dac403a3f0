import TableStore.Proofs.Pool.Frame

/-!
# What a transaction has changed

Where a single thread makes all calls, the answers to them tell what each transaction has changed: a
call that inserts or removes a row answers with the changed page, and the page stays as it is until
the same transaction changes it again or ends, if nobody gives back a lock by hand.

A call is described twice here: by changes, which say what it does to the pages of whoever makes it,
and by moves, which know who holds which lock, and so what it leaves to the others.

## What is here

* `Deed.changed` — the page that a transaction has made of a page, as far as the answers tell.
* `Store.own?` — the page in memory with its changes.
* `Store.Does.changesLocked` — a deed leaves uncommitted changes protected.
* `Store.Does.own?_eq`, `Store.After.own?_eq` — the two are the same.
-/

set_option autoImplicit false
namespace TableStore

/-! ## What the answers tell

The answers to the calls of a transaction tell which pages it has changed, and how.  No store is
needed to read this off. -/

/-- The page that `t` has made of the page `p`, and that is not written or dropped yet, after one
more deed. -/
def Deed.change (t : TxnId) (p : PageId) (was : Option Page) : Deed → Option Page
  | .call u c reply =>
    if u = t ∧ c.keeps = true then
      match reply.result with
      | .ok page => if page.id = p then some page else was
      | .error _ => was
    else was
  | .commit u (.ok ()) => if u = t then none else was
  | .abort u => if u = t then none else was
  | .discard q => if q = p then none else was
  | _ => was

/-- The page that `t` has made of the page `p` in the course of some deeds. -/
def Deed.changed (t : TxnId) (p : PageId) (ds : List Deed) : Option Page :=
  ds.foldl (Deed.change t p) none

namespace Store

variable {s₀ s m s' : Store} {t u : TxnId} {p : PageId} {page : Page} {d : Deed} {ds : List Deed}
  {call : Call} {reply : Reply} {sealed : Prop} {serves : TableId → TableFile → Prop}
  {es fs : List Event} {grows : TableFile → Prop} {keeps : Bool}

/-! ## Marks -/

/-- The moves of a transaction take away no mark of another one. -/
theorem Move.aborted_mono (hm : Move sealed serves t es s s') (hu : u ≠ t)
    (ha : u ∈ s.locks.aborted) : u ∈ s'.locks.aborted := by
  cases hm with
  | look _ hl => exact hl.aborted_eq.symm ▸ ha
  | refresh hr => exact hr.locks_eq.symm ▸ ha
  | giveBack _ _ hr => exact (LockTable.aborted_release hr).symm ▸ ha
  | append => exact ha
  | refuse => exact ha
  | read => exact ha
  | copy => exact ha
  | insert => exact ha
  | remove => exact ha
  | strike _ hk =>
    rw [aborted_foldl_rollBack]
    exact (hk.mem_aborted u).2 (Or.inl ha)
  | commit => exact mem_aborted_commit.2 ha
  | abort =>
    rw [locks_abort]
    exact LockTable.mem_aborted_complete.2 ⟨hu, ha⟩

theorem Moves.aborted_mono (hm : Moves sealed serves t es s s') (hu : u ≠ t)
    (ha : u ∈ s.locks.aborted) : u ∈ s'.locks.aborted := by
  induction hm with
  | done => exact ha
  | more hm _ ih => exact ih (hm.aborted_mono hu ha)

theorem Move.struck_aborted (hm : Move sealed serves t es s s') {us : List TxnId}
    (hs : .struck t us ∈ es) (hu : u ∈ us) : u ∈ s'.locks.aborted := by
  cases hm with
  | strike ht hk =>
    cases List.mem_singleton.1 hs
    rw [aborted_foldl_rollBack]
    exact (hk.mem_aborted u).2 (Or.inr (ht ▸ hu))
  | commit =>
    rw [List.mem_singleton, commitEvent] at hs
    split at hs <;> cases hs
  | _ => simp at hs

/-- Moves leave the changes of others alone that are not victims afterwards. -/
theorem Moves.kept_of_active (hm : Moves sealed serves t es s s') (h : s.ChangesLocked) (hu : u ≠ t)
    (ha : u ∉ s'.locks.aborted) (hp : s.cache.pages.get? p = some page)
    (hd : page.dirtier = some u) : s'.cache.pages.get? p = some page := by
  induction hm with
  | done => exact hp
  | more hm hms ih =>
    rcases hm.kept h hu hp hd with hp | ⟨us, hs, hv⟩
    · exact ih (hm.changesLocked h) ha hp
    · exact absurd (hms.aborted_mono hu (hm.struck_aborted hs hv)) ha

/-! ## Calls -/

theorem finish_moves (hg : s.ChangesLocked) {n : Nat} {run : Progress × Store}
    (hm : ∃ es, Moves False serves t es s run.2)
    (hf : ∀ r, Running.of? call run.1 = some r →
      r.call = call ∧ r.pending.Fits serves run.2.locks t call)
    (h : finish n run = some (reply, s')) : ∃ es, Moves False serves t es s s' := by
  obtain ⟨es, hm⟩ := hm
  fun_induction finish n run generalizing es with
  | case1 =>
    cases h
    exact ⟨es, hm⟩
  | case2 => cases h
  | case3 => cases h
  | case4 n p m ih =>
    have hc := carried_ask (hm.changesLocked hg) (hf _ rfl).2 fun h : False => h.elim
    exact ih hc.fits h _ (hm.append (hc.moves (ends_of_finish h)))
  | case5 n p m ih =>
    obtain ⟨hw, hfit, -⟩ := moves_expire (hm.changesLocked hg) (hf _ rfl).2 fun h : False => h.elim
    exact ih hfit h _ (hm.append (hw (ends_of_finish h)))

/-- A call consists of moves. -/
theorem Does.moves (hg : s.ChangesLocked) (hd : Does (.call t call reply) s s') :
    ∃ es, Moves False (fun _ _ => True) t es s s' := by
  cases hd with
  | call hf =>
    have hserved : (Session.Action.begin call).Served (fun _ _ => True) s.catalog :=
      .of_all fun _ _ => trivial
    have hc : Carried False _ t call s (s.start t call) := carried_start s hserved
    exact finish_moves hg ⟨_, hc.moves (ends_of_finish hf)⟩ hc.fits hf

/-- Deeds leave uncommitted changes protected, unless a lock is given back by hand. -/
theorem Does.changesLocked (hd : Does d s s') (hg : s.ChangesLocked) (hr : d.releases = false) :
    s'.ChangesLocked := by
  cases hd with
  | call hf =>
    obtain ⟨es, hm⟩ := Does.moves hg (.call hf)
    exact hm.changesLocked hg
  | commit _ t => exact hg.commit t
  | abort _ t =>
    have hm : Move False (fun _ _ => True) t [.aborted t] s (s.abort t) := .abort s
    exact hm.changesLocked hg
  | release => cases hr
  | flushPage hf => exact hg.flushPage hf
  | flushTxn _ t => exact hg.flushPages _
  | flushAll => exact hg.flushPages _
  | discard _ p => exact (Session.Manual.discard s p).changesLocked hg
  | register _ catalog =>
    exact (Session.Manual.outside s s.disk catalog s.pageSize).changesLocked hg
  | outside _ disk pageSize =>
    exact (Session.Manual.outside s disk s.catalog pageSize).changesLocked hg

theorem After.changesLocked (h₀ : s₀.ChangesLocked) (h : After s₀ ds s)
    (hr : ∀ d ∈ ds, d.releases = false) : s.ChangesLocked := by
  induction h with
  | start => exact h₀
  | @deed ds d s s' _ hd ih =>
    obtain ⟨hinit, hlast⟩ := List.forall_mem_append.1 hr
    exact hd.changesLocked (ih hinit) (hlast d (List.mem_singleton_self d))

/-! ## Own changes

A page with own changes is locked exclusively, so nobody else touches it.  It leaves memory only
when its transaction aborts or is struck, or when it is dropped by hand. -/

/-- The page in memory with changes of `t`. -/
def own? (s : Store) (t : TxnId) (p : PageId) : Option Page :=
  (s.cache.pages.get? p).filter fun page => page.dirtier = some t

theorem own?_eq_some_iff : s.own? t p = some page ↔
    s.cache.pages.get? p = some page ∧ page.dirtier = some t := by
  rw [own?, Option.filter_eq_some_iff, decide_eq_true_eq]

theorem own?_congr (h : ∀ page, page.dirtier = some t →
    (s'.cache.pages.get? p = some page ↔ s.cache.pages.get? p = some page)) :
    s'.own? t p = s.own? t p := by
  refine Option.ext fun page => ?_
  rw [own?_eq_some_iff, own?_eq_some_iff]
  exact and_congr_left (h page)

/-- What a call does on its way changes no page. -/
theorem Change.dirty_of (hc : Change t grows s s') (hquiet : s.NobodyWaits)
    (hd : page.dirtier ≠ none)
    (hp : s'.cache.pages.get? p = some page) : s.cache.pages.get? p = some page := by
  cases hc with
  | refresh hr => exact (hr.dirty_iff hd).1 hp
  | giveBack => exact hp
  | append => exact hp
  | look => exact hp
  | strike _ hl _ => exact ((discarded_strike hquiet hl).origin p page hp).1

/-- It does not take away the own changes of its transaction. -/
theorem Change.own_kept (hc : Change t grows s s') (hquiet : s.NobodyWaits)
    (hd : page.dirtier = some t)
    (hp : s.cache.pages.get? p = some page) : s'.cache.pages.get? p = some page := by
  cases hc with
  | refresh hr => exact hr.kept p page hp (by simp [hd])
  | giveBack => exact hp
  | append => exact hp
  | look => exact hp
  | @strike r us l ht hl _ =>
    refine (discarded_strike hquiet hl).kept p page hp (by simp [hd]) fun u hu he => ?_
    -- whoever asks is not among the victims
    rw [hd] at he
    cases he
    exact ((hl.mem_iff t).1 hu).1 ht.symm

theorem Change.aborted_mono (hc : Change t grows s s') (ha : u ∈ s.locks.aborted) :
    u ∈ s'.locks.aborted := by
  cases hc with
  | refresh hr => exact hr.locks_eq.symm ▸ ha
  | giveBack hr => exact (LockTable.aborted_release hr).symm ▸ ha
  | append => exact ha
  | look _ hl _ => exact hl.aborted_eq.symm ▸ ha
  | strike _ hl _ =>
    rw [aborted_foldl_rollBack]
    exact (hl.mem_aborted u).2 (Or.inl ha)

theorem Changes.dirty_of (hc : Changes t grows s s') (hquiet : s.NobodyWaits)
    (hd : page.dirtier ≠ none)
    (hp : s'.cache.pages.get? p = some page) : s.cache.pages.get? p = some page := by
  induction hc with
  | refl => exact hp
  | tail hm hc ih => exact ih (hc.dirty_of (Changes.nobodyWaits hm hquiet) hd hp)

theorem Changes.own?_eq (hc : Changes t grows s s') (hquiet : s.NobodyWaits) (p : PageId) :
    s'.own? t p = s.own? t p := by
  induction hc with
  | refl => rfl
  | tail hm hc ih =>
    have hquiet := Changes.nobodyWaits hm hquiet
    refine (own?_congr fun page hd => ⟨fun hp => ?_, fun hp => ?_⟩).trans ih
    · exact hc.dirty_of hquiet (by simp [hd]) hp
    · exact hc.own_kept hquiet hd hp

theorem Changes.aborted_mono (hc : Changes t grows s s') (ha : u ∈ s.locks.aborted) :
    u ∈ s'.locks.aborted := by
  induction hc with
  | refl => exact ha
  | tail _ hc ih => exact hc.aborted_mono ih

theorem Ended.aborted_eq (he : Ended t keeps m reply s') :
    s'.locks.aborted = m.locks.aborted := by
  cases he with
  | plain => rfl
  | edit => rfl

/-- The page that is edited at the end of a call is the one in its answer. -/
theorem Ended.own?_eq (he : Ended t call.keeps m reply s') (p : PageId) :
    s'.own? t p = Deed.change t p (m.own? t p) (.call t call reply) := by
  rw [Deed.change]
  cases he with
  | plain hn =>
    by_cases hk : call.keeps = true
    · obtain ⟨e, he⟩ := hn hk
      rw [he, ite_self]
    · rw [if_neg fun h => hk h.2]
  | @edit page copy row hk _ hp _ _ =>
    rw [if_pos ⟨rfl, hk⟩, own?, edited, Cache.get?_put]
    dsimp only
    by_cases hq : p = copy.id
    · rw [if_pos hq, if_pos hq.symm]
      simp
    · rw [if_neg hq, if_neg fun h => hq h.symm]
      rfl

/-- A deed takes away the mark of a transaction only by aborting it. -/
theorem Does.aborted_mono (hd : Does d s s') (hquiet : s.NobodyWaits) (hn : d ≠ .abort t)
    (ha : t ∈ s.locks.aborted) : t ∈ s'.locks.aborted := by
  cases hd with
  | call hf =>
    obtain ⟨m, hm, he⟩ := finish_changes hquiet hf
    exact he.aborted_eq.symm ▸ hm.aborted_mono ha
  | commit _ u => exact mem_aborted_commit.2 ha
  | abort _ u =>
    rw [locks_abort]
    exact LockTable.mem_aborted_complete.2 ⟨fun h => hn (h ▸ rfl), ha⟩
  | release _ u p =>
    rw [releasePage]
    split
    · exact ha
    · rename_i hr
      exact (LockTable.aborted_release hr).symm ▸ ha
  | @flushPage _ _ p hf =>
    rcases flushPage_cases hf with ⟨rfl, -⟩ | ⟨page, file, disk, -, -, -, -, rfl⟩
    · exact ha
    · exact ha
  | flushTxn _ u => exact (locks_flushPages s _).symm ▸ ha
  | flushAll => exact (locks_flushPages s _).symm ▸ ha
  | discard => exact ha
  | register => exact ha
  | outside => exact ha

/-- A commit writes the changes of its transaction, and leaves those of others in memory. -/
theorem own?_commit (hok : (s.commit u).1 = .ok ()) :
    (s.commit u).2.own? t p = if u = t then none else s.own? t p := by
  rcases commit_cases s u with ⟨-, he⟩ | ⟨e, -, -, he⟩ | ⟨-, hr, he⟩
  · rw [he] at hok
    cases hok
  · rw [he] at hok
    cases hok
  · have hback : ∀ page, page.dirtier = some t → (s.commit u).2.cache.pages.get? p = some page →
        p ∉ s.cache.dirtyPages u ∧ s.cache.pages.get? p = some page := fun page hd hp => by
      rw [he] at hp
      rcases dirtier_flushPages hr hp with hc | hback
      · rw [hc] at hd
        cases hd
      · exact hback
    split
    · rename_i hu
      refine Option.eq_none_iff_forall_ne_some.2 fun page hp => ?_
      obtain ⟨hp, hd⟩ := own?_eq_some_iff.1 hp
      obtain ⟨hn, hp⟩ := hback page hd hp
      exact hn (Cache.mem_dirtyPages.2 ⟨page, hp, hu ▸ hd⟩)
    · rename_i hu
      refine own?_congr fun page hd => ⟨fun hp => (hback page hd hp).2, fun hp => ?_⟩
      refine get?_commit hp fun he => hu ?_
      exact Option.some.inj (he.symm.trans hd)

/-- An abort drops the changes of its transaction, and no others. -/
theorem own?_abort (hquiet : s.NobodyWaits) (u t : TxnId) (p : PageId) :
    (s.abort u).own? t p = if u = t then none else s.own? t p := by
  have hd := discarded_abort hquiet.locks.consistent hquiet.sound u
  split
  · rename_i hu
    refine Option.eq_none_iff_forall_ne_some.2 fun page hp => ?_
    obtain ⟨hp, hx⟩ := own?_eq_some_iff.1 hp
    exact (hd.origin p page hp).2 u (List.mem_singleton_self u) (hu ▸ hx)
  · rename_i hu
    refine own?_congr fun page hx => ⟨fun hp => (hd.origin p page hp).1, fun hp => ?_⟩
    refine hd.kept p page hp (by simp [hx]) (List.forall_mem_singleton.2 fun he => hu ?_)
    exact Option.some.inj (he.symm.trans hx)

/-- **A deed does to the changes of a transaction what its answer tells**, if pages are not written
and locks are not given back by hand, and if the transaction is no victim. -/
theorem Does.own?_eq (hd : Does d s s') (hg : s.ChangesLocked) (hquiet : s.NobodyWaits)
    (hi : s.catalog.Indexed) (hh : s.Homed) (hflush : d.flushes = false)
    (ha : t ∉ s'.locks.aborted) (p : PageId) :
    s'.own? t p = Deed.change t p (s.own? t p) d := by
  cases hd with
  | @call _ _ u call reply n hf =>
    obtain ⟨m, hm, he⟩ := finish_changes hquiet hf
    by_cases hu : u = t
    · subst hu
      rw [he.own?_eq, hm.own?_eq hquiet]
    · obtain ⟨es, hmoves⟩ := Does.moves hg (.call hf)
      rw [Deed.change, if_neg fun h => hu h.1]
      refine own?_congr fun page hx => ⟨fun hp => hm.dirty_of hquiet (by simp [hx]) ?_, ?_⟩
      · cases he with
        | plain => exact hp
        | edit =>
          rw [edited, Cache.get?_put] at hp
          split at hp
          · cases hp
            exact absurd (Option.some.inj hx) hu
          · exact hp
      · exact fun hp => hmoves.kept_of_active hg (Ne.symm hu) ha hp hx
  | commit _ u =>
    cases hr : (s.commit u).1 with
    | error e =>
      rw [(hh.commit_refused hi hquiet hr).2]
      rfl
    | ok => exact own?_commit hr
  | abort _ u => exact own?_abort hquiet u t p
  | release _ u q =>
    rw [releasePage]
    split
    · rfl
    · rfl
  | flushPage => cases hflush
  | flushTxn => cases hflush
  | flushAll => cases hflush
  | discard _ q =>
    rw [own?, Store.discard, Cache.get?_drop, Deed.change]
    by_cases hq : p = q
    · rw [if_pos hq, if_pos hq.symm]
      rfl
    · rw [if_neg hq, if_neg fun h => hq h.symm]
      rfl
  | register => rfl
  | outside => rfl

/-- **The pages in memory with changes of a transaction are those that the answers tell**, unless it
has become a victim. -/
theorem After.own?_eq (h₀ : s₀.Fresh) (hi : s₀.catalog.Indexed) (h : After s₀ ds s)
    (hfixed : ∀ d ∈ ds, d.registers = false ∧ d.foreign = false)
    (hhand : ∀ d ∈ ds, d.flushes = false ∧ d.releases = false) (ha : t ∉ s.locks.aborted)
    (p : PageId) : s.own? t p = Deed.changed t p ds := by
  induction h with
  | start =>
    rw [own?, h₀.cache_eq]
    rfl
  | @deed ds d s s' h hd ih =>
    have hinit := (List.forall_mem_append.1 hfixed).1
    obtain ⟨hhand, hlast⟩ := List.forall_mem_append.1 hhand
    have hflush := (hlast d (List.mem_singleton_self d)).1
    have hquiet := h.nobodyWaits h₀.nobodyWaits
    have ho := h.onward h₀.nobodyWaits h₀.homed.made hinit
    have hg := h.changesLocked h₀.changesLocked fun d hm => (hhand d hm).2
    rw [hd.own?_eq hg hquiet (ho.catalog_eq ▸ hi) (ho.homed h₀.homed) hflush ha, Deed.changed,
      List.foldl_append]
    by_cases habort : d = .abort t
    · simp [habort, Deed.change]
    · rw [ih hinit hhand fun hx => ha (hd.aborted_mono hquiet habort hx)]
      rfl

end Store
end TableStore

import TableStore.Proofs.Pool.Deed
import TableStore.Proofs.Pool.Place

/-!
# What deeds leave alone

A call does not write to any page that is in a file already; it may add pages of zeros to the file
that it inserts into.  Only a commit writes pages, and only those that its transaction has changed.
The pages in memory are always made for the tables that they belong to.

## What is here

* `Store.Onward` — what becomes of the files and of the pages in memory while the tables stay the
  same.  `Store.Does.onward` and `Store.After.onward` say it of one deed and of any number of them.
* `Store.Homed`, `Store.Shaped` — the pages in memory are pages of their tables, or at least made
  for tables as they may be.  `Store.After.shaped` covers tables that are replaced.
* `Catalog.LaidOut`, `Store.Contained` — where the files of the tables are, and the places of the
  pages in memory there.  `Store.After.contained` covers tables that are replaced, too.
* `Store.Reached.content` — the files while a call goes on; `Store.Does.content_call` — after it.
* `Store.Forced`, `Store.commit_forced` — what a commit writes.
* `Store.Does.pageAt_eq`, `Store.After.pageAt_eq` — nothing else writes.
-/

set_option autoImplicit false
namespace TableStore

/-- Every table is found under its identity, and its file is at the path that `path` says. -/
structure Catalog.LaidOut (path : TableId → Path) (c : Catalog) : Prop where
  indexed : c.Indexed
  path_eq : ∀ table file, c.file table = .ok file → file.path = path table

/-- A single catalog says itself where its files are. -/
theorem Catalog.Indexed.laidOut {c : Catalog} (h : c.Indexed) : ∃ path, c.LaidOut path := by
  refine ⟨fun table => match c.file table with
    | .ok file => file.path
    | .error _ => ⟨[]⟩, h, fun table file hf => ?_⟩
  rw [hf]

namespace Store

variable {t : TxnId} {grows : TableFile → Prop} {keeps : Bool} {s₀ s m s' : Store} {reply : Reply}
  {d : Deed} {ds : List Deed} {p : PageId}

/-! ## Pages in memory

A page in memory has been made for a schema and a page size.  These are properties that nothing
takes away from it, while the catalog may change under it, so they are stated apart from the table
that has it now. -/

/-- Every page in memory is made for the page size and for a schema that its table may have. -/
def Shaped (may : TableId → Schema → Prop) (s : Store) : Prop :=
  ∀ p page, s.cache.pages.get? p = some page →
    ∃ schema, may p.table schema ∧ page.Formed s.pageSize schema

/-- The registered tables have schemas that they may have. -/
def Within (may : TableId → Schema → Prop) (c : Catalog) : Prop :=
  ∀ table file, c.file table = .ok file → may table file.schema

/-- Every page in memory is made for the page size. -/
def Made (s : Store) : Prop :=
  ∀ p page, s.cache.pages.get? p = some page → ∃ schema, page.Formed s.pageSize schema

/-- Every page in memory is one of the pages of its table, and made for it. -/
def Homed (s : Store) : Prop :=
  ∀ p page, s.cache.pages.get? p = some page → ∃ file, s.Home p page file

/-- Every page in memory has a place in the file at the path of its table, registered or not. -/
def Contained (path : TableId → Path) (s : Store) : Prop :=
  ∀ p page, s.cache.pages.get? p = some page →
    p.number < (s.disk.content (path p.table)).length / s.pageSize.bytes

/-- The store `s'` comes after `s`, with the same tables.  The files have been written to, and the
pages in memory have been read, edited and dropped. -/
structure Onward (s s' : Store) : Prop where
  catalog_eq : s'.catalog = s.catalog
  pageSize_eq : s'.pageSize = s.pageSize
  disk : s.disk.Extended s'.disk
  pageCount_le : ∀ file, s.pageCount file ≤ s'.pageCount file
  /-- A page was in memory before, and has at most been edited, or it is as its table has it. -/
  origin : ∀ p page', s'.cache.pages.get? p = some page' →
    (∃ page, s.cache.pages.get? p = some page ∧
      ∀ size schema, page.Formed size schema → page'.Formed size schema) ∨
    ∃ file, s'.Home p page' file

namespace Onward

variable {may : TableId → Schema → Prop} {page page' : Page}

theorem home (h : Onward s s') {file : TableFile} (hh : s.Home p page file)
    (hf : ∀ size schema, page.Formed size schema → page'.Formed size schema) :
    s'.Home p page' file where
  file_eq := h.catalog_eq ▸ hh.file_eq
  lt := Nat.lt_of_lt_of_le hh.lt (h.pageCount_le file)
  formed := h.pageSize_eq ▸ hf _ _ hh.formed

theorem refl (s : Store) : Onward s s :=
  ⟨rfl, rfl, .refl _, fun _ => Nat.le_refl _,
    fun _ page' hp => Or.inl ⟨page', hp, fun _ _ hf => hf⟩⟩

theorem trans (h : Onward s m) (h' : Onward m s') : Onward s s' where
  catalog_eq := h'.catalog_eq.trans h.catalog_eq
  pageSize_eq := h'.pageSize_eq.trans h.pageSize_eq
  disk := h.disk.trans h'.disk
  pageCount_le file := Nat.le_trans (h.pageCount_le file) (h'.pageCount_le file)
  origin p page' hp := by
    rcases h'.origin p page' hp with ⟨page, hp, hf⟩ | hh
    · rcases h.origin p page hp with ⟨page₀, hp, hf₀⟩ | ⟨file, hh⟩
      · exact Or.inl ⟨page₀, hp, fun _ _ hx => hf _ _ (hf₀ _ _ hx)⟩
      · exact Or.inr ⟨file, h'.home hh hf⟩
    · exact Or.inr hh

theorem homed (h : Onward s s') (hs : s.Homed) : s'.Homed := fun p page' hp => by
  rcases h.origin p page' hp with ⟨page, hp, hf⟩ | hh
  · exact (hs p page hp).imp fun file hh => h.home hh hf
  · exact hh

theorem made (h : Onward s s') (hs : s.Made) : s'.Made := fun p page' hp => by
  rcases h.origin p page' hp with ⟨page, hp, hf⟩ | ⟨file, hh⟩
  · exact (hs p page hp).imp fun schema hx => h.pageSize_eq ▸ hf _ _ hx
  · exact ⟨file.schema, hh.formed⟩

theorem shaped (h : Onward s s') (hw : Within may s.catalog) (hs : Shaped may s) :
    Shaped may s' := fun p page' hp => by
  rcases h.origin p page' hp with ⟨page, hp, hf⟩ | ⟨file, hh⟩
  · obtain ⟨schema, hm, hx⟩ := hs p page hp
    exact ⟨schema, hm, h.pageSize_eq ▸ hf _ _ hx⟩
  · exact ⟨file.schema, hw _ _ (h.catalog_eq ▸ hh.file_eq), hh.formed⟩

theorem contained {path : TableId → Path} (h : Onward s s') (hl : s.catalog.LaidOut path)
    (hs : s.Contained path) : s'.Contained path := by
  intro p page hp
  rcases h.origin p page hp with ⟨page', hp', -⟩ | ⟨file, hh⟩
  · have hle := Nat.div_le_div_right (c := s.pageSize.bytes) (h.disk.length_le (path p.table))
    rw [h.pageSize_eq]
    exact Nat.lt_of_lt_of_le (hs p page' hp') hle
  · have hlt := Nat.lt_of_lt_of_le hh.lt (file.pageCount_le_wholePages _ _)
    rw [TableFile.wholePages, hl.path_eq _ _ (h.catalog_eq ▸ hh.file_eq)] at hlt
    exact hlt

/-- Pages may come from their files and be dropped. -/
theorem of_sameFiles (h : SameFiles s s') (ho : ∀ q page, s'.cache.pages.get? q = some page →
    s.cache.pages.get? q = some page ∨ s.readPage q = .ok page) : Onward s s' where
  catalog_eq := h.catalog_eq
  pageSize_eq := h.pageSize_eq
  disk := h.disk_eq ▸ .refl _
  pageCount_le file := Nat.le_of_eq (h.pageCount_eq file).symm
  origin p page' hp := by
    refine (ho p page' hp).imp (fun hp => ⟨page', hp, fun _ _ hf => hf⟩) fun hr => ?_
    obtain ⟨file, hh, -⟩ := readPage_home hr
    exact ⟨file, h.home hh⟩

/-- Only locks and counts may differ. -/
theorem of_cache (h : SameFiles s s') (hc : s'.cache = s.cache) : Onward s s' :=
  of_sameFiles h fun _ _ hp => Or.inl (hc ▸ hp)

end Onward

theorem Made.sized (h : s.Made) : s.Sized :=
  fun p page hp => (h p page hp).elim fun _ hf => hf.size_eq

theorem Shaped.made {may : TableId → Schema → Prop} (h : Shaped may s) : s.Made :=
  fun p page hp => (h p page hp).imp fun _ hf => hf.2

theorem Homed.made (h : s.Homed) : s.Made :=
  fun p page hp => (h p page hp).elim fun file hh => ⟨file.schema, hh.formed⟩

/-- The page after the last one of a file is not in memory. -/
theorem Contained.absent {path : TableId → Path} {file : TableFile} (h : s.Contained path)
    (hl : s.catalog.LaidOut path) (hf : s.catalog.file file.id = .ok file)
    (hroom : file.HasRoom s.disk s.pageSize) :
    s.cache.pages.get? (file.page (s.pageCount file)) = none := by
  refine Option.eq_none_iff_forall_ne_some.2 fun page hp => ?_
  have hlt := h _ page hp
  rw [TableFile.page, ← hl.path_eq _ _ hf, pageCount, hroom.pageCount_eq] at hlt
  exact Nat.lt_irrefl _ hlt

theorem Fresh.homed (h : s.Fresh) : s.Homed := fun p page hp => by
  rw [h.cache_eq] at hp
  cases hp

/-! ### Deeds lead onward -/

theorem Change.onward (hc : Change t grows s s') (hquiet : s.NobodyWaits) : Onward s s' := by
  cases hc with
  | refresh hr =>
    exact .of_sameFiles hr.sameFiles fun q page hq => (hr.origin q page hq).imp_right fun h => h.2.2
  | giveBack => exact .of_cache ⟨rfl, rfl, rfl⟩ rfl
  | append _ hroom =>
    refine ⟨rfl, rfl, Disk.extended_writeAt _ _ _ _, TableFile.pageCount_le_appendPage hroom,
      fun _ page hp => ?_⟩
    exact Or.inl ⟨page, hp, fun _ _ h => h⟩
  | look => exact .of_cache ⟨rfl, rfl, rfl⟩ rfl
  | strike _ hl _ =>
    have hd := discarded_strike hquiet hl
    have hs := hd.sameFiles
    exact .of_sameFiles ⟨hs.disk_eq, hs.catalog_eq, hs.pageSize_eq⟩ fun q page hq =>
      Or.inl (hd.origin q page hq).1

theorem Changes.onward (hc : Changes t grows s s') (hquiet : s.NobodyWaits) : Onward s s' := by
  induction hc with
  | refl => exact .refl s
  | tail hm hc ih => exact ih.trans (hc.onward (Changes.nobodyWaits hm hquiet))

theorem Ended.onward (he : Ended t keeps m reply s') : Onward m s' := by
  cases he with
  | plain => exact .refl m
  | edit _ _ hp hf _ =>
    refine ⟨rfl, rfl, .refl _, fun _ => Nat.le_refl _, fun q page' hq => Or.inl ?_⟩
    rw [edited, Cache.get?_put] at hq
    split at hq
    · rename_i hid
      cases hq
      exact ⟨_, hid ▸ hp, fun size schema h => (hf size schema h).marked _ _⟩
    · exact ⟨page', hq, fun _ _ h => h⟩

theorem onward_flushPage (hmade : s.Made) (hf : s.flushPage p = .ok s') : Onward s s' := by
  rcases flushPage_cases hf with ⟨rfl, -⟩ | ⟨page, file, disk, hp, -, -, hw, rfl⟩
  · exact .refl s'
  · have hb := (Page.length_encode page).trans (hmade.sized p page hp)
    rw [TableFile.writePage] at hw
    split at hw
    · rename_i hhas
      have hlen := TableFile.length_writeAt hb (Nat.lt_of_lt_of_le (TableFile.hasPage_iff.1 hhas).2
        (file.pageCount_le_wholePages _ _))
      cases hw
      refine ⟨rfl, rfl, Disk.extended_writeAt _ _ _ _,
        fun g => Nat.le_of_eq (pageCount_of_length hlen g).symm, fun q page' hq => Or.inl ?_⟩
      rw [settled, Assoc.get?_insert] at hq
      split at hq
      · rename_i hqp
        cases hq
        exact ⟨page, hqp ▸ hp, fun _ _ h => h.marked _ _⟩
      · exact ⟨page', hq, fun _ _ h => h⟩
    · cases hw

theorem onward_flushPages (hmade : s.Made) (ps : List PageId) : Onward s (s.flushPages ps).2 :=
  flushPages_induction (P := fun m => Onward s m)
    (fun _ _ _ hm hf => hm.trans (onward_flushPage (hm.made hmade) hf)) ps (.refl s)

theorem onward_commit (hmade : s.Made) (t : TxnId) : Onward s (s.commit t).2 := by
  have hf := onward_flushPages hmade (s.cache.dirtyPages t)
  rcases commit_cases s t with ⟨-, he⟩ | ⟨e, -, -, he⟩ | ⟨-, -, he⟩
  · rw [he]
    exact .refl s
  · rw [he]
    exact hf
  · rw [he]
    exact hf.trans (.of_cache ⟨rfl, rfl, rfl⟩ rfl)

theorem Does.onward (hd : Does d s s') (hquiet : s.NobodyWaits) (hmade : s.Made)
    (hr : d.registers = false) (hforeign : d.foreign = false) : Onward s s' := by
  cases hd with
  | call hf =>
    obtain ⟨m, hm, he⟩ := finish_changes hquiet hf
    exact (hm.onward hquiet).trans he.onward
  | commit _ t => exact onward_commit hmade t
  | abort _ t =>
    have hd := discarded_abort hquiet.locks.consistent hquiet.sound t
    exact .of_sameFiles hd.sameFiles fun q page hq => Or.inl (hd.origin q page hq).1
  | release _ t p =>
    rw [releasePage]
    split
    · exact .refl s
    · exact .of_cache ⟨rfl, rfl, rfl⟩ rfl
  | flushPage hf => exact onward_flushPage hmade hf
  | flushTxn _ t => exact onward_flushPages hmade _
  | flushAll => exact onward_flushPages hmade _
  | discard _ p =>
    refine .of_sameFiles ⟨rfl, rfl, rfl⟩ fun q page hq => Or.inl ?_
    rw [Store.discard, Cache.get?_drop] at hq
    split at hq
    · cases hq
    · exact hq
  | register => cases hr
  | outside => cases hforeign

/-- What goes on to hold when a store leads onward, and is no matter of the tables, always holds
while the tables that are registered are `good`. -/
theorem After.onward_induction {good : Catalog → Prop} {P : Store → Prop} (h₀ : s₀.Fresh)
    (h : After s₀ ds s) (hforeign : ∀ d ∈ ds, d.foreign = false) (hgood₀ : good s₀.catalog)
    (hgood : ∀ catalog, .register catalog ∈ ds → good catalog) (hstart : P s₀)
    (honward : ∀ s s', good s.catalog → Onward s s' → P s → P s')
    (hregister : ∀ s catalog, P s → P { s with catalog }) :
    s.Made ∧ good s.catalog ∧ P s := by
  induction h with
  | start => exact ⟨h₀.homed.made, hgood₀, hstart⟩
  | @deed ds d s s' h hd ih =>
    obtain ⟨hinit, hlast⟩ := List.forall_mem_append.1 hforeign
    obtain ⟨hmade, hg, hs⟩ := ih hinit fun catalog hm => hgood catalog (List.mem_append_left _ hm)
    cases hr : d.registers with
    | true =>
      cases hd with
      | register _ catalog => exact ⟨hmade, hgood catalog (by simp), hregister s catalog hs⟩
      | _ => cases hr
    | false =>
      have ho := hd.onward (h.nobodyWaits h₀.nobodyWaits) hmade hr
        (hlast d (List.mem_singleton_self d))
      exact ⟨ho.made hmade, ho.catalog_eq ▸ hg, honward s s' hg ho hs⟩

/-- Between any deeds, the registered tables and the pages in memory are as tables may be. -/
theorem After.shaped {may : TableId → Schema → Prop} {good : Catalog → Prop} (h₀ : s₀.Fresh)
    (h : After s₀ ds s) (hforeign : ∀ d ∈ ds, d.foreign = false) (hgood₀ : good s₀.catalog)
    (hgood : ∀ catalog, .register catalog ∈ ds → good catalog)
    (hwithin : ∀ catalog, good catalog → Within may catalog) :
    good s.catalog ∧ Shaped may s := by
  refine (h.onward_induction h₀ hforeign hgood₀ hgood (fun p page hp => ?_)
    (fun s s' hg ho hs => ho.shaped (hwithin _ hg) hs) fun s catalog hs => hs).2
  rw [h₀.cache_eq] at hp
  cases hp

/-- While nobody else writes to the files, and the tables that are registered lie at the same paths,
pages in memory have their places there. -/
theorem After.contained {path : TableId → Path} (h₀ : s₀.Fresh) (hl₀ : s₀.catalog.LaidOut path)
    (h : After s₀ ds s) (hforeign : ∀ d ∈ ds, d.foreign = false)
    (hl : ∀ catalog, .register catalog ∈ ds → catalog.LaidOut path) :
    s.catalog.LaidOut path ∧ s.Contained path := by
  refine (h.onward_induction h₀ hforeign hl₀ hl (fun p page hp => ?_)
    (fun s s' hl ho hs => ho.contained hl hs) fun s catalog hs => hs).2
  rw [h₀.cache_eq] at hp
  cases hp

/-- While the tables stay the same, deeds lead onward. -/
theorem After.onward (h₀ : s₀.NobodyWaits) (hmade : s₀.Made) (h : After s₀ ds s)
    (hfixed : ∀ d ∈ ds, d.registers = false ∧ d.foreign = false) : Onward s₀ s := by
  induction h with
  | start => exact .refl s₀
  | @deed ds d s s' h hd ih =>
    obtain ⟨hinit, hlast⟩ := List.forall_mem_append.1 hfixed
    obtain ⟨hr, hforeign⟩ := hlast d (List.mem_singleton_self d)
    have ho := ih hinit
    exact ho.trans (hd.onward (h.nobodyWaits h₀) (ho.made hmade) hr hforeign)

/-! ## Files

Calls add pages of zeros to files and write nothing else, so every whole page keeps its bytes. -/

/-- A change leaves the files alone, or adds one page to one of them. -/
theorem Change.disk (hc : Change t grows s s') (hquiet : s.NobodyWaits) :
    s'.disk = s.disk ∨ ∃ file, grows file ∧ file.HasRoom s.disk s.pageSize ∧
      s'.disk = (file.appendPage s.disk s.pageSize).2 := by
  cases hc with
  | refresh hr => exact Or.inl hr.disk_eq
  | giveBack => exact Or.inl rfl
  | append hg hroom => exact Or.inr ⟨_, hg, hroom, rfl⟩
  | look => exact Or.inl rfl
  | strike _ hl _ => exact Or.inl (discarded_strike hquiet hl).sameFiles.disk_eq

/-- Several changes add pages to some files, and leave the others alone. -/
theorem Changes.content (hc : Changes t grows s s') (hquiet : s.NobodyWaits) (q : Path) :
    s'.disk.content q = s.disk.content q ∨
      ∃ file, grows file ∧ file.path = q ∧ Disk.Grown s.pageSize q s.disk s'.disk := by
  induction hc with
  | refl => exact Or.inl rfl
  | @tail m s' hm hc ih =>
    rcases hc.disk (Changes.nobodyWaits hm hquiet) with hd | ⟨file, hg, hroom, hd⟩
    · rw [hd]
      exact ih
    · rw [(Changes.onward hm hquiet).pageSize_eq] at hroom hd
      rw [hd]
      by_cases hq : q = file.path
      · subst hq
        refine Or.inr ⟨file, hg, rfl, ?_⟩
        rcases ih with hsame | ⟨-, -, -, hgrown⟩
        · obtain ⟨j, hj⟩ := Disk.grown_appendPage hroom
          exact ⟨j, by rw [hj, hsame]⟩
        · exact hgrown.append hroom
      · rw [Disk.content_appendPage_of_ne hq]
        rcases ih with hsame | ⟨g, hg', hp, j, hj⟩
        · exact Or.inl hsame
        · exact Or.inr ⟨g, hg', hp, j, by rw [Disk.content_appendPage_of_ne hq, hj]⟩

theorem Ended.disk_eq (he : Ended t keeps m reply s') : s'.disk = m.disk := by
  cases he with
  | plain => rfl
  | edit => rfl

/-- As long as files have room, what a call does comes to an end. -/
theorem Reached.ends {run : Progress × Store} (hr : Reached t grows keeps s run)
    (hroom : ∀ file, grows file → file.HasRoom run.2.disk run.2.pageSize) : run.1.ends = true := by
  obtain ⟨progress, m⟩ := run
  cases progress with
  | endless =>
    obtain ⟨file, hg, hfull⟩ := hr
    exact absurd (Nat.lt_of_succ_lt (hroom file hg)) (Nat.not_lt.2 hfull)
  | _ => rfl

/-- **A call adds pages of zeros to the file that it inserts into, and touches no other byte.** -/
theorem Reached.content {run : Progress × Store} (h : s.NobodyWaits)
    (hr : Reached t grows keeps s run)
    (he : run.1.ends = true) (q : Path) : run.2.disk.content q = s.disk.content q ∨
      ∃ file, grows file ∧ file.path = q ∧ Disk.Grown s.pageSize q s.disk run.2.disk := by
  obtain ⟨progress, m⟩ := run
  cases progress with
  | done reply =>
    obtain ⟨m', hm, hended⟩ := hr
    rw [hended.disk_eq]
    exact hm.content h q
  | asking p => exact hr.1.content h q
  | waiting p =>
    obtain ⟨m', hm, -, -, -, -, rfl⟩ := hr
    exact hm.content h q
  | endless => cases he

theorem Does.content_call (h : s.NobodyWaits) {call : Call} (hd : Does (.call t call reply) s s')
    (q : Path) : s'.disk.content q = s.disk.content q ∨
      ∃ file, call.Grows s.catalog file ∧ file.path = q ∧
        Disk.Grown s.pageSize q s.disk s'.disk := by
  cases hd with
  | call hf =>
    have hr : Reached t (call.Grows s.catalog) call.keeps s (.done reply, s') := finish_changes h hf
    exact hr.content h rfl q

/-! ## What a commit writes

A commit that succeeds has written the pages that its transaction had changed, each to its own
place.  Of all other bytes it can be said that they are the same. -/

theorem nodup_dirtyPages (c : Cache) (t : TxnId) : (c.dirtyPages t).Nodup := by
  rw [Cache.dirtyPages, Assoc.keysWhere]
  exact (List.Sublist.map _ List.filter_sublist).nodup c.pages.nodup

/-- A commit of `t` has written just the pages that `t` had changed, each to its place, and has left
`t` with no changes and no locks. -/
structure Forced (s : Store) (t : TxnId) : Prop where
  wrote : s.Wrote (s.cache.dirtyPages t) (s.commit t).2.disk
  clean : (s.commit t).2.cache.dirtyPages t = []
  unlocked : ∀ p, (s.commit t).2.holds t p = false

/-- **A commit that succeeds writes what its transaction has changed, and nothing else.** -/
theorem commit_forced (hi : s.catalog.Indexed) (hquiet : s.NobodyWaits) (hz : s.Sized)
    (hok : (s.commit t).1 = .ok ()) : s.Forced t := by
  rcases commit_cases s t with ⟨-, he⟩ | ⟨e, -, -, he⟩ | ⟨-, hr, he⟩
  · rw [he] at hok
    cases hok
  · rw [he] at hok
    cases hok
  · obtain ⟨written, rest, hsplit, hw, hend⟩ :=
      flushPages_wrote hi hquiet.sound hz (nodup_dirtyPages s.cache t)
    obtain rfl : rest = [] := by
      rcases hend with ⟨hnil, -⟩ | ⟨p, tail, e, -, -, herr⟩
      · exact hnil
      · rw [hr] at herr
        cases herr
    rw [List.append_nil] at hsplit
    refine ⟨?_, List.eq_nil_iff_forall_not_mem.2 fun p hp => ?_, fun p => ?_⟩
    · rw [he]
      exact hsplit ▸ hw
    · rw [he] at hp
      obtain ⟨page, hpage, hd⟩ := Cache.mem_dirtyPages.1 hp
      rcases dirtier_flushPages hr hpage with hc | ⟨hn, hp'⟩
      · rw [hc] at hd
        cases hd
      · exact hn (Cache.mem_dirtyPages.2 ⟨page, hp', hd⟩)
    · rw [he, holds, LockTable.holds, LockTable.heldMode?_complete, if_pos rfl]
      rfl

/-- Pages in memory can be written while their tables stay the same. -/
theorem Homed.flushPage_ne_error (hi : s.catalog.Indexed) (hquiet : s.NobodyWaits) (h : s.Homed)
    (e : Error) : s.flushPage p ≠ .error e := fun he => by
  obtain ⟨page, hp, -, hun⟩ := flushPage_eq_error_iff.1 he
  obtain ⟨file, hh⟩ := h p page hp
  rw [Unwritable, hquiet.sound.keyed p page hp, hh.file_eq] at hun
  rcases hun with he | ⟨file', hf, hn, -⟩
  · cases he
  · cases hf
    exact hn (TableFile.hasPage_iff.2 ⟨(hi _ _ hh.file_eq).symm, hh.lt⟩)

/-- A commit is refused to victims only, and does nothing then. -/
theorem Homed.commit_refused (hi : s.catalog.Indexed) (hquiet : s.NobodyWaits) (h : s.Homed)
    {e : Error} (he : (s.commit t).1 = .error e) : t ∈ s.locks.aborted ∧ (s.commit t).2 = s := by
  rcases commit_cases s t with ⟨ha, hc⟩ | ⟨e', -, hr, -⟩ | ⟨-, -, hc⟩
  · exact ⟨ha, by rw [hc]⟩
  · obtain ⟨written, rest, -, -, ⟨-, hok⟩ | ⟨p, tail, e, -, hp, -⟩⟩ :=
      flushPages_wrote hi hquiet.sound h.made.sized (nodup_dirtyPages s.cache t)
    · rw [hr] at hok
      cases hok
    · exact absurd hp (h.flushPage_ne_error hi hquiet e)
  · rw [hc] at he
    cases he

/-! ## What deeds write -/

/-- **Whole pages of files change in commits only**, if they are not written by hand: such a page is
one that the transaction had changed. -/
theorem Does.pageAt_eq (hd : Does d s s') (hi : s.catalog.Indexed) (hquiet : s.NobodyWaits)
    (h : s.Homed) (hflush : d.flushes = false) (hforeign : d.foreign = false) {q : Path} {n : Nat}
    (hn : n < (s.disk.content q).length / s.pageSize.bytes) :
    s'.disk.pageAt s.pageSize q n = s.disk.pageAt s.pageSize q n ∨
      ∃ u, d = .commit u (.ok ()) ∧ ∃ p ∈ s.cache.dirtyPages u, s.place? p = some (q, n) := by
  cases hd with
  | call hf =>
    left
    rcases Does.content_call hquiet (.call hf) q with hsame | ⟨file, -, -, hgrown⟩
    · exact Disk.pageAt_congr hsame n
    · exact hgrown.pageAt_eq hn
  | commit _ u =>
    cases hr : (s.commit u).1 with
    | error e => exact Or.inl (by rw [(h.commit_refused hi hquiet hr).2])
    | ok =>
      by_cases hp : ∃ p ∈ s.cache.dirtyPages u, s.place? p = some (q, n)
      · exact Or.inr ⟨u, rfl, hp⟩
      · refine Or.inl ((commit_forced hi hquiet h.made.sized hr).wrote.other q n fun p hm he => ?_)
        exact hp ⟨p, hm, he⟩
  | abort _ u =>
    exact Or.inl (by
      rw [(discarded_abort hquiet.locks.consistent hquiet.sound u).sameFiles.disk_eq])
  | release _ u p =>
    left
    rw [releasePage]
    split
    · rfl
    · rfl
  | flushPage => cases hflush
  | flushTxn => cases hflush
  | flushAll => cases hflush
  | discard => exact Or.inl rfl
  | register => exact Or.inl rfl
  | outside => cases hforeign

/-- **A page of a file that has changed since has been written by a commit.** -/
theorem After.pageAt_eq (hi : s₀.catalog.Indexed) (hquiet : s₀.NobodyWaits) (h₀ : s₀.Homed)
    (h : After s₀ ds s) (hfixed : ∀ d ∈ ds, d.registers = false ∧ d.foreign = false)
    (hflush : ∀ d ∈ ds, d.flushes = false) {q : Path} {n : Nat}
    (hn : n < (s₀.disk.content q).length / s₀.pageSize.bytes) :
    s.disk.pageAt s₀.pageSize q n = s₀.disk.pageAt s₀.pageSize q n ∨
      ∃ ds₁ u ds₂ m, ds = ds₁ ++ .commit u (.ok ()) :: ds₂ ∧ After s₀ ds₁ m ∧
        ∃ p ∈ m.cache.dirtyPages u, m.place? p = some (q, n) := by
  induction h with
  | start => exact Or.inl rfl
  | @deed ds d s s' h hd ih =>
    obtain ⟨hinit, hlast⟩ := List.forall_mem_append.1 hfixed
    obtain ⟨hflush, hlast'⟩ := List.forall_mem_append.1 hflush
    have hd' := List.mem_singleton_self d
    have ho := h.onward hquiet h₀.made hinit
    have hs : n < (s.disk.content q).length / s.pageSize.bytes :=
      Nat.lt_of_lt_of_le hn (ho.pageSize_eq ▸ Nat.div_le_div_right (ho.disk.length_le q))
    rcases hd.pageAt_eq (ho.catalog_eq ▸ hi) (h.nobodyWaits hquiet) (ho.homed h₀) (hlast' d hd')
      (hlast d hd').2 hs with hsame | ⟨u, rfl, hp⟩
    · rw [ho.pageSize_eq] at hsame
      refine (ih hinit hflush).imp hsame.trans ?_
      rintro ⟨ds₁, u, ds₂, m, rfl, hm⟩
      exact ⟨ds₁, u, ds₂ ++ [d], m, by simp, hm⟩
    · exact Or.inr ⟨ds, u, [], s, rfl, h, hp⟩

end Store
end TableStore

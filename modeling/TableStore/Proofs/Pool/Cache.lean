import TableStore.Pool.Complete
import TableStore.Proofs.Recency

/-!
# The pages in memory

## What is here

* `Cache.get?_put`, `Cache.get?_drop`, `Cache.get?_dropAll` — which pages are in memory.
* `Cache.Sound` — every page is kept under its own name, and only clean pages may be evicted.
* `Cache.Sound.evict?` — so an eviction drops one clean page and nothing else.
-/

set_option autoImplicit false
namespace TableStore

/-! ## Pages in memory -/

namespace Cache

variable {c : Cache}

theorem get?_put (c : Cache) (page : Page) (clean : Bool) (q : PageId) :
    (c.put page clean).pages.get? q = if q = page.id then some page else c.pages.get? q :=
  Assoc.get?_insert _ _ _ _

theorem get?_drop (c : Cache) (p q : PageId) :
    (c.drop p).pages.get? q = if q = p then none else c.pages.get? q :=
  Assoc.get?_erase _ _ _

theorem get?_dropAll (c : Cache) (ps : List PageId) (q : PageId) :
    (c.dropAll ps).pages.get? q = if q ∈ ps then none else c.pages.get? q := by
  rw [dropAll]
  induction ps generalizing c with
  | nil => rfl
  | cons p ps ih =>
    rw [List.foldl_cons, ih, get?_drop]
    by_cases hq : q = p <;> by_cases hm : q ∈ ps <;> simp [hq, hm]

theorem mem_dirtyPages {t : TxnId} {p : PageId} :
    p ∈ c.dirtyPages t ↔ ∃ page, c.pages.get? p = some page ∧ page.dirtier = some t := by
  simp only [dirtyPages, Assoc.mem_keysWhere, decide_eq_true_eq]

theorem isClean_iff {p : PageId} :
    c.isClean p = true ↔ ∃ page, c.pages.get? p = some page ∧ page.dirtier = none := by
  rw [isClean]
  cases c.pages.get? p with
  | none => simp
  | some page => simp [Page.isDirty]

/-! ## A sound cache -/

/-- Every page is kept under its own name, and only clean pages may be evicted. -/
structure Sound (c : Cache) : Prop where
  keyed : ∀ p page, c.pages.get? p = some page → page.id = p
  clean : ∀ p, p ∈ c.recency.evictable → ∃ page, c.pages.get? p = some page ∧ page.dirtier = none

namespace Sound

theorem empty : Sound {} :=
  ⟨fun _ _ h => (by cases h), fun _ h => absurd h (Distinct.not_mem_empty _)⟩

theorem touch (h : Sound c) (p : PageId) : Sound (c.touch p) where
  keyed := h.keyed
  clean q hq := by
    rw [Cache.touch, Recency.evictable_touch] at hq
    exact h.clean q hq

theorem put (h : Sound c) {page : Page} {clean : Bool}
    (hc : clean = true → page.dirtier = none) : Sound (c.put page clean) where
  keyed p page' hp := by
    rw [get?_put] at hp
    split at hp
    · rename_i he; cases hp; exact he.symm
    · exact h.keyed p page' hp
  clean q hq := by
    rw [get?_put]
    rcases Recency.mem_evictable_setEvictable hq with ⟨he, hon⟩ | ⟨hne, hq⟩
    · rw [if_pos he]
      exact ⟨page, rfl, hc hon⟩
    · rw [if_neg hne]
      rw [Recency.evictable_touch] at hq
      exact h.clean q hq

theorem drop (h : Sound c) (p : PageId) : Sound (c.drop p) where
  keyed q page hq := by
    rw [get?_drop] at hq
    split at hq
    · cases hq
    · exact h.keyed q page hq
  clean q hq := by
    obtain ⟨hne, hq⟩ := Recency.mem_evictable_remove.1 hq
    rw [get?_drop, if_neg hne]
    exact h.clean q hq

theorem dropAll (h : Sound c) (ps : List PageId) : Sound (c.dropAll ps) :=
  List.foldlRecOn ps Cache.drop h fun _ hc p _ => hc.drop p

/-- A page is replaced by itself once its changes have been written. -/
theorem settle (h : Sound c) {p : PageId} {page : Page} (hp : page.id = p) :
    Sound { pages := c.pages.insert p page.clean, recency := c.recency.setEvictable p true } where
  keyed q page' hq := by
    rw [Assoc.get?_insert] at hq
    split at hq
    · rename_i he; cases hq; rw [he]; exact hp
    · exact h.keyed q page' hq
  clean q hq := by
    rw [Assoc.get?_insert]
    rcases Recency.mem_evictable_setEvictable hq with ⟨he, -⟩ | ⟨hne, hq⟩
    · rw [if_pos he]
      exact ⟨page.clean, rfl, rfl⟩
    · rw [if_neg hne]
      exact h.clean q hq

/-- An eviction drops one clean page. -/
theorem evict? (h : Sound c) {c' : Cache} (he : c.evict? = some c') :
    ∃ p page, c.pages.get? p = some page ∧ page.dirtier = none ∧
      (∀ q, c'.pages.get? q = if q = p then none else c.pages.get? q) ∧ Sound c' := by
  rw [Cache.evict?, Option.map_eq_some_iff] at he
  obtain ⟨⟨p, r⟩, hr, rfl⟩ := he
  obtain ⟨hp, hev⟩ := Recency.evict?_eq_some hr
  obtain ⟨page, hpage, hclean⟩ := h.clean p hp
  have hget : ∀ q, (c.pages.erase p).get? q = if q = p then none else c.pages.get? q :=
    fun q => Assoc.get?_erase _ _ _
  refine ⟨p, page, hpage, hclean, hget, ⟨fun q page' hq => ?_, fun q hq => ?_⟩⟩
  · rw [hget] at hq
    split at hq
    · cases hq
    · exact h.keyed q page' hq
  · rw [hev, Distinct.mem_erase] at hq
    rw [hget, if_neg hq.1]
    exact h.clean q hq.2

end Sound
end Cache
end TableStore

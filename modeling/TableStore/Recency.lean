import TableStore.Assoc
import TableStore.Distinct
import TableStore.Id

/-!
# Least recently used pages

Every access stamps a page with the next number of a clock, so the page with the smallest stamp is
the one whose last access is oldest.  Only pages that are marked evictable may be chosen to make
room.

## What is here

* `Recency` — the clock, the stamp of each tracked page, the pages by stamp, and the marks.
* `Recency.touch`, `Recency.setEvictable`, `Recency.remove` — access, marking and forgetting.
* `Recency.evict?` — the least recently used page that is evictable, and the rest without it.
* `Recency.order` — the tracked pages, the least recently used one first.
-/

set_option autoImplicit false
namespace TableStore

/-- The accesses of pages.  Stamps are given out in increasing order and a new stamp goes to the
end, so `byStamp` lists the pages from the least to the most recently used one. -/
structure Recency where
  clock : Nat
  stamps : Assoc PageId Nat
  byStamp : Assoc Nat PageId
  evictable : Distinct PageId
  deriving DecidableEq

namespace Recency

/-- Nothing has been accessed. -/
def empty : Recency := ⟨0, ∅, ∅, ∅⟩

instance : Inhabited Recency := ⟨empty⟩

/-- The tracked pages, the least recently used one first. -/
def order (r : Recency) : List PageId := r.byStamp.values

/-- The number of evictable pages. -/
def size (r : Recency) : Nat := r.evictable.size

/-- Forgets the stamp of a page. -/
def unstamp (r : Recency) (p : PageId) : Recency :=
  match r.stamps.get? p with
  | none => r
  | some stamp => { r with stamps := r.stamps.erase p, byStamp := r.byStamp.erase stamp }

/-- Records an access: the page is now the most recently used one. -/
def touch (r : Recency) (p : PageId) : Recency :=
  let r := r.unstamp p
  let now := r.clock + 1
  { r with
    clock := now
    stamps := r.stamps.insert p now
    byStamp := r.byStamp.insert now p }

/-- Marks a tracked page as evictable, or takes the mark from any page. -/
def setEvictable (r : Recency) (p : PageId) (on : Bool) : Recency :=
  if on && r.stamps.contains p then { r with evictable := r.evictable.insert p }
  else { r with evictable := r.evictable.erase p }

/-- Stops tracking a page. -/
def remove (r : Recency) (p : PageId) : Recency :=
  let r := r.unstamp p
  { r with evictable := r.evictable.erase p }

/-- The least recently used page that is evictable, and the rest without it. -/
def evict? (r : Recency) : Option (PageId × Recency) :=
  match r.byStamp.entries.find? fun e => e.2 ∈ r.evictable with
  | none => none
  | some (stamp, p) =>
    some (p,
      { r with
        stamps := r.stamps.erase p
        byStamp := r.byStamp.erase stamp
        evictable := r.evictable.erase p })

end Recency
end TableStore

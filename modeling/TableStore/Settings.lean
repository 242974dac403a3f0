/-!
# Settings

## What is here

* `PageSize` — the number of bytes of a page, which is positive; 4096 unless set otherwise.
* `PoolConfig` — how many pages a pool caches, and how long a request for a lock may wait before
  the other holders are aborted.
-/

set_option autoImplicit false
namespace TableStore

/-- The number of bytes of a page. -/
@[ext] structure PageSize where
  bytes : Nat
  pos : 0 < bytes

instance : DecidableEq PageSize := fun p q =>
  decidable_of_iff (p.bytes = q.bytes) PageSize.ext_iff.symm

namespace PageSize

/-- The page size with a number of bytes; there are no pages of none. -/
def ofNat? (n : Nat) : Option PageSize := if h : 0 < n then some ⟨n, h⟩ else none

/-- The page size unless set otherwise. -/
def standard : PageSize := ⟨4096, by decide⟩

instance : Inhabited PageSize := ⟨standard⟩

end PageSize

/-- Settings of a pool: the number of pages that it caches, and the waiting time for locks in
milliseconds. -/
structure PoolConfig where
  pages : Nat := 50
  timeout : Nat := 150
  deriving DecidableEq, Repr, Inhabited

end TableStore

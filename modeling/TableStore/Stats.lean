import TableStore.Text.Decimal

/-!
# Statistics

Seven counters of 64 bits that wrap around, and the share of requests that the cache answered.

## What is here

* `Stats`, `Counter` — the counters and their names; `Stats.bump` adds one.
* `Stats.hitRate` — hits among all requests, zero if there were none.
* `Stats.toText` — the line that reports them, with the hit rate in percent to two places.
-/

set_option autoImplicit false
namespace TableStore

/-- What is counted. -/
inductive Counter where
  /-- Requests that the cache answered. -/
  | hits
  /-- Requests for which the page had to be loaded. -/
  | misses
  /-- Clean pages dropped to make room. -/
  | evictions
  /-- Pages read from files. -/
  | reads
  /-- Pages written to files. -/
  | writes
  /-- Waits for a lock that took too long. -/
  | deadlocks
  /-- Transactions that ended in an abort. -/
  | aborts
  deriving DecidableEq, Repr

/-- The counters. -/
structure Stats where
  hits : UInt64 := 0
  misses : UInt64 := 0
  evictions : UInt64 := 0
  reads : UInt64 := 0
  writes : UInt64 := 0
  deadlocks : UInt64 := 0
  aborts : UInt64 := 0
  deriving DecidableEq, Repr, Inhabited

namespace Stats

/-- The value of a counter. -/
def get (s : Stats) : Counter → UInt64
  | .hits => s.hits
  | .misses => s.misses
  | .evictions => s.evictions
  | .reads => s.reads
  | .writes => s.writes
  | .deadlocks => s.deadlocks
  | .aborts => s.aborts

/-- The values of all counters, in the order in which `Counter` names them. -/
def counts (s : Stats) : List UInt64 :=
  [s.hits, s.misses, s.evictions, s.reads, s.writes, s.deadlocks, s.aborts]

/-- Adds to a counter; the sum wraps around at `2 ^ 64`. -/
def add (s : Stats) (c : Counter) (n : UInt64) : Stats :=
  match c with
  | .hits => { s with hits := s.hits + n }
  | .misses => { s with misses := s.misses + n }
  | .evictions => { s with evictions := s.evictions + n }
  | .reads => { s with reads := s.reads + n }
  | .writes => { s with writes := s.writes + n }
  | .deadlocks => { s with deadlocks := s.deadlocks + n }
  | .aborts => { s with aborts := s.aborts + n }

/-- Adds one to a counter. -/
def bump (s : Stats) (c : Counter) : Stats := s.add c 1

theorem get_add (s : Stats) (c d : Counter) (n : UInt64) :
    (s.add c n).get d = if d = c then s.get d + n else s.get d := by
  cases c <;> cases d <;> rfl

/-- The share of requests that the cache answered; zero if there were none. -/
def hitRate (s : Stats) : Float :=
  let total := s.hits + s.misses
  if total = 0 then 0 else s.hits.toFloat / total.toFloat

/-- The hit rate in percent, with two places after the point. -/
def hitPercent (s : Stats) : String :=
  let (num, den) := Decimal.fraction (s.hitRate * 100)
  Decimal.fixed 2 num den

/-- The line that reports the counters. -/
def toText (s : Stats) : String :=
  "Stats \x7b hits: " ++ toString s.hits.toNat ++ ", misses: " ++ toString s.misses.toNat
    ++ ", evictions: " ++ toString s.evictions.toNat
    ++ ", deadlocks: " ++ toString s.deadlocks.toNat
    ++ ", aborts: " ++ toString s.aborts.toNat
    ++ ", hit_rate: " ++ s.hitPercent ++ "% \x7d"

end Stats
end TableStore

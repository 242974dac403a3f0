import TableStore.Checksum
import TableStore.Id
import TableStore.Split
import TableStore.Text.Utf8

/-!
# Paths

A written path is a byte string, read from the root of the file system.  It names a file by the
steps that lead there; a canonical path consists of names only.

## What is here

* `Path` — a canonical path: the names from the root down.
* `Step`, `Route.ofBytes` — the steps of a written path, and whether it ends in a slash.
* `Path.follow` — where steps lead if all that they pass through are directories.
* `Path.ofBytes` — the canonical form of a written path; `Path.ofBytes_toBytes` says that a canonical
  path stays as it is.
* `TableId.ofPath` — the table that a file stores: the checksum of its canonical path, in which
  ill-formed parts have been replaced.
-/

set_option autoImplicit false
namespace TableStore

/-- A canonical path: the names from the root down. -/
structure Path where
  names : List Bytes
  deriving DecidableEq, Repr, Inhabited

namespace Path

/-- The root of the file system. -/
def root : Path := ⟨[]⟩

/-- The entry of a directory with a name. -/
def child (p : Path) (name : Bytes) : Path := ⟨p.names ++ [name]⟩

/-- The directory that holds an entry; the root holds itself. -/
def parent (p : Path) : Path := ⟨p.names.dropLast⟩

/-- The last name; empty for the root and for a name that is no text. -/
def fileName (p : Path) : String := (p.names.getLast?.bind Utf8.decode?).getD ""

/-- The slash, which separates names. -/
def slash : UInt8 := 0x2F

/-- The path as it is written: every name follows a slash. -/
def toBytes (p : Path) : Bytes :=
  if p.names = [] then [slash] else p.names.flatMap (slash :: ·)

end Path

/-- A step on the way to a file. -/
inductive Step where
  | stay
  | up
  | down (name : Bytes)
  deriving DecidableEq, Repr

/-- The step that a part of a written path stands for: one dot stays, two dots go up. -/
def Step.ofPart (part : Bytes) : Step :=
  if part = [0x2E] then .stay
  else if part = [0x2E, 0x2E] then .up
  else .down part

/-- The steps of a written path, and whether it insists on a directory by ending in a slash. -/
structure Route where
  steps : List Step
  slashed : Bool
  deriving DecidableEq, Repr

/-- The steps of a written path; repeated slashes count once. -/
def Route.ofBytes (b : Bytes) : Route :=
  { steps := ((splitOn Path.slash b).filter (· ≠ [])).map Step.ofPart
    slashed := b.getLast? = some Path.slash }

/-- A written path: as it stands if it begins with a slash, else taken from a directory. -/
def Path.join (directory : Path) (b : Bytes) : Bytes :=
  if b.head? = some slash then b else directory.toBytes ++ slash :: b

/-- Where steps lead if all that they pass through are directories. -/
def Path.follow : Path → List Step → Path
  | p, [] => p
  | p, .stay :: steps => p.follow steps
  | p, .up :: steps => p.parent.follow steps
  | p, .down name :: steps => (p.child name).follow steps

/-- The canonical form of a written path that leads to a file through directories. -/
def Path.ofBytes (b : Bytes) : Path := root.follow (Route.ofBytes b).steps

/-! ## Canonical paths as they are written -/

/-- Whether a byte string can be the name of a file. -/
def IsName (b : Bytes) : Prop := Path.slash ∉ b ∧ b ≠ [] ∧ Step.ofPart b = .down b

theorem Path.follow_map_down (p : Path) (names : List Bytes) :
    p.follow (names.map Step.down) = ⟨p.names ++ names⟩ := by
  induction names generalizing p with
  | nil => simp [Path.follow]
  | cons name names ih => simp [Path.follow, ih, Path.child]

theorem Path.splitOn_toBytes {p : Path} (h : ∀ name ∈ p.names, IsName name) :
    (splitOn slash p.toBytes).filter (· ≠ []) = p.names := by
  obtain ⟨names⟩ := p
  unfold Path.toBytes
  cases names with
  | nil => rfl
  | cons name names =>
    have hj : ∀ ns : List Bytes, ns ≠ [] →
        ns.flatMap (slash :: ·) = slash :: List.intercalate [slash] ns := by
      intro ns
      induction ns with
      | nil => exact fun e => absurd rfl e
      | cons n ns ih =>
        cases ns with
        | nil => simp [List.intercalate]
        | cons m ms =>
          intro _
          rw [List.flatMap_cons, ih (by simp)]
          simp [List.intercalate, List.intersperse]
    rw [if_neg (by simp), hj _ (by simp)]
    rw [show splitOn slash (slash :: List.intercalate [slash] (name :: names)) =
      [] :: splitOn slash (List.intercalate [slash] (name :: names)) by simp [splitOn]]
    rw [splitOn_intercalate (by simp) fun n hn => (h n hn).1]
    simp only [ne_eq, not_true_eq_false, decide_false, Bool.false_eq_true, not_false_eq_true,
      List.filter_cons_of_neg]
    exact List.filter_eq_self.2 fun n hn => by simpa using (h n hn).2.1

/-- A canonical path is read back as it was written. -/
theorem Path.ofBytes_toBytes {p : Path} (h : ∀ name ∈ p.names, IsName name) :
    Path.ofBytes p.toBytes = p := by
  have hs : p.names.map Step.ofPart = p.names.map Step.down :=
    List.map_congr_left fun n hn => (h n hn).2.2
  rw [Path.ofBytes, Route.ofBytes, Path.splitOn_toBytes h, hs, Path.follow_map_down]
  rfl

/-- The table that the file at a canonical path stores. -/
def TableId.ofPath (p : Path) : TableId := ⟨crc32 (Utf8.repair p.toBytes)⟩

end TableStore

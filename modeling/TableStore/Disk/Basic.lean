import TableStore.Assoc
import TableStore.Disk.Path
import TableStore.Distinct
import TableStore.Error

/-!
# The file system

A tree of directories and files without links.  Files are found by written paths; once a file has
been opened, its canonical path stands for it.

## What is here

* `Disk` — the directories and the contents of the files.
* `Disk.locate` — the canonical path of an existing file or directory.
* `Disk.openFile`, `Disk.createFile` — opening an existing file, and making a new one, for reading
  and writing.
* `Disk.readText`, `Disk.replaceFile` — whole files.
* `Disk.content`, `Disk.writeAt` — the bytes of an open file, and writing at an offset.
-/

set_option autoImplicit false
namespace TableStore

/-- The directories below the root, and the files with their contents. -/
structure Disk where
  directories : Distinct Path
  files : Assoc Path Bytes
  deriving DecidableEq

namespace Disk

/-- A file system with nothing but the root. -/
def empty : Disk := ⟨∅, ∅⟩

instance : Inhabited Disk := ⟨empty⟩

/-- Whether a canonical path is that of a directory. -/
def isDirectory (d : Disk) (p : Path) : Bool := p = Path.root || p ∈ d.directories

/-- Whether there is a file or directory at a canonical path. -/
def has (d : Disk) (p : Path) : Bool := d.isDirectory p || d.files.contains p

/-- Makes a directory, and all that lead to it. -/
def addDirectory (d : Disk) (p : Path) : Disk :=
  let paths := (List.range p.names.length).map fun n => Path.mk (p.names.take (n + 1))
  { d with directories := paths.foldl Distinct.insert d.directories }

/-! ## Finding -/

/-- The number of bytes that a name may have. -/
def nameLimit : Nat := 255

/-- The number of bytes from which on a written path is too long to open a file. -/
def pathLimit : Nat := 4096

/-- Where steps lead from an existing file or directory.  Only a directory has entries. -/
def walk (d : Disk) : Path → List Step → Except IoError Path
  | p, [] => .ok p
  | p, step :: steps =>
    if !d.isDirectory p then .error .notDirectory
    else match step with
      | .stay => d.walk p steps
      | .up => d.walk p.parent steps
      | .down name =>
        if nameLimit < name.length then .error .nameTooLong
        else if d.has (p.child name) then d.walk (p.child name) steps
        else .error .notFound

/-- The canonical path of an existing file or directory.  A path that ends in a slash names a
directory. -/
def locate (d : Disk) (b : Bytes) : Except IoError Path :=
  if 0 ∈ b then .error .nulInName
  else
    let route := Route.ofBytes b
    match d.walk Path.root route.steps with
    | .error e => .error e
    | .ok p => if route.slashed && !d.isDirectory p then .error .notDirectory else .ok p

/-- Refuses written paths that are not fit for opening a file. -/
def checkPath (b : Bytes) : Except IoError Unit :=
  if 0 ∈ b then .error .nulInName
  else if pathLimit ≤ b.length then .error .nameTooLong
  else .ok ()

/-- The file or directory that can be reached by a written path. -/
def reach (d : Disk) (b : Bytes) : Except IoError Path :=
  match checkPath b with
  | .error e => .error e
  | .ok () => d.locate b

/-- The existing file with a written path. -/
def openFile (d : Disk) (b : Bytes) : Except IoError Path :=
  match d.reach b with
  | .error e => .error e
  | .ok p => if d.isDirectory p then .error .isDirectory else .ok p

/-- Where a new entry would stand: its directory and its name, or the existing directory that a
path ending in dots or at the root names. -/
def place (d : Disk) (b : Bytes) : Except IoError (Path × Option Bytes) :=
  match checkPath b with
  | .error e => .error e
  | .ok () =>
    let route := Route.ofBytes b
    match d.walk Path.root route.steps.dropLast with
    | .error e => .error e
    | .ok p =>
      match route.steps.getLast? with
      | none => .ok (p, none)
      | some (.down name) =>
        if !d.isDirectory p then .error .notDirectory
        else if route.slashed then .error .isDirectory
        else if nameLimit < name.length then .error .nameTooLong
        else .ok (p, some name)
      | some step =>
        match d.walk p [step] with
        | .error e => .error e
        | .ok q => .ok (q, none)

/-! ## Making and reading files -/

/-- Makes a new, empty file. -/
def createFile (d : Disk) (b : Bytes) : Except IoError (Path × Disk) :=
  match d.place b with
  | .error e => .error e
  | .ok (_, none) => .error .alreadyExists
  | .ok (p, some name) =>
    if d.has (p.child name) then .error .alreadyExists
    else .ok (p.child name, { d with files := d.files.insert (p.child name) [] })

/-- Gives a file new contents, making it if there is none. -/
def replaceFile (d : Disk) (b content : Bytes) : Except IoError Disk :=
  match d.place b with
  | .error e => .error e
  | .ok (_, none) => .error .isDirectory
  | .ok (p, some name) =>
    if d.isDirectory (p.child name) then .error .isDirectory
    else .ok { d with files := d.files.insert (p.child name) content }

/-- The contents of a file; a path without a file has none. -/
def content (d : Disk) (p : Path) : Bytes := (d.files.get? p).getD []

/-- The contents of the file with a written path. -/
def readBytes (d : Disk) (b : Bytes) : Except IoError Bytes :=
  match d.openFile b with
  | .error e => .error e
  | .ok p => .ok (d.content p)

/-- The text in the file with a written path. -/
def readText (d : Disk) (b : Bytes) : Except IoError String :=
  match d.readBytes b with
  | .error e => .error e
  | .ok bytes =>
    match Utf8.decode? bytes with
    | none => .error .notUtf8
    | some text => .ok text

/-- Writes into a file at an offset. -/
def writeAt (d : Disk) (p : Path) (start : Nat) (bytes : Bytes) : Disk :=
  { d with files := d.files.insert p ((d.content p).overwrite start bytes) }

theorem content_writeAt (d : Disk) (p q : Path) (start : Nat) (bytes : Bytes) :
    (d.writeAt p start bytes).content q =
      if q = p then (d.content p).overwrite start bytes else d.content q := by
  simp only [content, writeAt, Assoc.get?_insert]
  split <;> simp

end Disk
end TableStore

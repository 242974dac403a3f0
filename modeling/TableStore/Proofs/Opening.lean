import Mathlib.Tactic.SplitIfs
import TableStore.Proofs.Pool.Place

/-!
# Opening and making files

A file is opened if something can be reached by its path, and made if nothing can.  Which of the two
is done depends on what has been opened and made before; the file does not.

## What is here

* `Disk.place_eq_some` — where a new file would stand, and `Disk.reach_of_place` — what can be
  reached by its path.
* `TableFile.openOrCreate_cases` — opening and making.
* `TableFile.openOrCreate_extended` — a file that could be opened or made before others have been
  made can still be opened or made, and it is the same file.
-/

set_option autoImplicit false
namespace TableStore
namespace Disk

variable {d d' : Disk} {b name : Bytes} {p q : Path}

theorem walk_append {steps : List Step} (h : d.walk p steps = .ok q) (more : List Step) :
    d.walk p (steps ++ more) = d.walk q more := by
  fun_induction Disk.walk d p steps with
  | case1 p =>
    cases h
    rfl
  | case2 => cases h
  | case3 p steps hd ih =>
    rw [List.cons_append, walk, if_neg hd]
    exact ih h
  | case4 p steps hd ih =>
    rw [List.cons_append, walk, if_neg hd]
    exact ih h
  | case5 => cases h
  | case6 p steps hd name hlen hhas ih =>
    rw [List.cons_append, walk, if_neg hd, if_neg hlen, if_pos hhas]
    exact ih h
  | case7 => cases h

/-- A new file stands in an existing directory, and the path that leads there ends with its name. -/
theorem place_eq_some (h : d.place b = .ok (p, some name)) :
    checkPath b = .ok () ∧ d.isDirectory p = true ∧ (Route.ofBytes b).slashed = false ∧
      name.length ≤ nameLimit ∧ ∃ steps, (Route.ofBytes b).steps = steps ++ [.down name] ∧
        d.walk Path.root steps = .ok p := by
  rw [place] at h
  split at h
  · cases h
  · rename_i hcheck
    dsimp only at h
    split at h
    · cases h
    · rename_i q hwalk
      split at h
      · cases h
      · rename_i name' hlast
        split_ifs at h with hd hslash hlen
        cases h
        obtain ⟨steps, hsteps⟩ := List.getLast?_eq_some_iff.1 hlast
        rw [hsteps, List.dropLast_concat] at hwalk
        exact ⟨hcheck, by simpa using hd, by simpa using hslash, by omega, steps, hsteps, hwalk⟩
      · split at h
        · cases h
        · cases h

/-- A path at which a file can be made leads to the entry with its name, if there is one. -/
theorem reach_of_place (h : d.place b = .ok (p, some name)) :
    d.reach b = if d.has (p.child name) then .ok (p.child name) else .error .notFound := by
  obtain ⟨hcheck, hd, hslash, hlen, steps, hsteps, hwalk⟩ := place_eq_some h
  have hnul : 0 ∉ b := fun hnul => by
    rw [checkPath, if_pos hnul] at hcheck
    cases hcheck
  have hstep : d.walk p [.down name] =
      if d.has (p.child name) then .ok (p.child name) else .error .notFound := by
    rw [walk, if_neg (by simp [hd]), if_neg (by omega)]
    rfl
  rw [reach, hcheck]
  dsimp only
  rw [locate, if_neg hnul]
  dsimp only
  rw [hsteps, walk_append hwalk, hstep, hslash]
  split
  · rename_i hw
    exact hw.symm
  · rename_i hw
    exact hw.symm

theorem reach_of_openFile (h : d.openFile b = .ok q) : d.reach b = .ok q := by
  rw [openFile] at h
  split at h
  · cases h
  · rename_i hreach
    split_ifs at h
    exact hreach.trans h

theorem openFile_of_reach (h : d.reach b = .ok q) (hq : d.isDirectory q = false) :
    d.openFile b = .ok q := by
  rw [openFile, h]
  dsimp only
  rw [if_neg (by simp [hq])]

/-- A new file has no bytes. -/
theorem extended_new (hq : d.has q = false) :
    d.Extended { d with files := d.files.insert q [] } := by
  refine extended_insert ?_
  rw [has, Bool.or_eq_false_iff, Assoc.contains, Option.isSome_eq_false_iff,
    Option.isNone_iff_eq_none] at hq
  rw [content, hq.2]
  exact Nat.le_refl 0

/-- Other new files do not move the place of a new file. -/
theorem Extended.place (h : d.Extended d') (hp : d.place b = .ok (p, some name)) :
    d'.place b = .ok (p, some name) := by
  obtain ⟨hcheck, hd, hslash, hlen, steps, hsteps, hwalk⟩ := place_eq_some hp
  rw [Disk.place, hcheck]
  dsimp only
  rw [hsteps, List.dropLast_concat, h.walk hwalk, List.getLast?_concat]
  dsimp only
  rw [if_neg (by simp [h.isDirectory_eq, hd]), if_neg (by simp [hslash]), if_neg (by omega)]

end Disk

namespace TableFile

variable {d d' m : Disk} {b name : Bytes} {p q : Path} {schema : Schema} {file : TableFile}

theorem openOrCreate_of_openFile (h : d.openFile b = .ok q) (schema : Schema) :
    openOrCreate d b schema = .ok (ofPath q schema, d) := by
  rw [openOrCreate, Disk.reach_of_openFile h, openExisting, h]

theorem openOrCreate_of_place (h : d.place b = .ok (p, some name))
    (hnew : d.has (p.child name) = false) (schema : Schema) :
    openOrCreate d b schema =
      .ok (ofPath (p.child name) schema, { d with files := d.files.insert (p.child name) [] }) := by
  have hnew' : ¬ d.has (p.child name) = true := by simp [hnew]
  rw [openOrCreate, Disk.reach_of_place h, if_neg hnew', create, Disk.createFile, h]
  dsimp only
  rw [if_neg hnew']

/-- A file is opened, or it is made because nothing is there. -/
theorem openOrCreate_cases (h : openOrCreate d b schema = .ok (file, m)) :
    (∃ q, d.openFile b = .ok q ∧ file = ofPath q schema ∧ m = d) ∨
      ∃ p name, d.place b = .ok (p, some name) ∧ d.has (p.child name) = false ∧
        file = ofPath (p.child name) schema ∧
        m = { d with files := d.files.insert (p.child name) [] } := by
  rw [openOrCreate] at h
  split at h
  · rw [openExisting] at h
    cases ho : d.openFile b with
    | error e =>
      rw [ho] at h
      cases h
    | ok q =>
      rw [ho] at h
      cases h
      exact .inl ⟨q, rfl, rfl, rfl⟩
  · rw [create, Disk.createFile] at h
    split at h
    · cases h
    · rename_i path d₁ hc
      split at hc
      · cases hc
      · cases hc
      · rename_i p name hplace
        split_ifs at hc with hhas
        cases hc
        cases h
        exact .inr ⟨p, name, hplace, by simpa using hhas, rfl, rfl⟩

/-- Opening or making a file takes no other away. -/
theorem extended_openOrCreate (h : openOrCreate d b schema = .ok (file, m)) : d.Extended m := by
  rcases openOrCreate_cases h with ⟨q, -, -, rfl⟩ | ⟨p, name, -, hnew, -, rfl⟩
  · exact .refl m
  · exact Disk.extended_new hnew

/-- **The order in which files are opened or made does not matter.**  When others have been made, a
file that would have been made may be there, and then it is opened. -/
theorem openOrCreate_extended (h : d.Extended d') (ho : openOrCreate d b schema = .ok (file, m)) :
    ∃ m', openOrCreate d' b schema = .ok (file, m') := by
  rcases openOrCreate_cases ho with ⟨q, hopen, rfl, -⟩ | ⟨p, name, hplace, hnew, rfl, -⟩
  · exact ⟨d', openOrCreate_of_openFile (h.openFile hopen) schema⟩
  · have hplace' := h.place hplace
    cases hhas : d'.has (p.child name) with
    | false => exact ⟨_, openOrCreate_of_place hplace' hhas schema⟩
    | true =>
      -- the file has been made in the meantime
      have hreach : d'.reach b = .ok (p.child name) := by
        rw [Disk.reach_of_place hplace', if_pos hhas]
      have hfile : d'.isDirectory (p.child name) = false := by
        rw [h.isDirectory_eq]
        rw [Disk.has, Bool.or_eq_false_iff] at hnew
        exact hnew.1
      exact ⟨d', openOrCreate_of_openFile (Disk.openFile_of_reach hreach hfile) schema⟩

end TableFile
end TableStore

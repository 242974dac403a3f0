import Mathlib.Data.List.Induction
import TableStore.Proofs.Catalog.Indexes
import TableStore.Proofs.Catalog.Listing
import TableStore.Proofs.Opening

/-!
# Loading printed schema files

A schema file is read line by line.  Every line makes or opens a file and registers a table, which
may take the place of others, those of earlier lines included.  Here it is shown what the catalog
holds when tables have been printed and loaded: of every name the last table that was printed under
it, and what it held before, as far as no table with the same name or identity was printed.  A line
at fault ends the loading, and the catalog then holds the tables of the lines before it.

## What is here

* `Catalog.Housed` — the files of tables can be opened or made, and no two names share one.
* `Catalog.Loaded` — what is found in a catalog in which tables have been registered, and
  `Inverse.loaded_enter` — registering them one after the other does that.
* `Catalog.loadLines_print` — loading printed tables is registering them, whatever lines follow.
* `Catalog.loadSchema_print` — the whole.
-/

set_option autoImplicit false
namespace TableStore

namespace TableListing

/-- The file of a table, if that of a table called `n` is at `place n`. -/
def file (place : String → Path) (l : TableListing) : TableFile := .ofPath (place l.name) l.schema

/-- The identity of a table. -/
def id (place : String → Path) (l : TableListing) : TableId := (l.file place).id

/-- The identity depends on the name only. -/
theorem id_congr {place : String → Path} {l m : TableListing} (h : l.name = m.name) :
    l.id place = m.id place := congrArg (TableId.ofPath ∘ place) h

end TableListing

namespace Catalog

variable {c c' : Catalog} {d d' : Disk} {directory : Path} {place : String → Path}
  {l : TableListing} {ls : List TableListing}

/-- The file of a table can be opened or made, and then it is the one at its place. -/
def CanOpen (d : Disk) (directory : Path) (place : String → Path) (l : TableListing) : Prop :=
  ∃ d', TableFile.openOrCreate d (dataFile directory l.name) l.schema = .ok (l.file place, d')

/-- The files of all tables can be opened or made, and tables with different names have different
identities. -/
structure Housed (d : Disk) (directory : Path) (place : String → Path) (ls : List TableListing) :
    Prop where
  canOpen : ∀ l ∈ ls, CanOpen d directory place l
  apart : ∀ l ∈ ls, ∀ m ∈ ls, l.name ≠ m.name → l.id place ≠ m.id place

/-! ## Registering tables one after the other

A name that is listed twice belongs to the later table, and the earlier one is gone from both
indexes.  So what is found in the end is told by the last table with a name, and by the old catalog
where there is none. -/

/-- The catalog in which the tables have been registered, from the first to the last. -/
def enter (c : Catalog) (place : String → Path) (ls : List TableListing) : Catalog :=
  ls.foldl (fun c l => c.add (l.file place) l.name l.key) c

/-- What is found in the catalog `c'`, in which the tables have been registered, and what was found
in `c` before: by a name the last of the tables with that name, and nothing that has the name or the
identity of one of the tables otherwise.  All else is found as before. -/
structure Loaded (c : Catalog) (place : String → Path) (ls : List TableListing) (c' : Catalog) :
    Prop where
  idOf_eq : ∀ l ∈ ls, c'.idOf l.name = .ok (l.id place)
  table_eq : ∀ front l back, ls = front ++ l :: back → (∀ m ∈ back, m.name ≠ l.name) →
    c'.table (l.id place) = .ok ⟨l.file place, l.name, l.key⟩
  names : ∀ n, (∀ l ∈ ls, l.name ≠ n) → ∀ id,
    c'.idOf n = .ok id ↔ c.idOf n = .ok id ∧ ∀ l ∈ ls, l.id place ≠ id
  tables : ∀ id, (∀ l ∈ ls, l.id place ≠ id) → ∀ table,
    c'.table id = .ok table ↔ c.table id = .ok table ∧ ∀ l ∈ ls, l.name ≠ table.name

theorem enter_concat (c : Catalog) (place : String → Path) (ls : List TableListing)
    (l : TableListing) :
    c.enter place (ls ++ [l]) = (c.enter place ls).add (l.file place) l.name l.key := by
  rw [enter, List.foldl_concat]
  rfl

theorem Inverse.enter (h : c.Inverse) (place : String → Path) (ls : List TableListing) :
    (c.enter place ls).Inverse :=
  List.foldlRecOn ls _ h fun _ hc l _ => hc.add (l.file place) l.name l.key

theorem Loaded.nil (c : Catalog) (place : String → Path) : c.Loaded place [] c where
  idOf_eq _ hl := absurd hl List.not_mem_nil
  table_eq front _ _ h _ := by simp at h
  names _ _ _ := (and_iff_left fun _ hl => absurd hl List.not_mem_nil).symm
  tables _ _ _ := (and_iff_left fun _ hl => absurd hl List.not_mem_nil).symm

/-- One more table is registered. -/
theorem Loaded.concat {c'' : Catalog} (h : c.Loaded place ls c')
    (hl : c'.Registered (l.file place) l.name l.key c'')
    (hapart : ∀ m ∈ ls, m.name ≠ l.name → m.id place ≠ l.id place) :
    c.Loaded place (ls ++ [l]) c'' where
  idOf_eq m hm := by
    by_cases hname : m.name = l.name
    · rw [hname, TableListing.id_congr hname]
      exact hl.idOf_eq
    · have hm : m ∈ ls := (List.mem_append.1 hm).resolve_right fun hm =>
        hname (congrArg TableListing.name (List.mem_singleton.1 hm))
      exact (hl.names m.name hname _).2 ⟨h.idOf_eq m hm, hapart m hm hname⟩
  table_eq front m back hls hlast := by
    rcases List.eq_nil_or_concat back with rfl | ⟨back, l', rfl⟩
    · obtain ⟨-, hml⟩ := List.append_inj' hls rfl
      cases hml
      exact hl.table_eq
    · rw [List.concat_eq_append, ← List.cons_append, ← List.append_assoc] at hls
      obtain ⟨rfl, hml⟩ := List.append_inj' hls rfl
      cases hml
      -- the new table has another name, and so another identity
      have hname : m.name ≠ l.name := (hlast l (by simp)).symm
      refine (hl.tables _ (hapart m (by simp) hname) _).2 ⟨?_, hname⟩
      exact h.table_eq front m back rfl fun m' hm' => hlast m' (by simp [hm'])
  names n hn id := by
    obtain ⟨hls, hname⟩ := List.forall_mem_append.1 hn
    have hname : n ≠ l.name := (hname l List.mem_cons_self).symm
    rw [hl.names n hname, h.names n hls, and_assoc, List.forall_mem_append,
      List.forall_mem_singleton]
    exact and_congr_right fun _ => and_congr_right fun _ => ne_comm
  tables id hid table := by
    obtain ⟨hls, hid⟩ := List.forall_mem_append.1 hid
    have hid : id ≠ l.id place := (hid l List.mem_cons_self).symm
    rw [hl.tables id hid, h.tables id hls, and_assoc, List.forall_mem_append,
      List.forall_mem_singleton]
    exact and_congr_right fun _ => and_congr_right fun _ => ne_comm

/-- **What is found when tables have been registered one after the other.** -/
theorem Inverse.loaded_enter (h : c.Inverse)
    (hapart : ∀ l ∈ ls, ∀ m ∈ ls, l.name ≠ m.name → l.id place ≠ m.id place) :
    c.Loaded place ls (c.enter place ls) := by
  induction ls using List.reverseRecOn with
  | nil => exact .nil c place
  | append_singleton ls l ih =>
    have hls : ∀ m ∈ ls, m ∈ ls ++ [l] := fun _ => List.mem_append_left _
    rw [enter_concat]
    refine (ih fun m hm m' hm' => hapart m (hls m hm) m' (hls m' hm')).concat
      ((h.enter place ls).registered _ _ _) fun m hm => hapart m (hls m hm) l (by simp)

/-! ## Loading lines -/

theorem loadLine_print (h : TableFile.openOrCreate d (dataFile directory l.name) l.schema =
    .ok (l.file place, d')) :
    c.loadLine d directory l.print =
      .ok (l.id place, c.add (l.file place) l.name l.key, d') := by
  rw [loadLine, l.parse_print]
  dsimp only
  rw [h]
  rfl

/-- A line that is loaded comes first. -/
theorem loadLines_cons {line : List Char} {id : TableId}
    (h : c.loadLine d directory line = .ok (id, c', d')) (rest : List (List Char)) :
    c.loadLines d directory (line :: rest) =
      ((c'.loadLines d' directory rest).1.map (id :: ·), (c'.loadLines d' directory rest).2) := by
  rw [loadLines, h]

/-- Nothing is loaded after a line that describes no table. -/
theorem loadLines_cons_refused {line : List Char} {fault : LineFault}
    (h : TableEntry.parse line = .error fault) (rest : List (List Char)) :
    c.loadLines d directory (line :: rest) =
      (.error (.malformedLine fault (String.ofList line)), c, d) := by
  rw [loadLines, loadLine, h]

/-- **Loading printed tables is registering them.**  The lines after them are loaded into the
catalog that has resulted. -/
theorem loadLines_print (h : ∀ l ∈ ls, CanOpen d directory place l) (rest : List (List Char)) :
    ∃ d', let run := (c.enter place ls).loadLines d' directory rest
      c.loadLines d directory (ls.map TableListing.print ++ rest) =
        (run.1.map (ls.map (TableListing.id place) ++ ·), run.2) := by
  induction ls generalizing c d with
  | nil =>
    refine ⟨d, Prod.ext ?_ rfl⟩
    exact (congrFun Except.map_id _).symm
  | cons l ls ih =>
    obtain ⟨⟨d₁, hl⟩, hls⟩ := List.forall_mem_cons.1 h
    -- the other files can still be opened or made when the first one is there
    have hls₁ : ∀ m ∈ ls, CanOpen d₁ directory place m := fun m hm => (hls m hm).elim fun _ ho =>
      TableFile.openOrCreate_extended (TableFile.extended_openOrCreate hl) ho
    obtain ⟨d', hrest⟩ := ih (c := c.add (l.file place) l.name l.key) hls₁
    refine ⟨d', ?_⟩
    have henter : c.enter place (l :: ls) =
        (c.add (l.file place) l.name l.key).enter place ls := rfl
    dsimp only at hrest ⊢
    rw [List.map_cons, List.cons_append, loadLines_cons (loadLine_print hl), hrest, henter]
    generalize Catalog.loadLines _ d' directory rest = run
    obtain ⟨ids, c', d''⟩ := run
    cases ids with
    | error e => rfl
    | ok ids => rfl

/-! ## Loading files -/

/-- **Loading a printed schema file gives back its tables.**  The file lists tables whose data files
can be opened or made, in any way that a listing may be laid out, and the catalog holds whatever has
been registered before.  Then one identity for each table is returned, in order.  Afterwards every
name leads to the columns and the key of the last table that was listed under it, and tables with
other names and identities stay as they are.  If a line that describes no table follows, it is
refused, whatever comes after it, and exactly the tables before it have been registered. -/
theorem loadSchema_print (calls : List CatalogCall) {b : Bytes} {path : Path} {text : String}
    {lines : List (List Char)} (hpath : d.locate b = .ok path) (htext : d.readText b = .ok text)
    (hlines : Listing ls lines) (hhoused : Housed d path.parent place ls) :
    let c := calls.foldl CatalogCall.apply {}
    let run := c.loadSchema d b
    (text.toList = List.intercalate ['\n'] lines →
      run.1 = .ok (ls.map (TableListing.id place)) ∧ c.Loaded place ls run.2.1) ∧
    ∀ line others fault, text.toList = List.intercalate ['\n'] (lines ++ line :: others) →
      (∀ part ∈ line :: others, '\n' ∉ part) → Text.trim line ≠ [] →
      TableEntry.parse (Text.trim line) = .error fault →
        run.1 = .error (.malformedLine fault (String.ofList (Text.trim line))) ∧
          c.Loaded place ls run.2.1 := by
  intro c run
  have hc : c.Inverse := Inverse.empty.foldl_apply calls
  have hrun : run = c.loadLines d path.parent (entryLines text) := by
    show c.loadSchema d b = _
    rw [loadSchema, hpath]
    dsimp only
    rw [htext]
  refine ⟨fun hjoined => ?_, fun line others fault hjoined hfeed hline hfault => ?_⟩
  · obtain ⟨d', hload⟩ := loadLines_print (c := c) hhoused.canOpen []
    have hlisted := entryLines_of_joined hjoined hlines.feed_notMem
    rw [hlines.map_trim, ← List.append_nil (ls.map _)] at hlisted
    rw [hrun, hlisted, hload]
    exact ⟨congrArg Except.ok (List.append_nil _), hc.loaded_enter hhoused.apart⟩
  · obtain ⟨d', hload⟩ := loadLines_print (c := c) hhoused.canOpen
      (Text.trim line :: (others.map Text.trim).filter (· ≠ []))
    have hlisted := entryLines_of_joined hjoined
      (List.forall_mem_append.2 ⟨hlines.feed_notMem, hfeed⟩)
    rw [List.map_append, List.filter_append, hlines.map_trim, List.map_cons,
      List.filter_cons_of_pos (by simpa using hline)] at hlisted
    rw [hrun, hlisted, hload, loadLines_cons_refused hfault]
    exact ⟨rfl, hc.loaded_enter hhoused.apart⟩

/-- A table of numbers with a key. -/
def numbers : TableListing where
  name := "t"
  columns := [⟨"a", .int, true⟩]
  key := "a"
  name_ne := by decide
  trim_name := by decide
  opening := by decide
  feed := by decide
  nonempty := by decide
  plain := List.forall_mem_singleton.2 ⟨.of_all (by decide) (by decide), by decide⟩
  keyOf := TableEntry.keyOf_spec [⟨"a", .int, true⟩]

/-- Two schema files that list the table, and one of them goes on with a line at fault. -/
def shelf : Disk :=
  let files := Assoc.insert ∅ ⟨[[0x61]]⟩ (Utf8.encode "\t\n t (a int pk)\r\n")
  { Disk.empty with files := files.insert ⟨[[0x62]]⟩ (Utf8.encode "t (a int pk)\nt a int\n") }

/-- The table is found as it has been listed, also if the next line is refused. -/
theorem loadSchema_print_numbers :
    let place : String → Path := fun n => ⟨[Utf8.encode (n ++ ".dat")]⟩
    (loadSchema {} shelf [0x2f, 0x61]).1 = .ok [numbers.id place] ∧
      (loadSchema {} shelf [0x2f, 0x62]).1 = .error (.malformedLine .shape "t a int") ∧
      (loadSchema {} shelf [0x2f, 0x62]).2.1.table (numbers.id place) =
        .ok ⟨numbers.file place, "t", "a"⟩ := by
  intro place
  have hfile : shelf.place (dataFile .root "t") = .ok (.root, some (Utf8.encode "t.dat")) := by
    decide +kernel
  have hhoused : Housed shelf .root place [numbers] :=
    ⟨List.forall_mem_singleton.2
      ⟨_, TableFile.openOrCreate_of_place hfile (by decide +kernel) numbers.schema⟩,
      List.forall_mem_singleton.2 (List.forall_mem_singleton.2 fun h => absurd rfl h)⟩
  have hgap : ∀ c, Text.isBlank c = true → Text.Blank [c] := fun c => Text.Blank.nil.cons
  have hspread : Listing [numbers] [['\t'], [' '] ++ (numbers.print ++ ['\r']), []] :=
    .blank (hgap '\t' (by decide)) (by decide) (.table (hgap ' ' (by decide)) (by decide)
      (hgap '\r' (by decide)) (by decide) (.blank .nil (by decide) .nil))
  have hplain : Listing [numbers] [[] ++ (numbers.print ++ [])] :=
    .table .nil (by decide) .nil (by decide) .nil
  have hread : shelf.readText [0x2f, 0x61] = .ok "\t\n t (a int pk)\r\n" := by decide +kernel
  have hread' : shelf.readText [0x2f, 0x62] = .ok "t (a int pk)\nt a int\n" := by decide +kernel
  have hat : shelf.locate [0x2f, 0x61] = .ok ⟨[[0x61]]⟩ := by decide +kernel
  have hat' : shelf.locate [0x2f, 0x62] = .ok ⟨[[0x62]]⟩ := by decide +kernel
  obtain ⟨hgood, -⟩ := loadSchema_print [] hat hread hspread hhoused
  obtain ⟨-, hbad⟩ := loadSchema_print [] hat' hread' hplain hhoused
  obtain ⟨herror, hloaded⟩ := hbad "t a int".toList [[]] .shape (by decide +kernel) (by decide)
    (by decide +kernel) (by decide +kernel)
  exact ⟨(hgood (by decide +kernel)).1, herror, hloaded.table_eq [] _ [] rfl (by decide)⟩

end Catalog
end TableStore

import TableStore.Catalog.Load
import TableStore.Proofs.Pool.Data

/-!
# The two indexes of the catalog

Tables are found by name and by identity.  A file that is registered may take the place of two
tables, the one with its name and the one with its identity, and each has to leave both indexes.
Here it is shown that the two indexes are inverse to each other whatever is registered, also under a
name or an identity that changes hands.

## What is here

* `Catalog.Inverse` — a table has a name exactly if the name leads to it.
* `Inverse.get?_byId_add`, `Inverse.get?_byName_add` — both indexes after a registration.
* `Catalog.Registered` — the same as it is seen by those who look for tables.
* `CatalogCall` — what is done to a catalog, and `CatalogCall.apply`.
* `Catalog.indexes_inverse` — the whole.
-/

set_option autoImplicit false
namespace TableStore
namespace Catalog

variable {c : Catalog} {file : TableFile} {name n key : String} {id i : TableId} {table : Table}

/-! ## Inverse indexes -/

/-- A name leads to the identity of the table that has it, and to no other, and every table is found
under the identity of its file. -/
structure Inverse (c : Catalog) : Prop where
  name_iff : ∀ name id, c.byName.get? name = some id ↔
    ∃ table, c.byId.get? id = some table ∧ table.name = name
  id_eq : ∀ id table, c.byId.get? id = some table → table.file.id = id

theorem Inverse.empty : Inverse {} where
  name_iff name id := by
    refine iff_of_false (fun h => by cases h) ?_
    rintro ⟨table, h, -⟩
    cases h
  id_eq _ _ h := by cases h

theorem Inverse.get?_byName (h : c.Inverse) (ht : c.byId.get? id = some table) :
    c.byName.get? table.name = some id :=
  (h.name_iff _ _).2 ⟨table, ht, rfl⟩

theorem Inverse.indexed (h : c.Inverse) : c.Indexed := fun id file hf => by
  obtain ⟨table, ht, rfl⟩ := file_eq_ok_iff.1 hf
  exact h.id_eq id table ht

/-- Tables with other names do not matter to those who look for a name. -/
theorem exists_renamed {P : Table → Prop} (hn : n ≠ name) :
    (∃ table, (P table ∧ table.name ≠ name) ∧ table.name = n) ↔ ∃ table, P table ∧ table.name = n :=
  exists_congr fun _ =>
    ⟨fun ht => ⟨ht.1.1, ht.2⟩, fun ht => ⟨⟨ht.1, fun he => hn (ht.2.symm.trans he)⟩, ht.2⟩⟩

/-! ## Leaving the catalog

A name may be registered again, and so may an identity.  Before a file enters, the tables that have
its name or its identity leave.  Each of them has to leave both indexes, and to leave the entries of
all others alone. -/

theorem get?_byName_dropName (c : Catalog) (name n : String) :
    (c.dropName name).byName.get? n = if n = name then none else c.byName.get? n := by
  rw [dropName]
  split
  · rename_i hnone
    split
    · rename_i hn
      rw [hn, hnone]
    · rfl
  · exact Assoc.get?_erase _ _ _

/-- The table with a name leaves the index of identities, too. -/
theorem Inverse.get?_byId_dropName (h : c.Inverse) :
    (c.dropName name).byId.get? i = some table ↔
      c.byId.get? i = some table ∧ table.name ≠ name := by
  have hname : ∀ id, c.byName.get? name = some id →
      (i = id ↔ ∃ table, c.byId.get? i = some table ∧ table.name = name) := fun id hid => by
    rw [← h.name_iff, hid, Option.some.injEq]
    exact eq_comm
  rw [dropName]
  split
  · rename_i hnone
    refine (and_iff_left_of_imp fun ht he => ?_).symm
    rw [← he, h.get?_byName ht] at hnone
    cases hnone
  · rename_i id hid
    dsimp only
    rw [Assoc.get?_erase]
    split
    · rename_i hi
      obtain ⟨table', ht', he⟩ := (hname id hid).1 hi
      rw [ht']
      exact iff_of_false (fun hs => by cases hs) fun hs => hs.2 <| by
        cases hs.1
        exact he
    · rename_i hi
      exact (and_iff_left_of_imp fun ht he => hi ((hname id hid).2 ⟨table, ht, he⟩)).symm

theorem get?_byId_dropId (c : Catalog) (id i : TableId) :
    (c.dropId id).byId.get? i = if i = id then none else c.byId.get? i := by
  rw [dropId]
  split
  · rename_i hnone
    split
    · rename_i hi
      rw [hi, hnone]
    · rfl
  · exact Assoc.get?_erase _ _ _

/-- The table with an identity leaves the index of names, too. -/
theorem Inverse.get?_byName_dropId (h : c.Inverse) :
    (c.dropId id).byName.get? n = some i ↔ c.byName.get? n = some i ∧ i ≠ id := by
  rw [dropId]
  split
  · rename_i hnone
    refine (and_iff_left_of_imp fun hi he => ?_).symm
    obtain ⟨table, ht, -⟩ := (h.name_iff n i).1 hi
    rw [he, hnone] at ht
    cases ht
  · rename_i table hid
    dsimp only
    rw [Assoc.get?_erase]
    split
    · rename_i hn
      rw [hn, h.get?_byName hid]
      exact iff_of_false (fun hs => by cases hs) fun hs => hs.2 (Option.some.inj hs.1).symm
    · rename_i hn
      refine (and_iff_left_of_imp fun hi he => hn ?_).symm
      obtain ⟨table', ht', hname⟩ := (h.name_iff n i).1 hi
      rw [he, hid] at ht'
      cases ht'
      exact hname.symm

theorem Inverse.dropName (h : c.Inverse) (name : String) : (c.dropName name).Inverse where
  name_iff n id := by
    simp only [get?_byName_dropName, h.get?_byId_dropName]
    split
    · rename_i hn
      subst hn
      refine iff_of_false (fun hs => by cases hs) ?_
      rintro ⟨table, hs, he⟩
      exact hs.2 he
    · rename_i hn
      rw [h.name_iff, exists_renamed hn]
  id_eq id table ht := h.id_eq id table (h.get?_byId_dropName.1 ht).1

/-! ## Entering it -/

/-- The index of identities after a table has been registered. -/
theorem Inverse.get?_byId_add (h : c.Inverse) :
    (c.add file name key).byId.get? i = some table ↔
      if i = file.id then table = ⟨file, name, key⟩
      else c.byId.get? i = some table ∧ table.name ≠ name := by
  rw [add, Assoc.get?_insert]
  split
  · rw [Option.some.injEq]
    exact eq_comm
  · rename_i hi
    rw [get?_byId_dropId, if_neg hi, h.get?_byId_dropName]

/-- The index of names after a table has been registered. -/
theorem Inverse.get?_byName_add (h : c.Inverse) :
    (c.add file name key).byName.get? n = some i ↔
      if n = name then i = file.id else c.byName.get? n = some i ∧ i ≠ file.id := by
  rw [add, Assoc.get?_insert]
  split
  · rw [Option.some.injEq]
    exact eq_comm
  · rename_i hn
    rw [(h.dropName name).get?_byName_dropId, get?_byName_dropName, if_neg hn]

/-- **Registering a table keeps the indexes inverse to each other.** -/
theorem Inverse.add (h : c.Inverse) (file : TableFile) (name key : String) :
    (c.add file name key).Inverse where
  name_iff n id := by
    simp only [h.get?_byName_add, h.get?_byId_add]
    by_cases hn : n = name <;> by_cases hid : id = file.id
    · simp only [hn, hid, ↓reduceIte, exists_eq_left]
    · -- the table that had the name is gone
      simp only [if_pos hn, if_neg hid]
      refine iff_of_false hid ?_
      rintro ⟨table, ht, he⟩
      exact ht.2 (he.trans hn)
    · -- the table that had the identity is gone
      simp only [if_neg hn, if_pos hid]
      refine iff_of_false (fun hs => hs.2 hid) ?_
      rintro ⟨table, ht, he⟩
      exact hn (by rw [← he, ht])
    · simp only [if_neg hn, if_neg hid]
      rw [h.name_iff, and_iff_left hid, exists_renamed hn]
  id_eq id table ht := by
    rw [h.get?_byId_add] at ht
    split at ht
    · rename_i hid
      rw [ht, hid]
    · exact h.id_eq id table ht.1

/-! ## Looking for tables -/

theorem table_eq_ok_iff : c.table id = .ok table ↔ c.byId.get? id = some table := by
  rw [Catalog.table]
  cases c.byId.get? id with
  | none => simp
  | some t => simp

theorem idOf_eq_ok_iff : c.idOf name = .ok id ↔ c.byName.get? name = some id := by
  rw [idOf]
  cases c.byName.get? name with
  | none => simp
  | some i => simp

/-- What is found in the catalog `c'`, in which a file has been registered, and what was found in
`c` before: the file is found by its name and its identity, the tables with its name or its identity
are not found any more, and all others are found as before. -/
structure Registered (c : Catalog) (file : TableFile) (name key : String) (c' : Catalog) :
    Prop where
  idOf_eq : c'.idOf name = .ok file.id
  table_eq : c'.table file.id = .ok ⟨file, name, key⟩
  names : ∀ n, n ≠ name → ∀ id, c'.idOf n = .ok id ↔ c.idOf n = .ok id ∧ id ≠ file.id
  tables : ∀ id, id ≠ file.id → ∀ table,
    c'.table id = .ok table ↔ c.table id = .ok table ∧ table.name ≠ name

theorem Inverse.registered (h : c.Inverse) (file : TableFile) (name key : String) :
    c.Registered file name key (c.add file name key) where
  idOf_eq := by
    rw [idOf_eq_ok_iff, h.get?_byName_add, if_pos rfl]
  table_eq := by
    rw [table_eq_ok_iff, h.get?_byId_add, if_pos rfl]
  names n hn id := by
    rw [idOf_eq_ok_iff, idOf_eq_ok_iff, h.get?_byName_add, if_neg hn]
  tables id hid table := by
    rw [table_eq_ok_iff, table_eq_ok_iff, h.get?_byId_add, if_neg hid]

/-- A name leads to an identity exactly if the identity leads to the name. -/
theorem Inverse.idOf_eq_ok_iff (h : c.Inverse) (name : String) (id : TableId) :
    c.idOf name = .ok id ↔ (c.table id).map Table.name = .ok name := by
  rw [Catalog.idOf_eq_ok_iff, h.name_iff, Catalog.table]
  cases c.byId.get? id with
  | none => simp [Except.map]
  | some table => simp [Except.map]

/-- No two tables have a name or an identity in common. -/
theorem Inverse.eq_of_common (h : c.Inverse) {id' : TableId} {table' : Table}
    (ht : c.table id = .ok table) (ht' : c.table id' = .ok table')
    (he : table.name = table'.name ∨ table.file.id = table'.file.id) :
    id = id' ∧ table = table' := by
  rw [table_eq_ok_iff] at ht ht'
  have hid : id = id' := by
    rcases he with he | he
    · have hname := h.get?_byName ht
      rw [he, h.get?_byName ht'] at hname
      exact (Option.some.inj hname).symm
    · rw [← h.id_eq id table ht, he, h.id_eq id' table' ht']
  subst hid
  rw [ht] at ht'
  exact ⟨rfl, Option.some.inj ht'⟩

/-! ## Loading

Lines are loaded one after the other, up to the first that is at fault.  What has been registered
until then stays, so the indexes have to be inverse there as well. -/

/-- What holds on when a table is registered also holds on when lines are loaded, up to the one that
is at fault. -/
theorem loadLines_induction {P : Catalog → Prop}
    (hP : ∀ c file name key, P c → P (c.add file name key)) (d : Disk) (directory : Path)
    (lines : List (List Char)) (h : P c) : P (c.loadLines d directory lines).2.1 := by
  induction lines generalizing c d with
  | nil => exact h
  | cons line rest ih =>
    rw [loadLines]
    cases hline : c.loadLine d directory line with
    | error e => exact h
    | ok run =>
      obtain ⟨id, c', d'⟩ := run
      refine ih d' (c := c') ?_
      rw [loadLine] at hline
      split at hline
      · cases hline
      · split at hline
        · cases hline
        · cases hline
          exact hP _ _ _ _ h

theorem Inverse.loadSchema (h : c.Inverse) (d : Disk) (b : Bytes) :
    (c.loadSchema d b).2.1.Inverse := by
  rw [Catalog.loadSchema]
  split
  · exact h
  · split
    · exact h
    · exact loadLines_induction (fun _ file name key hc => hc.add file name key) _ _ _ h

end Catalog

/-! ## Calls -/

/-- What is done to a catalog. -/
inductive CatalogCall where
  | add (file : TableFile) (name key : String)
  | clear
  /-- A schema file is loaded, from whatever the file system is then. -/
  | load (d : Disk) (b : Bytes)

/-- What becomes of a catalog.  Tables that were registered before a line is found at fault stay
registered. -/
def CatalogCall.apply (c : Catalog) : CatalogCall → Catalog
  | add file name key => c.add file name key
  | clear => {}
  | load d b => (c.loadSchema d b).2.1

theorem Catalog.Inverse.apply {c : Catalog} (h : c.Inverse) (call : CatalogCall) :
    (call.apply c).Inverse := by
  cases call with
  | add file name key => exact h.add file name key
  | clear => exact .empty
  | load d b => exact h.loadSchema d b

theorem Catalog.Inverse.foldl_apply {c : Catalog} (h : c.Inverse) (calls : List CatalogCall) :
    (calls.foldl CatalogCall.apply c).Inverse :=
  List.foldlRecOn calls CatalogCall.apply h fun _ hc call _ => hc.apply call

/-- **The two indexes of a catalog are inverse to each other**, after any calls with any files,
names and schema files.  So looking up a name and looking up an identity undo each other, and no two
tables have a name or an identity in common.  A file that is registered is then found by its name
and its identity, exactly the tables with that name or that identity are unregistered, and all
others stay as they are. -/
theorem Catalog.indexes_inverse (calls : List CatalogCall) :
    let c := calls.foldl CatalogCall.apply {}
    c.Inverse ∧
      (∀ name id, c.idOf name = .ok id ↔ (c.table id).map Table.name = .ok name) ∧
      (∀ id id' table table', c.table id = .ok table → c.table id' = .ok table' →
        table.name = table'.name ∨ table.file.id = table'.file.id → id = id' ∧ table = table') ∧
      ∀ file name key, c.Registered file name key (c.add file name key) := by
  intro c
  have h : c.Inverse := Catalog.Inverse.empty.foldl_apply calls
  exact ⟨h, h.idOf_eq_ok_iff, fun _ _ _ _ ht ht' he => h.eq_of_common ht ht' he, h.registered⟩

end TableStore

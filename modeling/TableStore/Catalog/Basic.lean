import TableStore.TableFile

/-!
# The catalog

The tables that a pool can load pages from, each with a name, a file and the name of its primary
key.  No two tables share a name or an identity.

## What is here

* `Table`, `Catalog` — a table, and the two indexes by which tables are found.
* `Catalog.add` — registers a file under a name.  It takes the place of the table with that name
  and of the table with that identity, which may be two.
* `Catalog.idOf`, `Catalog.table` — finding by name and by identity.
-/

set_option autoImplicit false
namespace TableStore

/-- A registered table. -/
structure Table where
  file : TableFile
  name : String
  /-- The name of the primary key; empty if there is none. -/
  key : String
  deriving DecidableEq

/-- The registered tables, by identity and by name. -/
structure Catalog where
  byId : Assoc TableId Table := ∅
  byName : Assoc String TableId := ∅
  deriving DecidableEq

namespace Catalog

/-- Unregisters the table with a name. -/
def dropName (c : Catalog) (name : String) : Catalog :=
  match c.byName.get? name with
  | none => c
  | some id => { byId := c.byId.erase id, byName := c.byName.erase name }

/-- Unregisters the table with an identity. -/
def dropId (c : Catalog) (id : TableId) : Catalog :=
  match c.byId.get? id with
  | none => c
  | some table => { byId := c.byId.erase id, byName := c.byName.erase table.name }

/-- Registers a file under a name, in the place of the tables with its name or its identity. -/
def add (c : Catalog) (file : TableFile) (name key : String) : Catalog :=
  let c := (c.dropName name).dropId file.id
  { byId := c.byId.insert file.id { file, name, key }
    byName := c.byName.insert name file.id }

/-- The table with an identity. -/
def table (c : Catalog) (id : TableId) : Except Error Table :=
  match c.byId.get? id with
  | none => .error (.unknownTable id)
  | some table => .ok table

/-- The file of the table with an identity. -/
def file (c : Catalog) (id : TableId) : Except Error TableFile := (c.table id).map Table.file

/-- The identity of the table with a name. -/
def idOf (c : Catalog) (name : String) : Except Error TableId :=
  match c.byName.get? name with
  | none => .error (.unknownName name)
  | some id => .ok id

/-- The identities of all tables. -/
def ids (c : Catalog) : List TableId := c.byId.keys

end Catalog
end TableStore

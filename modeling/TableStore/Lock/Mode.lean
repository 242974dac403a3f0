/-!
# Lock modes and access

A page is locked shared, along with other readers, or exclusively.  A caller asks for access, and
the access decides the mode.
-/

set_option autoImplicit false
namespace TableStore

/-- The mode of a lock. -/
inductive Mode where
  | shared
  | exclusive
  deriving DecidableEq, Repr, Inhabited

/-- The mode as it is called. -/
def Mode.name : Mode → String
  | shared => "Shared"
  | exclusive => "Exclusive"

/-- What a caller wants to do with a page. -/
inductive Access where
  | readOnly
  | readWrite
  deriving DecidableEq, Repr, Inhabited

/-- Reading takes a shared lock, writing an exclusive one. -/
def Access.mode : Access → Mode
  | readOnly => .shared
  | readWrite => .exclusive

end TableStore

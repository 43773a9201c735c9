/-! Which attributes of a record an update writes, by dotted path. -/

set_option autoImplicit false

namespace RecordMerge

/-- Every path but the listed ones, or the listed ones only. -/
inductive Selection where
  | allExcept (paths : List String)
  | only (paths : List String)
  deriving DecidableEq, Repr

/-- What an update writes: the selected paths that are not excluded. Insert-only paths keep a stored
value, and nulls are written on request only. -/
structure Policy where
  selection : Selection := .allExcept []
  exclude : List String := []
  insertOnly : List String := []
  writeNulls : Bool := false
  deriving DecidableEq, Repr

namespace Policy

def all (insertOnly : List String) (writeNulls : Bool) : Policy :=
  { insertOnly, writeNulls }

def only (paths insertOnly : List String) (writeNulls : Bool) : Policy :=
  { selection := .only paths, insertOnly, writeNulls }

def excluding (paths insertOnly : List String) (writeNulls : Bool) : Policy :=
  { exclude := paths, insertOnly, writeNulls }

def withInsertOnly (policy : Policy) (paths : List String) : Policy :=
  { policy with insertOnly := policy.insertOnly ++ paths }

/-- Whether the selection takes a path; exclusion is a matter of its own. -/
def includes (policy : Policy) (path : String) : Bool :=
  match policy.selection with
  | .only paths => paths.contains path
  | .allExcept paths => !paths.contains path

def selects (policy : Policy) (path : String) : Bool :=
  !policy.exclude.contains path && policy.includes path

/-- Only and excluding the same paths select complementary paths. -/
theorem selects_only_ne_excluding (paths insertOnly : List String) (writeNulls : Bool)
    (path : String) :
    (only paths insertOnly writeNulls).selects path =
      !(excluding paths insertOnly writeNulls).selects path := by
  simp [only, excluding, selects, includes]

end Policy

end RecordMerge

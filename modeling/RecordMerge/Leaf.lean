import RecordMerge.KeySchema
import RecordMerge.Policy

/-! The leaves of a record: the positions below its maps that an update writes. -/

set_option autoImplicit false

namespace RecordMerge

def dotted (path : List String) : String :=
  ".".intercalate path

/-- A value to write, the path to write it at, and whether a stored value there is kept. -/
structure Leaf where
  path : List String
  value : Value
  insertOnly : Bool
  deriving Repr

namespace Leaf

/-- Whether a value that is no map with entries is written at a path. -/
def selected (policy : Policy) (path : String) (value : Value) : Bool :=
  !value.isUnset && (!value.isNull || policy.writeNulls) && policy.selects path

/-- What a walk meets: leaves, and names that cannot be read. -/
abbrev Visit := Except Failure Leaf

mutual

/-- What a walk meets at or below a position. There is nothing at a path of the given key attributes; a
map with entries is descended into, whether or not it is selected itself. -/
def below (keys : List String) (policy : Policy) (path : List String) : Value → List Visit
  | .map (entry :: rest) =>
    if keys.contains (dotted path) then [] else ofEntries keys policy path (entry :: rest)
  | value =>
    if keys.contains (dotted path) || !selected policy (dotted path) value then []
    else [.ok ⟨path, value, policy.insertOnly.contains (dotted path)⟩]

def ofEntries (keys : List String) (policy : Policy) (parent : List String) :
    List (Value × Value) → List Visit
  | [] => []
  | (key, value) :: rest =>
    (match key.toText? with
    | some name => below keys policy (parent ++ [name]) value
    | none => [.error (.reading .wrongKind)]) ++ ofEntries keys policy parent rest

end

end Leaf

/-- A walk through a record: the leaves up to its end, or up to the fault that ended it early. -/
structure Walk where
  leaves : List Leaf
  fault : Option Failure
  deriving Repr

namespace Walk

/-- The visits up to the first fault. -/
def ofVisits : List Leaf.Visit → Walk
  | [] => ⟨[], none⟩
  | .ok leaf :: rest =>
    let walk := ofVisits rest
    ⟨leaf :: walk.leaves, walk.fault⟩
  | .error failure :: _ => ⟨[], some failure⟩

/-- The leaves of a walk that came to its end. -/
def complete (walk : Walk) : Except Failure (List Leaf) :=
  match walk.fault with
  | some failure => .error failure
  | none => .ok walk.leaves

theorem ofVisits_map_ok (leaves : List Leaf) : ofVisits (leaves.map .ok) = ⟨leaves, none⟩ := by
  induction leaves with
  | nil => rfl
  | cons leaf rest tail => simp [ofVisits, tail]

end Walk

/-- The walk through the leaves of a record that a policy selects, past the given key attributes. -/
def Record.walkPast (record : Record) (keys : List String) (policy : Policy) : Walk :=
  .ofVisits (Leaf.ofEntries keys policy [] record)

/-- The walk through the leaves of a record that a policy selects; identity attributes are never
among them. -/
def Record.walk (record : Record) (schema : KeySchema) (policy : Policy) : Walk :=
  record.walkPast schema.names policy

/-- The leaves of a record, as far as a walk comes. -/
def Record.leaves (record : Record) (schema : KeySchema) (policy : Policy) : List Leaf :=
  (record.walk schema policy).leaves

theorem Leaf.ofEntries_append (keys : List String) (policy : Policy) (parent : List String)
    (first second : Record) :
    Leaf.ofEntries keys policy parent (first ++ second) =
      Leaf.ofEntries keys policy parent first ++ Leaf.ofEntries keys policy parent second := by
  induction first with
  | nil => simp [Leaf.ofEntries]
  | cons entry rest tail =>
    obtain ⟨key, value⟩ := entry
    simp [Leaf.ofEntries, tail]

end RecordMerge

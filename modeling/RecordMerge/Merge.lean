import RecordMerge.Leaf

/-! Merging a record into a stored one, leaf by leaf. -/

set_option autoImplicit false

namespace RecordMerge.Record

/-- The entries of the map under a name; anything else has none. -/
def branch (name : String) (record : Record) : Record :=
  match record.get? name with
  | some (.map entries) => entries
  | _ => []

/-- Write a value at a path. Values on the way that are no maps become maps. With `keep`, a value
that the path already has stays. -/
def write (value : Value) (keep : Bool) : List String → Record → Record
  | [], record => record
  | [name], record => if keep && record.contains name then record else record.set name value
  | name :: rest, record => record.set name (.map (write value keep rest (record.branch name)))

def writeLeaf (record : Record) (leaf : Leaf) : Record :=
  write leaf.value.copied leaf.insertOnly leaf.path record

def setAll (record identity : Record) : Record :=
  identity.foldl (fun written entry => written.set entry.1.toText entry.2) record

/-- The stored record with the selected leaves of the incoming one written into it, and with the
identity of the incoming one. Both records are trees: no map of the stored record stands at a second
place in it, where a write would show as well. -/
def merge (current incoming : Record) (schema : KeySchema) (policy : Policy) :
    Except Failure Record := do
  let leaves ← (incoming.walk schema policy).complete
  let written := leaves.foldl writeLeaf (Value.copiedEntries current)
  let identity ← schema.keyOf incoming
  .ok (setAll written identity)

theorem write_single (value : Value) (name : String) (record : Record) :
    write value false [name] record = record.set name value := by
  simp [write]

end RecordMerge.Record

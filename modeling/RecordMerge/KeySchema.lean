import RecordMerge.Failure

/-! The attributes that identify a record, and the forms in which an identity may be given. -/

set_option autoImplicit false

namespace RecordMerge

/-- A partition attribute and, for some tables, a sort attribute: two different non-empty names. -/
structure KeySchema where
  partition : String
  sort : Option String
  partition_ne : partition ≠ ""
  sort_ne : sort ≠ some ""
  distinct : sort ≠ some partition
  deriving Repr

namespace KeySchema

/-- The schema of the given names, unless one is empty or both are equal. -/
def ofNames (partition : String) (sort : Option String) : Except Failure KeySchema :=
  if empty : partition = "" then .error (.key .partitionNameEmpty)
  else if emptySort : sort = some "" then .error (.key .sortNameEmpty)
  else if equal : sort = some partition then .error (.key .namesEqual)
  else .ok ⟨partition, sort, empty, emptySort, equal⟩

/-- The key attributes, the partition first. -/
def names (schema : KeySchema) : List String :=
  match schema.sort with
  | none => [schema.partition]
  | some sort => [schema.partition, sort]

def isKeyPath (schema : KeySchema) (path : String) : Bool :=
  path == schema.partition || schema.sort == some path

theorem isKeyPath_iff (schema : KeySchema) (path : String) :
    schema.isKeyPath path = true ↔ path ∈ schema.names := by
  obtain ⟨partition, sort, _, _, _⟩ := schema
  cases sort with
  | none => simp [isKeyPath, names]
  | some name => simp [isKeyPath, names, @eq_comm _ name path]

/-- The identity value of one attribute; null and unset are no identity. -/
def identityOf (record : Record) (name : String) : Except Failure Value :=
  match record.get? name with
  | none | some .null | some .unset => .error (.key (.missing name))
  | some value => .ok value

/-- Identity values of the named attributes, in the order of the names. -/
def identities (record : Record) : List String → Except Failure Record
  | [] => .ok []
  | name :: rest => do
    let value ← identityOf record name
    let others ← identities record rest
    .ok ((.text name, value) :: others)

def keyOf (schema : KeySchema) (record : Record) : Except Failure Record :=
  identities record schema.names

/-- The identity with the given values; null stands for a value that is not given. -/
def keyFrom (schema : KeySchema) (partition sort : Value) : Except Failure Record :=
  if partition.isNull then .error (.key .partitionMissing)
  else match schema.sort with
    | none =>
      if sort.isNull then .ok [(.text schema.partition, partition)]
      else .error (.key .sortUndefined)
    | some name =>
      if sort.isNull then .error (.key .sortMissing)
      else .ok [(.text schema.partition, partition), (.text name, sort)]

/-- The identity that a key stands for: a record, a pair, or a bare partition value where there is
no sort attribute. -/
def normalizeBy (keyOf : Record → Except Failure Record)
    (keyFrom : Value → Value → Except Failure Record) (sorted : Bool) (key : Value) :
    Except Failure Record :=
  match key, sorted with
  | .map record, _ => keyOf record
  | .tuple [partition, sort], false =>
    if sort.isNull then keyFrom partition .null else .error (.key .sortNotNull)
  | .tuple _, false => .error (.key .pairWithoutSortExpected)
  | partition, false => keyFrom partition .null
  | .tuple [partition, sort], true => keyFrom partition sort
  | _, true => .error (.key .pairExpected)

def normalize (schema : KeySchema) (key : Value) : Except Failure Record :=
  normalizeBy schema.keyOf schema.keyFrom schema.sort.isSome key

end KeySchema

end RecordMerge

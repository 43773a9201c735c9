import RecordMerge.Entries
import RecordMerge.KeySchema
import RecordMerge.Value.Equality
import RecordMerge.Value.KeyForm

/-! Key attributes under names of any kind. A name finds an entry by equality of values, so that one
and 1.0 are the same name; a name that cannot be a key finds nothing and fails. -/

set_option autoImplicit false

namespace RecordMerge

/-- The name of a partition attribute, and that of a sort attribute or null. -/
structure LooseKeys where
  partition : Value
  sort : Value
  deriving Repr

namespace LooseKeys

/-- The keys of the given names, unless one is absent or empty or both are equal. -/
def ofNames (partition sort : Value) : Except Failure LooseKeys :=
  if !partition.truthy then .error (.key .partitionNameEmpty)
  else if !sort.isNull && !sort.truthy then .error (.key .sortNameEmpty)
  else match sort.compare? partition with
    | some false => .ok ⟨partition, sort⟩
    | some true => .error (.key .namesEqual)
    | none => .error .incomparable

/-- The names, that of the partition first. -/
def names (keys : LooseKeys) : List Value :=
  if keys.sort.isNull then [keys.partition] else [keys.partition, keys.sort]

/-- The names that can be paths of leaves. -/
def texts (keys : LooseKeys) : List String :=
  keys.names.filterMap Value.text?

def find (record : Record) (name : Value) : Except Failure (Option Value) :=
  if name.canBeKey then .ok (Entries.get? record name) else .error (.reading .wrongKind)

/-- The failure of a record without a value under a name, unless the name cannot even be shown. -/
def missing (name : Value) : Failure :=
  match name.toText? with
  | some text => .key (.missing text)
  | none => .reading .wrongKind

/-- The identity value that was found under a name; null and unset are no identity. -/
def identityOf (name : Value) (found : Option Value) : Except Failure Value :=
  match found with
  | none | some .null | some .unset => .error (missing name)
  | some value => .ok value

def identities (record : Record) : List Value → Except Failure Record
  | [] => .ok []
  | name :: rest => do
    let value ← identityOf name (← find record name)
    let others ← identities record rest
    .ok ((name, value) :: others)

def keyOf (keys : LooseKeys) (record : Record) : Except Failure Record :=
  identities record keys.names

/-- The identity with the given values; null stands for a value that is not given. -/
def keyFrom (keys : LooseKeys) (partition sort : Value) : Except Failure Record :=
  if partition.isNull then .error (.key .partitionMissing)
  else if keys.sort.isNull && !sort.isNull then .error (.key .sortUndefined)
  else if !keys.sort.isNull && sort.isNull then .error (.key .sortMissing)
  else if keys.names.all Value.canBeKey then .ok (keys.names.zip [partition, sort])
  else .error (.reading .wrongKind)

/-- The identity with the given values, none of which may be unset either. The names need not be looked
for, so that a not-a-number, which equals nothing, is as good a name as any. -/
def identityFrom (keys : LooseKeys) (partition sort : Value) : Except Failure Record := do
  (← keys.keyFrom partition sort).mapM fun (name, value) => do
    .ok (name, ← identityOf name (some value))

def normalize (keys : LooseKeys) (key : Value) : Except Failure Record :=
  KeySchema.normalizeBy keys.keyOf keys.keyFrom (!keys.sort.isNull) key

/-- A text finds what the attribute of that name holds. -/
theorem find_text (record : Record) (name : String) :
    find record (.text name) = .ok (record.get? name) := by
  have agree : Entries.get? record (.text name) = record.get? name := by
    induction record with
    | nil => rfl
    | cons entry rest tail =>
      obtain ⟨key, value⟩ := entry
      have other : (key == Value.text name) = Value.same key (.text name) := rfl
      cases key <;>
        simp_all [Entries.get?, Record.get?, Value.same, Value.compare?, Value.compareNumbers?,
          Value.isNumeric]
  simp [find, agree]

/-- Under texts, identities are those of the attributes of these names. -/
theorem identities_texts (record : Record) (names : List String) :
    identities record (names.map .text) = KeySchema.identities record names := by
  induction names with
  | nil => rfl
  | cons name rest tail =>
    simp only [List.map_cons, identities, KeySchema.identities, find_text, KeySchema.identityOf, tail]
    cases found : record.get? name with
    | none => simp [bind, Except.bind, identityOf, missing]
    | some value => cases value <;> simp [bind, Except.bind, identityOf, missing]

end LooseKeys

end RecordMerge

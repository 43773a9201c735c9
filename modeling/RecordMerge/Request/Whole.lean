import RecordMerge.Attribute.Load
import RecordMerge.Request

/-! Requests that write or read a record as a whole. -/

set_option autoImplicit false

namespace RecordMerge

/-- The condition of a full write; an absent or empty part is left out. -/
def PutCondition.ofParts (condition names values : Value) : Except Failure PutCondition := do
  let names ← if names.truthy then names.loadPairs else .ok []
  let values ← if values.truthy then values.asRecord.bind storeValues else .ok []
  .ok ⟨condition, names, values⟩

namespace Request

/-- The request that writes a record under its table's name, under a condition if one is given. -/
def ofRecord (table : String) (record : Record) (condition names values : Value) :
    Except Failure Request := do
  let item ← record.store
  let condition ← PutCondition.ofParts condition names values
  .ok (.put table item condition)

def ofIdentity (table : String) (identity : Record) (consistent : Value) :
    Except Failure Request := do
  .ok (.get table (← identity.store) consistent)

end Request

/-- The item of a response under a name; an absent or empty one is no item. -/
def itemOf (name : String) (response : Record) : Except Failure (Option Record) :=
  match response.get? name with
  | none => .ok none
  | some item => if item.truthy then item.loadItem.map some else .ok none

end RecordMerge

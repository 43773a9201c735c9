import RecordMerge.Bindings
import RecordMerge.Condition
import RecordMerge.Merge
import RecordMerge.Table
import RecordMerge.Update

/-! Partial writes that recover. An update that the stored item cannot take is merged into it; an
update of a record that is not stored inserts it, if it may. -/

set_option autoImplicit false

namespace RecordMerge

/-- Whether a write may create a record. -/
inductive WriteMode where
  | update
  | upsert
  deriving DecidableEq, Repr

/-- What a write did. -/
inductive WriteOutcome where
  | applied
  | merged
  | inserted
  | rejected
  deriving DecidableEq, Repr

namespace WriteOutcome

def label : WriteOutcome → String
  | .applied => "applied"
  | .merged => "merged"
  | .inserted => "inserted"
  | .rejected => "rejected"

def stored (outcome : WriteOutcome) : Bool :=
  outcome != .rejected

/-- Whether a label reports a stored record: every label does but that of a rejected write. -/
def labelStored (label : String) : Bool :=
  label != rejected.label

theorem labelStored_label (outcome : WriteOutcome) :
    labelStored outcome.label = outcome.stored := by
  cases outcome <;> decide +kernel

end WriteOutcome

/-- The outcome of a write, with the record where it is known. -/
structure WriteResult where
  outcome : WriteOutcome
  item : Option Record
  deriving Repr

namespace Table

/-- Guard the key attributes: each of them must exist. The second part are the conditions. -/
def guardKeys (names : List (String × String)) :
    List String → Except Failure (List (String × String) × List String)
  | [] => .ok (names, [])
  | key :: rest => do
    let placeholder ← Placeholder.ofName key
    let names ← Bindings.mergedNames names [(placeholder, key)]
    let (names, conditions) ← guardKeys names rest
    .ok (names, ("attribute_exists(" ++ placeholder ++ ")") :: conditions)

/-- The tables of an update with those of a condition merged into them, and the condition in
parentheses; an empty condition adds nothing. -/
def bindCondition (update : Update) (condition : String) (given : Value) :
    Except Failure (List (String × String) × List (String × Value) × List String) := do
  if condition = "" then .ok (update.names, update.values, [])
  else
    let found ← Condition.parse condition given
    let names ← Bindings.mergedNames update.names found.names
    let values ← Bindings.mergedValues update.values found.values
    .ok (names, values, ["(" ++ condition ++ ")"])

def requestOf (table : Table) (update : Update) (record : Record) (condition : String)
    (given : Value) : Except Failure UpdateRequest := do
  let (names, values, conditions) ← bindCondition update condition given
  let (names, guards) ← guardKeys names table.schema.names
  let identity ← table.schema.keyOf record
  let key ← identity.store
  let values ← storeValues values
  .ok ⟨table.name, key, update.text, " AND ".intercalate (conditions ++ guards), names, values⟩

/-- The request that writes what a policy selects of a record, under a condition if one is given. -/
def updateRequest (table : Table) (record : Record) (policy : Policy) (condition : String)
    (given : Value) : Except Failure UpdateRequest := do
  let update ← Update.compile record table.schema policy
  table.requestOf update record condition given

def compiledNote (update : Update) : Event :=
  .compiled update.text update.names.length update.values.length

/-- Note an update as soon as it is compiled. -/
def noted (update : Except Failure Update) : Exchange Update := do
  let update ← .done update
  Exchange.report (compiledNote update)
  pure update

def prepare (table : Table) (record : Record) (policy : Policy) (condition : String)
    (given : Value) : Exchange UpdateRequest := do
  let update ← noted (Update.compile record table.schema policy)
  .done (table.requestOf update record condition given)

def insert (table : Table) (record identity : Record) : Exchange WriteResult := do
  table.put record .null .null .null
  Exchange.report (.inserted table.name identity)
  pure ⟨.inserted, some record⟩

/-- Recover from an update that the stored item cannot take: read the item, merge the record into
it, and write it back as a whole. Where nothing is stored, an upsert inserts. -/
def recoverMismatch (table : Table) (mode : WriteMode) (record identity : Record)
    (policy : Policy) : Exchange WriteResult := do
  Exchange.report (.mismatched table.name identity)
  match ← table.fetch (.map identity) (.bool true) with
  | some current =>
    let merged ← .done (Record.merge current record table.schema policy)
    table.put merged .null .null .null
    Exchange.report (.replaced table.name identity)
    pure ⟨.merged, some merged⟩
  | none =>
    match mode with
    | .update =>
      Exchange.report (.skipped table.name identity)
      pure ⟨.rejected, none⟩
    | .upsert => table.insert record identity

/-- Recover from a condition that failed. With a stored item the write is rejected; without one an
upsert inserts. -/
def recoverCondition (table : Table) (mode : WriteMode) (record identity : Record)
    (error : ServiceError) : Exchange WriteResult := do
  if error.item.truthy then
    Exchange.report (.refused table.name identity)
    pure ⟨.rejected, none⟩
  else match mode with
    | .update =>
      Exchange.report (.skipped table.name identity)
      pure ⟨.rejected, none⟩
    | .upsert =>
      Exchange.report (.inserting table.name identity)
      table.insert record identity

/-- Go on with an error answer to an update, by what it means. -/
def recover (table : Table) (mode : WriteMode) (record identity : Record) (policy : Policy)
    (error : ServiceError) : Exchange WriteResult :=
  match table.classify error.codeText error.messageText with
  | .schemaMismatch => table.recoverMismatch mode record identity policy
  | .conditionFailed => table.recoverCondition mode record identity error
  | .unclassified => .fail error.failure

/-- Write what a policy selects of a record, and recover where that is possible. -/
def apply (table : Table) (mode : WriteMode) (record : Record) (policy : Policy)
    (condition : String) (given : Value) : Exchange WriteResult := do
  let request ← table.prepare record policy condition given
  let identity ← .done (table.schema.keyOf record)
  match ← Exchange.ask (.update request) with
  | .response fields =>
    let item ← .done (itemOf "Attributes" fields)
    pure ⟨.applied, item⟩
  | .refused error => table.recover mode record identity policy error
  | .failed failure => .fail failure

def update (table : Table) (record : Record) (policy : Policy) (condition : String)
    (given : Value) : Exchange WriteResult :=
  table.apply .update record policy condition given

/-- Write what a policy selects of a record, which is stored as a whole where it is missing. -/
def upsert (table : Table) (record : Record) (policy : Policy) (insertOnly : List String)
    (condition : String) (given : Value) : Exchange WriteResult :=
  table.apply .upsert record (policy.withInsertOnly insertOnly) condition given

end Table

end RecordMerge

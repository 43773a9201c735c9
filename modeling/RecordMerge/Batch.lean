import RecordMerge.Batch.Group
import RecordMerge.Batch.Split
import RecordMerge.Schedule
import RecordMerge.Table
import RecordMerge.Value.Order

/-! Many records at once. All elements are checked before the first group is sent. -/

set_option autoImplicit false

namespace RecordMerge

/-- Validated groups that are ready to be sent, and the note on them. Without elements there is
neither. -/
structure Batch (Result : Type) where
  note : Option Event
  groups : List (Exchange Result)
  retries : Nat

namespace Batch

/-- Each element by the same reader; the first failure in order ends the batch. -/
def prepareAll (prepare : Value → Except Failure Value) :
    List Value → Except Failure (List Value)
  | [] => .ok []
  | element :: rest => do
    let first ← prepare element
    let others ← prepareAll prepare rest
    .ok (first :: others)

def prepareEach (prepare : Value → Except Failure Value) (elements : Value) :
    Except Failure (List Value) := do
  prepareAll prepare (← elements.asRow)

def empty {Result : Type} : Batch Result := ⟨none, [], 0⟩

def noted {Result : Type} (batch : Batch Result) : List Exchange.Step :=
  match batch.note with
  | some event => [.note event]
  | none => []

/-- Run the groups side by side. With `suspending`, a pause gives way to the other groups. -/
def run {Result Client : Type} (respond : Client → Request → Answer × Client) (suspending : Bool)
    (batch : Batch Result) (client : Client) : Exchange.Run Client (List Result) :=
  let rounds := if suspending then batch.retries + 1 else 0
  let done := Schedule.run respond rounds batch.groups client
  { done with steps := batch.noted ++ done.steps }

/-- Run groups of reads. The records are those of the first group, then those of the next, whichever
ended first. -/
def read {Client : Type} (respond : Client → Request → Answer × Client) (suspending : Bool)
    (batch : Batch (List Record)) (client : Client) : Exchange.Run Client (List Record) :=
  let done := batch.run respond suspending client
  { done with result := done.result.map List.flatten }

/-- The number of retries that some number allows, which must not be negative. A group may go on as long
as it has sent again less often. -/
def retriesOf (given : Value) : Except Failure Nat := do
  if ← given.negative then .error (.setting .negativeRetries) else .ok given.ceiling

def putEntry (keyOf : Record → Except Failure Record) (record : Value) : Except Failure Value := do
  let record ← record.asRecord
  let _ ← keyOf record
  let item ← record.store
  .ok (.ofNames [("PutRequest", .ofNames [("Item", Attribute.wireItem item)])])

def keyEntry (normalize : Value → Except Failure Record) (key : Value) : Except Failure Value := do
  let identity ← normalize key
  .ok (Attribute.wireItem (← identity.store))

def deleteEntry (normalize : Value → Except Failure Record) (key : Value) :
    Except Failure Value := do
  .ok (.ofNames [("DeleteRequest", .ofNames [("Key", ← keyEntry normalize key)])])

def writes (table operation : String) (entries : List Value) (retries : Value) (pauses : Bool) :
    Except Failure (Batch Unit) := do
  let retries ← retriesOf retries
  if entries.isEmpty then .ok .empty
  else
    let groups := split writeLimit entries
    .ok ⟨some (.writing operation entries.length groups.length),
      groups.map fun group => writeGroup table operation ⟨retries, pauses⟩ retries (.list group),
      retries⟩

/-- Writes of whole records, each of which must have an identity. -/
def puts (table : String) (keyOf : Record → Except Failure Record) (records retries : Value)
    (pauses : Bool) : Except Failure (Batch Unit) := do
  let entries ← prepareEach (putEntry keyOf) records
  writes table "batch_put" entries retries pauses

def deletes (table : String) (normalize : Value → Except Failure Record) (keys retries : Value)
    (pauses : Bool) : Except Failure (Batch Unit) := do
  let entries ← prepareEach (deleteEntry normalize) keys
  writes table "batch_delete" entries retries pauses

/-- Reads of the records that keys stand for. The number of retries is checked before the keys. -/
def reads (table : String) (normalize : Value → Except Failure Record)
    (keys consistent retries : Value) (pauses : Bool) : Except Failure (Batch (List Record)) := do
  let retries ← retriesOf retries
  if !keys.truthy then .ok .empty
  else
    let entries ← prepareEach (keyEntry normalize) keys
    let groups := split readLimit entries
    .ok ⟨some (.reading entries.length groups.length),
      groups.map fun group => readGroup table consistent ⟨retries, pauses⟩ retries [] (.list group),
      retries⟩

end Batch

namespace Table

/-- Write records. All of them are checked before the first is sent. -/
def batchPut (table : Table) (records retries : Value) (pauses : Bool) :
    Except Failure (Batch Unit) :=
  Batch.puts table.name table.schema.keyOf records retries pauses

/-- Delete the records that keys stand for. All keys are checked before the first is sent. -/
def batchDelete (table : Table) (keys retries : Value) (pauses : Bool) :
    Except Failure (Batch Unit) :=
  Batch.deletes table.name table.schema.normalize keys retries pauses

def batchGet (table : Table) (keys consistent retries : Value) (pauses : Bool) :
    Except Failure (Batch (List Record)) :=
  Batch.reads table.name table.schema.normalize keys consistent retries pauses

end Table

end RecordMerge

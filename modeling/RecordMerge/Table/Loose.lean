import RecordMerge.Batch
import RecordMerge.KeySchema.Loose
import RecordMerge.Reconcile

/-! Tables with key attributes under names that are no texts. Whole records are written and read as in
any table. An update has to guard the key attributes by name, so that none is ever sent. -/

set_option autoImplicit false

namespace RecordMerge

/-- A table with key attributes under names of any kind, not all of them texts. -/
structure LooseTable where
  name : String
  keys : LooseKeys

namespace LooseTable

def put (table : LooseTable) (record : Record) (condition names values : Value) : Exchange Unit :=
  .write do
    let _ ← table.keys.keyOf record
    Request.ofRecord table.name record condition names values

def fetch (table : LooseTable) (key consistent : Value) : Exchange (Option Record) :=
  .read do Request.ofIdentity table.name (← table.keys.normalize key) consistent

/-- Read the record with the given identity values; null stands for a value that is not given. -/
def get (table : LooseTable) (partition sort consistent : Value) : Exchange (Option Record) :=
  .read do
    Request.ofIdentity table.name (← table.keys.identityFrom partition sort) consistent

def batchPut (table : LooseTable) (records retries : Value) (pauses : Bool) :
    Except Failure (Batch Unit) :=
  Batch.puts table.name table.keys.keyOf records retries pauses

def batchDelete (table : LooseTable) (keys retries : Value) (pauses : Bool) :
    Except Failure (Batch Unit) :=
  Batch.deletes table.name table.keys.normalize keys retries pauses

def batchGet (table : LooseTable) (keys consistent retries : Value) (pauses : Bool) :
    Except Failure (Batch (List Record)) :=
  Batch.reads table.name table.keys.normalize keys consistent retries pauses

/-- The names that an update can guard before it comes to one that it cannot. -/
def guardable (table : LooseTable) : List String :=
  (table.keys.names.takeWhile fun name => name.text?.isSome).filterMap Value.text?

/-- Refuse an update. It is compiled and noted, its condition and the first guards are bound, and the
guard of a name that is no text fails. -/
def refuse {Result : Type} (table : LooseTable) (record : Record) (policy : Policy)
    (condition : Except Failure String) (given : Value) : Exchange Result := do
  let update ← Table.noted (Update.ofWalk (record.walkPast table.keys.texts policy))
  .done do
    let (names, _) ← Table.bindCondition update (← condition) given
    let _ ← Table.guardKeys names table.guardable
    .error (.reading .wrongKind)

end LooseTable

end RecordMerge

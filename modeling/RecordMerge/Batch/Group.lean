import RecordMerge.Backoff
import RecordMerge.Exchange
import RecordMerge.Request.Whole

/-! One group of a batch. It sends what the service hands back again, with a pause before every
further attempt. -/

set_option autoImplicit false

namespace RecordMerge.Batch

/-- What each group is allowed: how often it may send again, and whether it pauses before. -/
structure Limits where
  retries : Nat
  pauses : Bool
  deriving Repr

def waitBefore (limits : Limits) (attempt : Nat) : Exchange Unit :=
  if limits.pauses then
    match Backoff.seconds? attempt with
    | some seconds => .pause seconds (pure ())
    | none => .fail .backoffTooLong
  else pure ()

/-- Go on with what was handed back: nothing ends the group, and something is sent again if there
may be another attempt. -/
def resume {Result : Type} (operation : String) (pending : Value) (finished : Result)
    (again : Option (Value → Exchange Result)) : Exchange Result :=
  if pending.truthy then
    match again with
    | some next => next pending
    | none =>
      match pending.size? with
      | some count => .fail (.retriesExhausted operation count)
      | none => .fail (.reading .wrongKind)
  else pure finished

/-- The value under a table's name in a field that holds a map from tables. A missing field and a
missing table both count as `missing`. -/
def underTable (response : Record) (name table : String) (missing : Value) :
    Except Failure Value :=
  match response.get? name with
  | none => .ok missing
  | some held => do .ok (((← held.asRecord).get? table).getD missing)

def unprocessedWrites (table : String) (response : Record) : Except Failure Value :=
  underTable response "UnprocessedItems" table (.list [])

def unprocessedKeys (table : String) (response : Record) : Except Failure Value := do
  let held ← underTable response "UnprocessedKeys" table (.map [])
  .ok (((← held.asRecord).get? "Keys").getD .null)

def loadItems : List Value → Except Failure (List Record)
  | [] => .ok []
  | item :: rest => do
    let first ← item.loadItem
    let others ← loadItems rest
    .ok (first :: others)

def received (table : String) (response : Record) : Except Failure (List Record) := do
  let items ← underTable response "Responses" table (.list [])
  loadItems (← items.asRow)

/-- Send writes until none is handed back; `left` counts the retries that remain. -/
def writeGroup (table operation : String) (limits : Limits) :
    Nat → Value → Exchange Unit
  | 0, pending => do
    let response ← Exchange.call (.batchWrite table pending)
    let pending ← .done (unprocessedWrites table response)
    resume operation pending () none
  | left + 1, pending => do
    let response ← Exchange.call (.batchWrite table pending)
    let pending ← .done (unprocessedWrites table response)
    resume operation pending () <| some fun pending => do
      waitBefore limits (limits.retries - left)
      writeGroup table operation limits left pending

/-- Read keys until none is handed back, and collect the records of all responses in order. -/
def readGroup (table : String) (consistent : Value) (limits : Limits) :
    Nat → List Record → Value → Exchange (List Record)
  | 0, collected, pending => do
    let response ← Exchange.call (.batchGet table pending consistent)
    let records ← .done (received table response)
    let pending ← .done (unprocessedKeys table response)
    resume "batch_get" pending (collected ++ records) none
  | left + 1, collected, pending => do
    let response ← Exchange.call (.batchGet table pending consistent)
    let records ← .done (received table response)
    let pending ← .done (unprocessedKeys table response)
    resume "batch_get" pending (collected ++ records) <| some fun pending => do
      waitBefore limits (limits.retries - left)
      readGroup table consistent limits left (collected ++ records) pending

end RecordMerge.Batch

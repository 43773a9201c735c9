import RecordMerge.Exchange
import RecordMerge.KeySchema
import RecordMerge.Request.Whole

/-! A table: its name, its key schema and its reading of error answers, with the operations on
single records. -/

set_option autoImplicit false

namespace RecordMerge

namespace Exchange

/-- What the service knows about a table; nothing is an empty description. -/
def describe (table : String) : Exchange Record := do
  let response ← call (.describe table)
  match response.get? "Table" with
  | none => pure []
  | some description => if description.truthy then .done description.loadPairs else pure []

def write (request : Except Failure Request) : Exchange Unit := do
  let request ← .done request
  let _ ← call request
  pure ()

def read (request : Except Failure Request) : Exchange (Option Record) := do
  let request ← .done request
  let response ← call request
  .done (itemOf "Item" response)

end Exchange

/-- What is fixed about a table. -/
structure Table where
  name : String
  schema : KeySchema
  classify : String → String → Service.Category

namespace Table

def describe (table : Table) : Exchange Record :=
  Exchange.describe table.name

/-- The request that writes a whole record, under a condition if one is given. -/
def putRequest (table : Table) (record : Record) (condition names values : Value) :
    Except Failure Request := do
  let _ ← table.schema.keyOf record
  Request.ofRecord table.name record condition names values

def put (table : Table) (record : Record) (condition names values : Value) : Exchange Unit :=
  .write (table.putRequest record condition names values)

def getRequest (table : Table) (key consistent : Value) : Except Failure Request := do
  Request.ofIdentity table.name (← table.schema.normalize key) consistent

def fetch (table : Table) (key consistent : Value) : Exchange (Option Record) :=
  .read (table.getRequest key consistent)

/-- Read the record with the given identity values; null stands for a value that is not given. -/
def get (table : Table) (partition sort consistent : Value) : Exchange (Option Record) := do
  let key ← .done (table.schema.keyFrom partition sort)
  table.fetch (.map key) consistent

end Table

end RecordMerge

import RecordMerge.Guard
import RecordMerge.Policy.Given
import RecordMerge.Table.Loose

/-! A table as its callers hold it. Arguments may be values of any kind; those that a table has no use
for fail where the table would come to use them. -/

set_option autoImplicit false

namespace RecordMerge.Table

/-- A table by the kind of its key attributes' names. -/
inductive Target where
  | named (table : Table)
  | loose (table : LooseTable)

def Target.name : Target → String
  | .named table => table.name
  | .loose table => table.name

/-- A table with the parts that its caller supplied. -/
structure Handle where
  target : Target
  guard : Guard := {}

namespace Handle

/-- The condition of an update: nothing, or a text. -/
def conditionOf (condition : Value) : Except Failure String :=
  if condition.truthy then
    match condition.text? with
    | some text => .ok text
    | none => .error (.reading .wrongKind)
  else .ok ""

def describe (handle : Handle) : Exchange Record :=
  .describe handle.target.name

def put (handle : Handle) (record condition names values : Value) : Exchange Unit := do
  let record ← .done record.asRecord
  match handle.target with
  | .named table => table.put record condition names values
  | .loose table => table.put record condition names values

def fetch (handle : Handle) (key consistent : Value) : Exchange (Option Record) :=
  match handle.target with
  | .named table => table.fetch key consistent
  | .loose table => table.fetch key consistent

def get (handle : Handle) (partition sort consistent : Value) : Exchange (Option Record) :=
  match handle.target with
  | .named table => table.get partition sort consistent
  | .loose table => table.get partition sort consistent

/-- Change a record by an exchange that a table with named key attributes has for it. A condition of
the wrong kind is found once the update is compiled. -/
def change {Result : Type} (handle : Handle) (record : Value) (policy : Policy)
    (condition given : Value) (apply : Table → Record → String → Exchange Result) :
    Exchange Result := do
  let record ← .done record.asRecord
  match handle.target, conditionOf condition with
  | .named table, .ok condition => (apply table record condition).guarded handle.guard
  | .named table, .error failure => do
    let _ ← noted (Update.compile record table.schema policy)
    .fail failure
  | .loose table, condition => table.refuse record policy condition given

def prepare (handle : Handle) (record : Value) (policy : Policy) (condition given : Value) :
    Exchange UpdateRequest :=
  handle.change record policy condition given fun table record condition =>
    table.prepare record policy condition given

def update (handle : Handle) (record : Value) (policy : Policy) (condition given : Value) :
    Exchange WriteResult :=
  handle.change record policy condition given fun table record condition =>
    table.update record policy condition given

/-- Write what a policy selects of a record, which is stored as a whole where it is missing. -/
def upsert (handle : Handle) (record : Value) (policy : Policy) (insertOnly : List String)
    (condition given : Value) : Exchange WriteResult :=
  handle.change record (policy.withInsertOnly insertOnly) condition given
    fun table record condition => table.upsert record policy insertOnly condition given

/-- Update the given paths of a record only. Paths that cannot be taken are found before anything
else. -/
def updateIncluding (handle : Handle) (record paths condition given : Value) :
    Exchange WriteResult := do
  let paths ← .done (Policy.pathsOf paths)
  handle.update record (.only paths [] false) condition given

def updateExcluding (handle : Handle) (record paths condition given : Value) :
    Exchange WriteResult := do
  let paths ← .done (Policy.pathsOf paths)
  handle.update record (.excluding paths [] false) condition given

def upsertIncluding (handle : Handle) (record paths insertOnly : Value) : Exchange WriteResult := do
  let paths ← .done (Policy.pathsOf paths)
  let insertOnly ← .done (Policy.pathsOf insertOnly)
  handle.upsert record (.only paths [] false) insertOnly .null .null

def batchPut (handle : Handle) (records retries : Value) (pauses : Bool) :
    Except Failure (Batch Unit) := do
  let batch ← match handle.target with
    | .named table => table.batchPut records retries pauses
    | .loose table => table.batchPut records retries pauses
  batch.guarded handle.guard

def batchDelete (handle : Handle) (keys retries : Value) (pauses : Bool) :
    Except Failure (Batch Unit) := do
  let batch ← match handle.target with
    | .named table => table.batchDelete keys retries pauses
    | .loose table => table.batchDelete keys retries pauses
  batch.guarded handle.guard

def batchGet (handle : Handle) (keys consistent retries : Value) (pauses : Bool) :
    Except Failure (Batch (List Record)) := do
  let batch ← match handle.target with
    | .named table => table.batchGet keys consistent retries pauses
    | .loose table => table.batchGet keys consistent retries pauses
  batch.guarded handle.guard

/-- With a record, a text for condition and parts that cannot fail, an update is that of the table. -/
theorem update_named (table : Table) (record : Record) (policy : Policy) (condition : String)
    (given : Value) :
    ({ target := .named table } : Handle).update (.map record) policy (.text condition) given =
      table.update record policy condition given := by
  have text : conditionOf (.text condition) = .ok condition := by
    by_cases empty : condition = "" <;> simp [conditionOf, Value.truthy, Value.text?, empty]
  simp only [update, change, text, Exchange.guarded_faultless]
  rfl

end Handle

end RecordMerge.Table

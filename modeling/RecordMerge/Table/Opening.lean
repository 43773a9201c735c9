import RecordMerge.Connection
import RecordMerge.Service.Classifier
import RecordMerge.Table.Handle

/-! A table as it is opened, alone or together with a client of its own. -/

set_option autoImplicit false

namespace RecordMerge.Table

/-- Where a table notes events: in its own log, in one that was injected, or in something that cannot
take notes. -/
inductive LogKind where
  | own
  | injected
  | unfit
  deriving DecidableEq, Repr

/-- What a caller says about a table and about its client. An absent classifier is one that cannot
classify anything. -/
structure Opening where
  partition : Value
  sort : Value := .null
  classifier : Option Service.Classifier := some {}
  log : LogKind := .own
  client : Connection.Wish := {}

namespace Opening

/-- The opening with a further part. No value can classify errors or take notes, but an absent or empty
one leaves the usual ways; what is no part of the table is one of its client. -/
def add (opening : Opening) (part : String × Value) : Opening :=
  match part with
  | ("pk", value) => { opening with partition := value }
  | ("sk", value) => { opening with sort := value }
  | ("classifier", value) => { opening with classifier := if value.truthy then none else some {} }
  | ("logger", value) => { opening with log := if value.truthy then .unfit else .own }
  | _ => { opening with client := opening.client.add part }

def settledParts : List String :=
  ["cls", "table_name", "session"]

/-- The opening with further parts, none of which may be settled already. -/
def addAll (opening : Opening) (parts : List (String × Value)) : Except Failure Opening :=
  if parts.any fun part => settledParts.contains part.1 then .error (.reading .wrongKind)
  else .ok (parts.foldl add opening)

/-- The opening with further parts, and what its client is then opened with. -/
def opened (opening : Opening) (parts : List (String × Value)) :
    Except Failure (Opening × Connection.Options) := do
  let opening ← opening.addAll parts
  .ok (opening, ← opening.client.options)

/-- What an error answer means, if that can be told. -/
def meaning (opening : Opening) (code message : String) : Except Failure Service.Category :=
  match opening.classifier with
  | some classifier => classifier.classifyError code message
  | none => .error (.reading .noEntries)

def guard (opening : Opening) : Guard where
  fault code message :=
    match opening.meaning code message with
    | .error failure => some failure
    | .ok _ => none
  takesNotes := opening.log != .unfit

def classify (opening : Opening) (code message : String) : Service.Category :=
  match opening.meaning code message with
  | .ok category => category
  | .error _ => .unclassified

/-- The table itself, unless the names of its key attributes are at fault. -/
def target (opening : Opening) (name : String) : Except Failure Target :=
  match opening.partition, opening.sort with
  | .text partition, .text sort => named partition (some sort)
  | .text partition, .null => named partition none
  | partition, sort => do .ok (.loose ⟨name, ← LooseKeys.ofNames partition sort⟩)
where
  named (partition : String) (sort : Option String) : Except Failure Target := do
    .ok (.named ⟨name, ← KeySchema.ofNames partition sort, opening.classify⟩)

/-- The table together with the client to reach it by. A missing name is found first, then a missing
client, then a fault of the key names. -/
def withClient {Client : Type} (opening : Opening) (name : String) (client : Option Client) :
    Except Failure (Handle × Client) :=
  if name = "" then .error (.setting .tableNameEmpty)
  else match client with
    | none => .error (.setting .clientMissing)
    | some client => do .ok (⟨← opening.target name, opening.guard⟩, client)

end Opening

end RecordMerge.Table

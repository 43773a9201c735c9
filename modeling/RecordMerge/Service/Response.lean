import RecordMerge.Failure
import RecordMerge.Value.Equality

/-! Reading an error answer from a raw response. -/

set_option autoImplicit false

namespace RecordMerge.ServiceError

/-- The entries of a field, none if the field is absent; a field that is no map is a fault. -/
def entriesUnder (name : String) (response : Record) : Except Failure Record :=
  match response.get? name with
  | none => .ok []
  | some held => held.asRecord

/-- What a response says about itself. It is looked for before the response is taken for a map. -/
def metadataOf (response : Value) : Except Failure Record :=
  match response.entries?, response.mentions? (.text "ResponseMetadata") with
  | some fields, _ => entriesUnder "ResponseMetadata" fields
  | none, some false => .ok []
  | none, _ => .error (.reading .wrongKind)

def textUnder? (name : String) (fields : Record) : Except Failure (Option String) :=
  match fields.get? name with
  | none => .ok none
  | some held =>
    match held.toText? with
    | some text => .ok (some text)
    | none => .error (.reading .wrongKind)

/-- How often the service was asked again, if that ended because of a limit. -/
def retriesOf (metadata : Record) : Except Failure (Option String) :=
  match metadata.get? "MaxAttemptsReached" with
  | some reached => if reached.truthy then textUnder? "RetryAttempts" metadata else .ok none
  | none => .ok none

def ofResponse (response : Value) (operation : String) : Except Failure ServiceError := do
  let retries ← retriesOf (← metadataOf response)
  let fields ← response.asRecord
  let error ← entriesUnder "Error" fields
  let code ← textUnder? "Code" error
  let message ← textUnder? "Message" error
  .ok ⟨code, message, retries, (fields.get? "Item").getD .null, operation⟩

end RecordMerge.ServiceError

import RecordMerge.Value.Text

/-! Errors that the service answers with, and what they mean for a write. -/

set_option autoImplicit false

namespace RecordMerge

/-- An error answer: code and message if it has them, the number of retries if the service gave up
after them, the item it kept instead, and the operation that was refused. -/
structure ServiceError where
  code : Option String
  message : Option String
  retries : Option String
  item : Value
  operation : String
  deriving Repr

namespace ServiceError

def ofCode (code message operation : String) (item : Value) : ServiceError :=
  ⟨some code, some message, none, item, operation⟩

def codeText (error : ServiceError) : String :=
  error.code.getD ""

def messageText (error : ServiceError) : String :=
  error.message.getD ""

/-- One line with the code, the operation, the retries and the message. -/
def summary (error : ServiceError) : String :=
  let retried := match error.retries with
    | some count => " (reached max retries: " ++ count ++ ")"
    | none => ""
  "An error occurred (" ++ error.code.getD "Unknown" ++ ") when calling the " ++
    error.operation ++ " operation" ++ retried ++ ": " ++ error.message.getD "Unknown"

end ServiceError

namespace Service

/-- What an error answer to an update means. -/
inductive Category where
  | schemaMismatch
  | conditionFailed
  | unclassified
  deriving DecidableEq, Repr

def Category.label : Category → String
  | .schemaMismatch => "schema_mismatch"
  | .conditionFailed => "condition_check_failed"
  | .unclassified => "unclassified"

/-- The message that always counts as a mismatch by the default classifier. -/
def mismatchMessage : String :=
  "The document path provided in the update expression is invalid for update"

/-- The answer to an update whose document path does not fit the stored item. -/
def mismatchError : ServiceError :=
  .ofCode "ValidationException" mismatchMessage "UpdateItem" .null

/-- The answer to a write whose condition fails, with the item that made it fail. -/
def conditionError (item : Value) : ServiceError :=
  .ofCode "ConditionalCheckFailedException" "The conditional request failed" "UpdateItem" item

end Service

end RecordMerge

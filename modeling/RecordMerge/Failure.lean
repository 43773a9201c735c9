import RecordMerge.Number.Bounds
import RecordMerge.Service

/-! What can go wrong, by cause, and the message of each cause. -/

set_option autoImplicit false

namespace RecordMerge

open Number (Signal)

/-- Why a key does not identify a record. -/
inductive KeyFault where
  | partitionNameEmpty
  | sortNameEmpty
  | namesEqual
  | missing (name : String)
  | partitionMissing
  | sortMissing
  | sortUndefined
  | pairWithoutSortExpected
  | sortNotNull
  | pairExpected
  deriving DecidableEq, Repr

def KeyFault.message : KeyFault → String
  | .partitionNameEmpty => "pk attribute name is required"
  | .sortNameEmpty => "sk attribute name must be non-empty"
  | .namesEqual => "pk and sk must be different attributes"
  | .missing name => "missing key attribute: " ++ name
  | .partitionMissing => "pk is required"
  | .sortMissing => "sk is required"
  | .sortUndefined => "table does not define sk"
  | .pairWithoutSortExpected => "expected key tuple (pk, None) for pk-only tables"
  | .sortNotNull => "sk must be None for pk-only tables"
  | .pairExpected => "expected key tuple (pk, sk)"

/-- Why a value has no stored form. -/
inductive StorageFault where
  | emptySet
  | unhashable (element : Value)
  | unsupported (value : Value)
  | notFinite
  | keyWithoutText
  deriving Repr

/-- Why a sign, digits and an exponent make no number. -/
inductive PartsFault where
  | count
  | sign
  | exponentWord
  | exponent
  | digits
  | tooLarge
  deriving DecidableEq, Repr

def PartsFault.message : PartsFault → String
  | .count => "argument must be a sequence of length 3"
  | .sign => "sign must be an integer with the value 0 or 1"
  | .exponentWord => "string argument in the third position must be 'F', 'n' or 'N'"
  | .exponent => "exponent must be an integer"
  | .digits => "coefficient must be a tuple of digits"
  | .tooLarge => "the number is too large"

/-- Why a stored form, or an answer around it, cannot be read. -/
inductive ReadFault where
  | noTag
  | unknownTag (tag : String)
  | notBinary
  | noEntries
  | wrongKind
  | pairLength (index length : Nat)
  | parts (fault : PartsFault)
  deriving DecidableEq, Repr

/-- Why an expression cannot be built. -/
inductive ExpressionFault where
  | emptyName
  | collision (kind placeholder : String)
  | noUpdates
  deriving DecidableEq, Repr

def ExpressionFault.message : ExpressionFault → String
  | .emptyName => "attribute names must be non-empty"
  | .collision kind placeholder =>
    "expression attribute " ++ kind ++ " collision: " ++ placeholder
  | .noUpdates => "no updates provided"

/-- What callers see of an error answer. -/
inductive Surfaced where
  | conditionFailed (message : String)
  | invalid (message : String)
  | notFound (message : String)
  | other (code message : String)
  deriving DecidableEq, Repr

def Surfaced.message : Surfaced → String
  | .conditionFailed message | .invalid message | .notFound message => message
  | .other code message => code ++ ": " ++ message

/-- Where a request differs from what was expected of it. The path starts with the operation. -/
inductive Mismatch where
  | notMap (path : String) (actual : Value)
  | notList (path : String) (actual : Value)
  | missingKey (path : String) (key : Value)
  | lengthDiffers (path : String) (expected actual : Nat)
  | valueDiffers (path : String) (expected actual : Value)
  deriving Repr

/-- Why a scripted client refuses a call. -/
inductive ScriptFault where
  | unexpected (operation : String)
  | otherOperation (expected actual : String)
  | mismatch (difference : Mismatch)
  | refused (message : String)
  | pending (description : String)
  deriving Repr

/-- Why settings are refused. -/
inductive SettingFault where
  | tableNameEmpty
  | clientMissing
  | groupSize
  | negativeRetries
  | attempts (given : String)
  | retryMode (given : String)
  deriving DecidableEq, Repr

def SettingFault.message : SettingFault → String
  | .tableNameEmpty => "table_name is required"
  | .clientMissing => "client is required (use Table.connect to open one)"
  | .groupSize => "size must be > 0"
  | .negativeRetries => "max_retries must be >= 0"
  | .attempts given =>
    "Value provided to \"max_attempts\": " ++ given ++
      " must be an integer greater than or equal to 0."
  | .retryMode given =>
    "Invalid value provided to \"mode\": \"" ++ given ++
      "\" must be one of: ('legacy', 'standard', 'adaptive')"

/-- What can end an operation without a result. A surfaced error answer names the answer it was made
from, unless a batch reports it. Most failures are ordinary ones, those of a client among them. A client
may also abort, which handlers of ordinary failures let through, and `grouped` are the failures of tasks
side by side that have not all been ordinary. Neither an interrupt of the whole program nor the
cancellation of a call counts as a failure here. -/
inductive Failure where
  | key (fault : KeyFault)
  | storage (fault : StorageFault)
  | arithmetic (signal : Signal)
  | reading (fault : ReadFault)
  | expression (fault : ExpressionFault)
  | missingValue (token condition : String)
  | retriesExhausted (operation : String) (unprocessed : Int)
  | surfaced (seen : Surfaced) (cause : Option ServiceError)
  | service (error : ServiceError)
  | script (fault : ScriptFault)
  | setting (fault : SettingFault)
  | backoffTooLong
  | incomparable
  | foreign (message : String)
  | abort (message : String)
  | grouped (failures : List Failure)
  deriving Repr

/-- What a host calls the kinds of value: a short name and a full description. -/
structure KindNames where
  brief : Value → String
  full : Value → String

def StorageFault.message (names : KindNames) : StorageFault → String
  | .emptySet => "empty sets cannot be stored"
  | .unhashable element => "unhashable type: '" ++ names.brief element ++ "'"
  | .unsupported value =>
    "Unsupported type \"" ++ names.full value ++ "\" for value \"" ++ value.toText ++ "\""
  | .notFinite => "Infinity and NaN not supported"
  | .keyWithoutText =>
    "__str__ returned non-string (type " ++ names.brief (.bytes .fixed []) ++ ")"

def ReadFault.message (names : KindNames) : ReadFault → String
  | .noTag => "Value must be a nonempty dictionary whose key is a valid dynamodb type."
  | .unknownTag tag => "Dynamodb type " ++ tag ++ " is not supported"
  | .notBinary =>
    "Value must be of the following types: " ++ names.full (.bytes .growable []) ++ ", " ++
      names.full (.bytes .fixed [])
  | .noEntries => "the value has no entries"
  | .wrongKind => "the value is of the wrong kind"
  | .pairLength index length =>
    "dictionary update sequence element #" ++ String.ofList (Number.numeral index) ++
      " has length " ++ String.ofList (Number.numeral length) ++ "; 2 is required"
  | .parts fault => fault.message

def Mismatch.message (names : KindNames) : Mismatch → String
  | .notMap path actual => path ++ ": expected dict, got " ++ names.brief actual
  | .notList path actual => path ++ ": expected list, got " ++ names.brief actual
  | .missingKey path key => path ++ ": missing key " ++ key.literal
  | .lengthDiffers path expected actual =>
    path ++ ": expected " ++ toString expected ++ " items, got " ++ toString actual
  | .valueDiffers path expected actual =>
    path ++ ": expected " ++ expected.literal ++ ", got " ++ actual.literal

def ScriptFault.message (names : KindNames) : ScriptFault → String
  | .unexpected operation => "unexpected call: " ++ operation
  | .otherOperation expected actual => "expected " ++ expected ++ ", got " ++ actual
  | .mismatch difference => difference.message names
  | .refused message => message
  | .pending description => "pending expected calls: " ++ description

namespace Failure

def missingValueMessage (token condition : String) : String :=
  "\"" ++ token ++ "\" value not found in expression: \"" ++ condition ++ "\""

def retriesExhaustedMessage (operation : String) (unprocessed : Value) : String :=
  operation ++ ": retry limit exceeded (unprocessed=" ++ unprocessed.toText ++ ")"

def groupedMessage (count : Nat) : String :=
  "unhandled errors in a TaskGroup (" ++ toString count ++
    (if count = 1 then " sub-exception)" else " sub-exceptions)")

def message (names : KindNames) : Failure → String
  | .key fault => fault.message
  | .storage fault => fault.message names
  | .arithmetic _ => "the number does not fit the storage bounds"
  | .reading fault => fault.message names
  | .expression fault => fault.message
  | .missingValue token condition => missingValueMessage token condition
  | .retriesExhausted operation unprocessed =>
    retriesExhaustedMessage operation (.int unprocessed)
  | .surfaced seen _ => seen.message
  | .service error => error.summary
  | .script fault => fault.message names
  | .setting fault => fault.message
  | .backoffTooLong => "the pause is too long to compute"
  | .incomparable => "the values cannot be compared"
  | .foreign message | .abort message => message
  | .grouped failures => groupedMessage failures.length

/-- Whether handlers of ordinary failures take it. -/
def ordinary : Failure → Bool
  | .abort _ | .grouped _ => false
  | _ => true

def detached : Failure → Failure
  | .surfaced seen _ => .surfaced seen none
  | failure => failure

@[simp] theorem ordinary_detached (failure : Failure) :
    failure.detached.ordinary = failure.ordinary := by
  cases failure <;> rfl

end Failure

/-- The entries of a value that has to be a map. -/
def Value.asRecord (value : Value) : Except Failure Record :=
  match value.entries? with
  | some record => .ok record
  | none => .error (.reading .noEntries)

/-- What a walk over a value meets; the value has to be one that can be walked over. -/
def Value.asRow (value : Value) : Except Failure (List Value) :=
  match value.iterate? with
  | some elements => .ok elements
  | none => .error (.reading .wrongKind)

/-- What callers see of an error answer, by its code. Without a code or a message the answer as a
whole stands in. -/
def ServiceError.surfaced (error : ServiceError) : Surfaced :=
  let code := error.codeText
  let message := error.messageText
  if code = "ConditionalCheckFailedException" then .conditionFailed message
  else if code = "ValidationException" then .invalid message
  else if code = "ResourceNotFoundException" then .notFound message
  else .other (if code = "" then "UnknownError" else code)
    (if message = "" then error.summary else message)

def ServiceError.failure (error : ServiceError) : Failure :=
  .surfaced error.surfaced (some error)

end RecordMerge

import RecordMerge.Entries
import RecordMerge.Failure

/-! The kinds of failure that callers can tell apart, from special to general. -/

set_option autoImplicit false

namespace RecordMerge

/-- A kind of failure of this library. -/
inductive FailureKind where
  | general
  | conditionFailed
  | notFound
  | invalid
  | misconfigured
  | missingValue
  | retriesExhausted
  | service
  deriving DecidableEq, Repr

namespace FailureKind

def parent? : FailureKind → Option FailureKind
  | .general => none
  | .misconfigured | .missingValue => some .invalid
  | _ => some .general

/-- The kind itself and all more general ones, up to the most general. -/
def lineage : FailureKind → List FailureKind
  | .general => [.general]
  | .invalid => [.invalid, .general]
  | .misconfigured => [.misconfigured, .invalid, .general]
  | .missingValue => [.missingValue, .invalid, .general]
  | kind => [kind, .general]

theorem lineage_eq (kind : FailureKind) :
    kind.lineage = kind :: (kind.parent?.map lineage).getD [] := by
  cases kind <;> rfl

/-- The message of a failure that is raised with plain arguments: nothing, the text of the only one,
or all of them as a tuple. -/
def plainMessage : List Value → String
  | [] => ""
  | [only] => only.toText
  | arguments => (Value.tuple arguments).literal

/-- The names of the two details that a failure has to be raised with, if it has any. -/
def detailNames? : FailureKind → Option (String × String)
  | .missingValue => some ("token", "expression")
  | .retriesExhausted => some ("operation", "unprocessed_count")
  | .service => some ("code", "message")
  | _ => none

def detailedMessage (kind : FailureKind) (first second : Value) : String :=
  match kind with
  | .missingValue => Failure.missingValueMessage first.toText second.toText
  | .retriesExhausted => Failure.retriesExhaustedMessage first.toText second
  | _ => (Surfaced.other first.toText second.toText).message

/-- The message of a failure that is raised with plain arguments and named details. It takes its own
details and no arguments, or any arguments if it has no details. -/
def raisedMessage (kind : FailureKind) (arguments : List Value) (details : List (String × Value)) :
    Except Failure String :=
  match kind.detailNames? with
  | none => if details.isEmpty then .ok (plainMessage arguments) else .error (.reading .wrongKind)
  | some (first, second) =>
    match Entries.get? details first, Entries.get? details second with
    | some one, some other =>
      if arguments.isEmpty && details.length == 2 then .ok (kind.detailedMessage one other)
      else .error (.reading .wrongKind)
    | _, _ => .error (.reading .wrongKind)

def all : List FailureKind :=
  [.general, .conditionFailed, .notFound, .invalid, .misconfigured, .missingValue, .retriesExhausted,
    .service]

theorem mem_all (kind : FailureKind) : kind ∈ all := by
  cases kind <;> decide

end FailureKind

def Surfaced.kind : Surfaced → FailureKind
  | .conditionFailed _ => .conditionFailed
  | .invalid _ => .invalid
  | .notFound _ => .notFound
  | .other _ _ => .service

/-- The kind of a failure; failures from outside this library have none. -/
def Failure.kind? : Failure → Option FailureKind
  | .key _ | .storage _ | .setting .negativeRetries => some .invalid
  | .expression _ => some .misconfigured
  | .missingValue _ _ => some .missingValue
  | .retriesExhausted _ _ => some .retriesExhausted
  | .surfaced seen _ => some seen.kind
  | _ => none

end RecordMerge

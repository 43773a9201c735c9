import RecordMerge.Attribute.Load
import RecordMerge.Request
import RecordMerge.Script.Match

/-! A client that follows a script. Every call uses up one expectation, whether or not it meets it. -/

set_option autoImplicit false

namespace RecordMerge

namespace Script

/-- What is expected of a request: nothing, some of its fields, or the verdict of a check. -/
inductive Check where
  | absent
  | subset (fields : Value)
  | accepted
  | refused (message : String)
  deriving Repr

/-- A scripted failure: an error answer of the service, a breakdown of another kind, ordinary or not,
or a value that is no failure and breaks the call in its own way. -/
inductive Trouble where
  | refusal (error : ServiceError)
  | breakdown (message : String)
  | abort (message : String)
  | noFailure (value : Value)
  deriving Repr

/-- A call that is expected, and how it is answered; null is no response. -/
structure Expectation where
  operation : String
  check : Check := .absent
  response : Value := .null
  error : Option Trouble := none
  deriving Repr

def Trouble.literal : Trouble → String
  | .refusal error => "ClientError(" ++ Text.quoted error.summary ++ ")"
  | .breakdown message => "RuntimeError(" ++ Text.quoted message ++ ")"
  | .abort message => "BaseException(" ++ Text.quoted message ++ ")"
  | .noFailure value => value.literal

def Trouble.answer : Trouble → Answer
  | .refusal error => .refused error
  | .breakdown message => .failed (.foreign message)
  | .abort message => .failed (.abort message)
  | .noFailure _ => .failed (.reading .wrongKind)

def Check.literal : Check → String
  | .absent => "None"
  | .subset fields => fields.literal
  | .accepted | .refused _ => "<function>"

def Expectation.literal (expectation : Expectation) : String :=
  "ExpectedRequest(operation=" ++ Text.quoted expectation.operation ++
    ", check=" ++ expectation.check.literal ++
    ", response=" ++ expectation.response.literal ++
    ", error=" ++ (expectation.error.map Trouble.literal).getD "None" ++ ")"

def Expectation.partNames : List String :=
  ["operation", "check", "response", "error"]

/-- An expectation from named parts. The operation has to be there, a null part counts as absent, and
there are no other parts. -/
def Expectation.ofNamed (parts : Record) : Except Failure Expectation :=
  match parts.get? "operation" with
  | none => .error (.reading .wrongKind)
  | some operation =>
    if parts.all fun part => partNames.contains part.1.toText then
      .ok { operation := operation.toText
            check := ((part? "check").map .subset).getD .absent
            response := (part? "response").getD .null
            error := (part? "error").map .noFailure }
    else .error (.reading .wrongKind)
where
  part? (name : String) : Option Value :=
    (parts.get? name).filter fun value => !value.isNull

/-- Whether a request passes a check. The path of a difference starts with the operation. -/
def Check.verdict (operation : String) (request : Record) : Check → Except Failure Unit
  | .absent | .accepted => .ok ()
  | .subset fields => do entriesAgree operation request (← fields.loadPairs)
  | .refused message => .error (.script (.refused message))

/-- The fields of a scripted response; an empty one has none. -/
def responseFields (response : Value) : Except Failure Record :=
  if response.truthy then response.loadPairs else .ok []

def Expectation.answer (expectation : Expectation) (request : Record) : Answer :=
  match expectation.check.verdict expectation.operation request, expectation.error with
  | .error failure, _ => .failed failure
  | .ok (), some trouble => trouble.answer
  | .ok (), none =>
    match responseFields expectation.response with
    | .ok fields => .response fields
    | .error failure => .failed failure

end Script

/-- A scripted client: the expectations that are left, and the calls made so far. -/
structure Script where
  queue : List Script.Expectation := []
  calls : List (String × Record) := []

namespace Script

def expect (script : Script) (expectation : Expectation) : Script :=
  { script with queue := script.queue ++ [expectation] }

/-- Queue expectations, up to the first that could not be built. -/
def expectAll (script : Script) : List (Except Failure Expectation) → Script × Option Failure
  | [] => (script, none)
  | .ok expectation :: rest => (script.expect expectation).expectAll rest
  | .error failure :: _ => (script, some failure)

def reset (script : Script) : Script :=
  { script with queue := [] }

def respond (script : Script) (operation : String) (request : Record) : Answer × Script :=
  let calls := script.calls ++ [(operation, request)]
  match script.queue with
  | [] => (.failed (.script (.unexpected operation)), { script with calls })
  | next :: rest =>
    if next.operation = operation then (next.answer request, ⟨rest, calls⟩)
    else (.failed (.script (.otherOperation next.operation operation)), ⟨rest, calls⟩)

/-- What a client has under a name: the calls made so far, another text about it, or something that
can be called. -/
inductive Member where
  | calls (made : List (String × Record))
  | text (content : String)
  | callable
  deriving Repr

/-- The list of calls, an operation, or one of the two ways to prepare and to check a script. -/
def member? (script : Script) (name : String) : Option Member :=
  if name = "calls" then some (.calls script.calls)
  else if (Operation.ofName? name).isSome then some .callable
  else if name = "expect" || name = "assert_no_pending" then some .callable
  else none

/-- The name by which a client refers to itself, so that no field of a request can have it. -/
def ownName : String := "self"

/-- Queue an expectation given by its parts; parts that make none are dropped. -/
def expectNamed (script : Script) (parts : Record) : Script :=
  match Expectation.ofNamed parts with
  | .ok expectation => script.expect expectation
  | .error _ => script

/-- A call by name. A name without an operation is refused before it counts as a call, and so is a
request with a field named like the client itself. A call that prepares the script has its effect,
but no answer to wait for. -/
def callNamed (script : Script) (name : String) (request : Record) : Answer × Script :=
  match Operation.ofName? name, script.member? name with
  | some operation, _ =>
    if request.contains ownName then (.failed (.reading .wrongKind), script)
    else script.respond operation.name request
  | none, none => (.failed (.reading .noEntries), script)
  | none, some _ =>
    (.failed (.reading .wrongKind), if name = "expect" then script.expectNamed request else script)

def serve (script : Script) (request : Request) : Answer × Script :=
  script.respond request.operation.name request.fields

def assertNonePending (script : Script) : Except Failure Unit :=
  if script.queue.isEmpty then .ok ()
  else .error (.script (.pending
    ("[" ++ ", ".intercalate (script.queue.map Expectation.literal) ++ "]")))

/-- Expectations that could all be built are queued behind the earlier ones. -/
theorem expectAll_map_ok (script : Script) (expectations : List Expectation) :
    script.expectAll (expectations.map .ok) =
      ({ script with queue := script.queue ++ expectations }, none) := by
  induction expectations generalizing script with
  | nil => simp [expectAll]
  | cons first rest tail => simp [expectAll, tail, expect]

/-- Every call is recorded behind the earlier ones. -/
theorem calls_respond (script : Script) (operation : String) (request : Record) :
    (script.respond operation request).2.calls = script.calls ++ [(operation, request)] := by
  simp only [respond]
  split
  · rfl
  · split <;> rfl

/-- Every call uses up one expectation, if there is one. -/
theorem queue_respond (script : Script) (operation : String) (request : Record) :
    (script.respond operation request).2.queue = script.queue.tail := by
  simp only [respond]
  split
  · next empty => simp [empty]
  · next first rest found => split <;> simp [found]

end Script

end RecordMerge

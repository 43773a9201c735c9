import RecordMerge.Script

/-! Calls of a client, observed one by one. -/

set_option autoImplicit false

namespace RecordMerge

/-- One observed call: the service, the operation, and whether it was answered. -/
structure Metric where
  service : String
  operation : String
  ok : Bool
  deriving DecidableEq, Repr

def Answer.isResponse : Answer → Bool
  | .response _ => true
  | _ => false

/-- Who hears of the calls of a client: nobody, a listener who takes every note, or one who is told but
cannot take a note, so that each call breaks when it should be noted. -/
inductive Observer where
  | nobody
  | listening
  | deaf
  deriving DecidableEq, Repr

/-- A client and the observer of its calls, with the notes taken so far. -/
structure Observed (Client : Type) where
  client : Client
  service : String
  observer : Observer := .listening
  metrics : List Metric := []

namespace Observed

variable {Client : Type}

def note (observed : Observed Client) (operation : String) (ok : Bool) : Observed Client :=
  { observed with metrics := observed.metrics ++ [⟨observed.service, operation, ok⟩] }

/-- Pass a call on and note it, unless the client aborts. The answer is passed back unchanged if the
note can be taken. -/
def respond (answer : Client → String → Record → Answer × Client) (observed : Observed Client)
    (operation : String) (request : Record) : Answer × Observed Client :=
  let (given, client) := answer observed.client operation request
  let after := { observed with client }
  match observed.observer, given.aborts with
  | .nobody, _ | _, true => (given, after)
  | .listening, false => (given, after.note operation given.isResponse)
  | .deaf, false => (.failed (.reading .wrongKind), after)

/-- What an observed client has under a name: the name of its service, and all that the client has. -/
def member? (observed : Observed Script) (name : String) : Option Script.Member :=
  if name = "_service" && observed.observer != .nobody then some (.text observed.service)
  else observed.client.member? name

/-- A call by name. Only what can be called is noted. -/
def callNamed (observed : Observed Script) (name : String) (request : Record) :
    Answer × Observed Script :=
  match observed.member? name with
  | some .callable => observed.respond Script.callNamed name request
  | some _ => (.failed (.reading .wrongKind), observed)
  | none => (.failed (.reading .noEntries), observed)

def serve (observed : Observed Script) (request : Request) : Answer × Observed Script :=
  observed.respond Script.respond request.operation.name request.fields

/-- Each call is noted once, by how it was answered, unless the client aborts it. -/
theorem metrics_respond (answer : Client → String → Record → Answer × Client)
    (observed : Observed Client) (operation : String) (request : Record)
    (listens : observed.observer = .listening) :
    (observed.respond answer operation request).2.metrics =
      observed.metrics ++ if (answer observed.client operation request).1.aborts then []
        else [⟨observed.service, operation,
          (answer observed.client operation request).1.isResponse⟩] := by
  cases aborts : (answer observed.client operation request).1.aborts <;>
    simp [respond, note, listens, aborts]

/-- Whoever observes it, the client itself goes on as it would alone. -/
theorem client_respond (answer : Client → String → Record → Answer × Client)
    (observed : Observed Client) (operation : String) (request : Record) :
    (observed.respond answer operation request).2.client =
      (answer observed.client operation request).2 := by
  simp only [respond]
  split <;> rfl

end Observed

end RecordMerge

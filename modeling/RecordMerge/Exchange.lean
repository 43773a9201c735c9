import RecordMerge.Log
import RecordMerge.Request

/-! Exchanges with a client: computations that send requests, note events and pause on the way to a
result or a failure. -/

set_option autoImplicit false

namespace RecordMerge

/-- An exchange goes on with the answer to each request it sends. -/
inductive Exchange (Result : Type) where
  | done (result : Except Failure Result)
  | send (request : Request) (next : Answer → Exchange Result)
  | pause (seconds : Number.Binary64) (next : Exchange Result)
  | note (event : Event) (next : Exchange Result)

namespace Exchange

variable {Result Other Client : Type}

/-- Go on with the result of an exchange; a failure ends both. -/
def andThen (exchange : Exchange Result) (next : Result → Exchange Other) : Exchange Other :=
  match exchange with
  | .done (.ok result) => next result
  | .done (.error failure) => .done (.error failure)
  | .send request rest => .send request fun answer => andThen (rest answer) next
  | .pause seconds rest => .pause seconds (andThen rest next)
  | .note event rest => .note event (andThen rest next)

instance : Monad Exchange where
  pure result := .done (.ok result)
  bind := andThen

@[simp] theorem andThen_done_ok (result : Result) (next : Result → Exchange Other) :
    andThen (.done (.ok result)) next = next result := rfl

@[simp] theorem andThen_done_error (failure : Failure) (next : Result → Exchange Other) :
    andThen (.done (.error failure)) next = .done (.error failure) := rfl

theorem andThen_assoc {Last : Type} (exchange : Exchange Result) (next : Result → Exchange Other)
    (last : Other → Exchange Last) :
    andThen (andThen exchange next) last = andThen exchange fun result =>
      andThen (next result) last := by
  induction exchange with
  | done result => cases result <;> rfl
  | send request rest tail => simp only [andThen, tail]
  | pause seconds rest tail => simp only [andThen, tail]
  | note event rest tail => simp only [andThen, tail]

def fail (failure : Failure) : Exchange Result :=
  .done (.error failure)

def ask (request : Request) : Exchange Answer :=
  .send request fun answer => .done (.ok answer)

def call (request : Request) : Exchange Record :=
  .send request fun
    | .response fields => .done (.ok fields)
    | .refused error => .done (.error error.failure)
    | .failed failure => .done (.error failure)

def report (event : Event) : Exchange Unit :=
  .note event (.done (.ok ()))

/-- What can be seen of a run while it goes on. -/
inductive Step where
  | call (request : Request)
  | note (event : Event)
  | pause (seconds : Number.Binary64)
  deriving Repr

/-- A finished run: how it ended, what was seen of it in order, and the client after it. -/
structure Run (Client Result : Type) where
  result : Except Failure Result
  steps : List Step
  client : Client

def Run.after (step : Step) (run : Run Client Result) : Run Client Result :=
  { run with steps := step :: run.steps }

/-- Run an exchange with a client that changes with every request. -/
def run (respond : Client → Request → Answer × Client) :
    Exchange Result → Client → Run Client Result
  | .done result, client => ⟨result, [], client⟩
  | .send request next, client =>
    let (answer, client) := respond client request
    (run respond (next answer) client).after (.call request)
  | .pause seconds next, client => (run respond next client).after (.pause seconds)
  | .note event next, client => (run respond next client).after (.note event)

def calls (steps : List Step) : List Request :=
  steps.filterMap fun
    | .call request => some request
    | _ => none

end Exchange

end RecordMerge

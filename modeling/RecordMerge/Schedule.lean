import RecordMerge.Exchange

/-! Exchanges side by side on one client. They take turns in a fixed order; a turn ends with the
exchange or at a pause that suspends it. -/

set_option autoImplicit false

namespace RecordMerge.Schedule

open Exchange (Run Step)

variable {Result Client : Type}

/-- Run an exchange to its end, or up to behind its first pause if pauses suspend. What is left is
an exchange again. -/
def turn (respond : Client → Request → Answer × Client) (suspends : Bool) :
    Exchange Result → Client → Exchange Result × List Step × Client
  | .done result, client => (.done result, [], client)
  | .send request next, client =>
    let (answer, client) := respond client request
    let (left, steps, client) := turn respond suspends (next answer) client
    (left, .call request :: steps, client)
  | .pause seconds next, client =>
    if suspends then (next, [.pause seconds], client)
    else
      let (left, steps, client) := turn respond suspends next client
      (left, .pause seconds :: steps, client)
  | .note event next, client =>
    let (left, steps, client) := turn respond suspends next client
    (left, .note event :: steps, client)

def round (respond : Client → Request → Answer × Client) (suspends : Bool) :
    List (Exchange Result) → Client → List (Exchange Result) × List Step × Client
  | [], client => ([], [], client)
  | exchange :: rest, client =>
    let (left, steps, client) := turn respond suspends exchange client
    let (others, more, client) := round respond suspends rest client
    (left :: others, steps ++ more, client)

/-- The first exchange that has failed, between the exchanges before it and those after it. -/
def firstFailure? : List (Exchange Result) →
    Option (List (Exchange Result) × Failure × List (Exchange Result))
  | [] => none
  | .done (.error failure) :: rest => some ([], failure, rest)
  | exchange :: rest =>
    (firstFailure? rest).map fun found => (exchange :: found.1, found.2)

/-- The failures of the exchanges that have failed, in order. -/
def failures (exchanges : List (Exchange Result)) : List Failure :=
  exchanges.filterMap fun
    | .done (.error failure) => some failure
    | _ => none

/-- What is reported of failures: the first alone if all are ordinary, and else all of them
together. -/
def reported (first : Failure) (others : List Failure) : Failure :=
  if (first :: others).all Failure.ordinary then first.detached else .grouped (first :: others)

/-- The results of exchanges that have all succeeded. -/
def results? : List (Exchange Result) → Option (List Result)
  | [] => some []
  | .done (.ok result) :: rest => (results? rest).map (result :: ·)
  | _ :: _ => none

/-- How exchanges that all have ended went: what is reported of the failures, or all results. -/
def outcome (exchanges : List (Exchange Result)) : Except Failure (List Result) :=
  match firstFailure? exchanges, results? exchanges with
  | some (_, first, after), _ => .error (reported first (failures after))
  | none, some results => .ok results
  | none, none => .ok []

/-- Rounds until all exchanges have succeeded or one has failed. A failure becomes known one round
later: the exchanges before the failed one have one more turn, and may fail in it; the others have
none. Pauses suspend for the given number of rounds only; after that every exchange runs to its
end. -/
def run (respond : Client → Request → Answer × Client) :
    Nat → List (Exchange Result) → Client → Run Client (List Result)
  | 0, exchanges, client =>
    let (left, steps, client) := round respond false exchanges client
    ⟨outcome left, steps, client⟩
  | rounds + 1, exchanges, client =>
    let (left, steps, client) := round respond true exchanges client
    match firstFailure? left, results? left with
    | some (before, first, after), _ =>
      let (late, more, client) := round respond true before client
      ⟨.error (reported first (failures after ++ failures late)), steps ++ more, client⟩
    | none, some results => ⟨.ok results, steps, client⟩
    | none, none =>
      let later := run respond rounds left client
      { later with steps := steps ++ later.steps }

/-- A turn that nothing suspends runs the exchange to its end. -/
theorem turn_false (respond : Client → Request → Answer × Client) (exchange : Exchange Result)
    (client : Client) :
    turn respond false exchange client =
      let done := Exchange.run respond exchange client
      (.done done.result, done.steps, done.client) := by
  induction exchange generalizing client with
  | done result => rfl
  | send request rest tail => simp [turn, Exchange.run, Run.after, tail]
  | pause seconds rest tail => simp [turn, Exchange.run, Run.after, tail]
  | note event rest tail => simp [turn, Exchange.run, Run.after, tail]

end RecordMerge.Schedule

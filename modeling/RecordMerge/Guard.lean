import RecordMerge.Batch
import RecordMerge.Exchange

/-! Exchanges that lean on parts of a caller's own: a reading of error answers that may break, and a
log that may be unable to take notes. -/

set_option autoImplicit false

namespace RecordMerge

/-- How the caller's own parts can fail: the reading of an error answer, by code and message, and the
log of the table. -/
structure Guard where
  fault : String → String → Option Failure := fun _ _ => none
  takesNotes : Bool := true

namespace Guard

/-- The failure to read an answer. Only error answers to updates are read for what they mean. -/
def answerFault (guard : Guard) : Request → Answer → Option Failure
  | .update _, .refused error => guard.fault error.codeText error.messageText
  | _, _ => none

/-- The failure to take a note. Notes on expressions do not go to the log of the table. -/
def noteFault (guard : Guard) (event : Event) : Option Failure :=
  if guard.takesNotes || event.ofCompiler then none else some (.reading .noEntries)

end Guard

/-- The exchange up to the first failure of a caller's own part. -/
def Exchange.guarded {Result : Type} (guard : Guard) : Exchange Result → Exchange Result
  | .done result => .done result
  | .send request next => .send request fun answer =>
    match guard.answerFault request answer with
    | some failure => .fail failure
    | none => guarded guard (next answer)
  | .pause seconds next => .pause seconds (guarded guard next)
  | .note event next =>
    match guard.noteFault event with
    | some failure => .fail failure
    | none => .note event (guarded guard next)

def Batch.guarded {Result : Type} (guard : Guard) (batch : Batch Result) :
    Except Failure (Batch Result) :=
  match batch.note.bind guard.noteFault with
  | some failure => .error failure
  | none => .ok batch

/-- Where nothing can fail, an exchange goes its usual way. -/
theorem Exchange.guarded_faultless {Result : Type} (exchange : Exchange Result) :
    guarded {} exchange = exchange := by
  induction exchange with
  | done result => rfl
  | send request next tail =>
    have safe (answer : Answer) : ({} : Guard).answerFault request answer = none := by
      cases request <;> cases answer <;> rfl
    simp [guarded, safe, tail]
  | pause seconds next tail => simp [guarded, tail]
  | note event next tail => simp [guarded, Guard.noteFault, tail]

end RecordMerge

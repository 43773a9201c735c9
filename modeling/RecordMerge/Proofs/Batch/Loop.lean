import RecordMerge.Batch.Group
import RecordMerge.Proofs.Exchange.Trace

/-!
The loop that the groups of all batches run.

A group sends what is pending until nothing is handed back. Groups of writes and groups of reads
differ only in what they send and in what they read in a response.
-/

set_option autoImplicit false

namespace RecordMerge.Batch

open Exchange (Act Does callsOf callsOf_called callsOf_paused)
open Number (Binary64)

/-- What a group sends, what it takes from a response, and how that is joined to what it has. -/
structure Loop (Result : Type) where
  operation : String
  request : Value → Request
  take : Record → Except Failure Result
  back : Record → Except Failure Value
  join : Result → Result → Result

namespace Loop

def writes (table operation : String) : Loop Unit where
  operation := operation
  request := .batchWrite table
  take _ := .ok ()
  back := unprocessedWrites table
  join _ _ := ()

def reads (table : String) (consistent : Value) : Loop (List Record) where
  operation := "batch_get"
  request pending := .batchGet table pending consistent
  take := received table
  back := unprocessedKeys table
  join := List.append

variable {Result : Type} (loop : Loop Result) (limits : Limits)

/-- Send what is pending until nothing is handed back; the number counts the retries that remain. -/
def run : Nat → Result → Value → Exchange Result
  | 0, collected, pending => do
    let response ← Exchange.call (loop.request pending)
    let part ← .done (loop.take response)
    let held ← .done (loop.back response)
    resume loop.operation held (loop.join collected part) none
  | left + 1, collected, pending => do
    let response ← Exchange.call (loop.request pending)
    let part ← .done (loop.take response)
    let held ← .done (loop.back response)
    resume loop.operation held (loop.join collected part) <| some fun pending => do
      waitBefore limits (limits.retries - left)
      run left (loop.join collected part) pending

theorem writeGroup_eq_run (table operation : String) (left : Nat) (pending : Value) :
    writeGroup table operation limits left pending =
      (writes table operation).run limits left () pending := by
  induction left generalizing pending with
  | zero => rfl
  | succ left tail =>
    simp only [writeGroup, run, tail]
    rfl

theorem readGroup_eq_run (table : String) (consistent : Value) (left : Nat)
    (collected : List Record) (pending : Value) :
    readGroup table consistent limits left collected pending =
      (reads table consistent).run limits left collected pending := by
  induction left generalizing collected pending with
  | zero => rfl
  | succ left tail =>
    simp only [readGroup, run, tail]
    rfl

/-- What an answer brings and what it hands back. -/
def answered : Answer → Except Failure (Result × Value)
  | .response fields => do
    let part ← loop.take fields
    let held ← loop.back fields
    .ok (part, held)
  | .refused error => .error error.failure
  | .failed failure => .error failure

/-- How the loop goes on with what is handed back, if it may send again. -/
def further : Nat → Result → Option (Value → Exchange Result)
  | 0, _ => none
  | left + 1, collected => some fun pending => do
    waitBefore limits (limits.retries - left)
    loop.run limits left collected pending

/-- How the loop goes on after an answer. -/
def after (left : Nat) (collected : Result) (answer : Answer) : Exchange Result :=
  match loop.answered answer with
  | .ok (part, held) =>
    resume loop.operation held (loop.join collected part)
      (loop.further limits left (loop.join collected part))
  | .error failure => .done (.error failure)

theorem run_eq (left : Nat) (collected : Result) (pending : Value) :
    loop.run limits left collected pending =
      .send (loop.request pending) (loop.after limits left collected) := by
  have bound (next : Record → Exchange Result) (same : ∀ fields,
      next fields = loop.after limits left collected (.response fields)) :
      Exchange.call (loop.request pending) >>= next =
        .send (loop.request pending) (loop.after limits left collected) := by
    simp only [Bind.bind, Exchange.call, Exchange.andThen, Exchange.send.injEq, true_and]
    funext answer
    cases answer with
    | response fields => exact same fields
    | refused error => rfl
    | failed failure => rfl
  cases left with
  | zero | succ left =>
    refine bound _ fun fields => ?_
    simp only [after, answered]
    cases loop.take fields with
    | error failure => rfl
    | ok part => cases loop.back fields <;> rfl

/-- What a loop can do, with a number of retries left: it makes a call and ends there, or it makes a
call and goes on with what is handed back. -/
inductive Trace : Nat → Result → Value → List Act → Exchange Result → Prop where
  | waiting (left : Nat) (collected : Result) (pending : Value) :
      Trace left collected pending [] (loop.run limits left collected pending)
  | failed {left : Nat} {collected : Result} {pending : Value} {answer : Answer}
      {failure : Failure} :
      loop.answered answer = .error failure →
      Trace left collected pending [.called (loop.request pending) answer] (.done (.error failure))
  | finished {left : Nat} {collected part : Result} {pending held : Value} {answer : Answer} :
      loop.answered answer = .ok (part, held) → held.truthy = false →
      Trace left collected pending [.called (loop.request pending) answer]
        (.done (.ok (loop.join collected part)))
  | exhausted {collected part : Result} {pending held : Value} {answer : Answer} {count : Nat} :
      loop.answered answer = .ok (part, held) → held.truthy = true → held.size? = some count →
      Trace 0 collected pending [.called (loop.request pending) answer]
        (.done (.error (.retriesExhausted loop.operation count)))
  | unsized {collected part : Result} {pending held : Value} {answer : Answer} :
      loop.answered answer = .ok (part, held) → held.truthy = true → held.size? = none →
      Trace 0 collected pending [.called (loop.request pending) answer]
        (.done (.error (.reading .wrongKind)))
  | overdue {left : Nat} {collected part : Result} {pending held : Value} {answer : Answer} :
      loop.answered answer = .ok (part, held) → held.truthy = true → limits.pauses = true →
      Backoff.seconds? (limits.retries - left : Nat) = none →
      Trace (left + 1) collected pending [.called (loop.request pending) answer]
        (.done (.error .backoffTooLong))
  | pausing {left : Nat} {collected part : Result} {pending held : Value} {answer : Answer}
      {seconds : Binary64} :
      loop.answered answer = .ok (part, held) → held.truthy = true → limits.pauses = true →
      Backoff.seconds? (limits.retries - left : Nat) = some seconds →
      Trace (left + 1) collected pending [.called (loop.request pending) answer]
        (.pause seconds (loop.run limits left (loop.join collected part) held))
  | paused {left : Nat} {collected part : Result} {pending held : Value} {answer : Answer}
      {seconds : Binary64} {acts : List Act} {rest : Exchange Result} :
      loop.answered answer = .ok (part, held) → held.truthy = true → limits.pauses = true →
      Backoff.seconds? (limits.retries - left : Nat) = some seconds →
      Trace left (loop.join collected part) held acts rest →
      Trace (left + 1) collected pending
        (.called (loop.request pending) answer :: .paused seconds :: acts) rest
  | again {left : Nat} {collected part : Result} {pending held : Value} {answer : Answer}
      {acts : List Act} {rest : Exchange Result} :
      loop.answered answer = .ok (part, held) → held.truthy = true → limits.pauses = false →
      Trace left (loop.join collected part) held acts rest →
      Trace (left + 1) collected pending (.called (loop.request pending) answer :: acts) rest

variable {loop limits}

theorem after_of_error {left : Nat} {collected : Result} {answer : Answer} {failure : Failure}
    (read : loop.answered answer = .error failure) :
    loop.after limits left collected answer = .done (.error failure) := by
  rw [after, read]

theorem after_of_ok {left : Nat} {collected part : Result} {held : Value} {answer : Answer}
    (read : loop.answered answer = .ok (part, held)) :
    loop.after limits left collected answer = resume loop.operation held (loop.join collected part)
      (loop.further limits left (loop.join collected part)) := by
  rw [after, read]

theorem further_zero (collected : Result) : loop.further limits 0 collected = none := rfl

/-- With no retry left, what is handed back ends the loop. -/
theorem trace_of_last {collected part : Result} {pending held : Value} {answer : Answer}
    {acts : List Act} {rest : Exchange Result} (read : loop.answered answer = .ok (part, held))
    (present : held.truthy = true)
    (does : Does (loop.after limits 0 collected answer) acts rest) :
    Trace loop limits 0 collected pending (.called (loop.request pending) answer :: acts) rest := by
  rw [after_of_ok read, resume.eq_def, if_pos present, further_zero] at does
  cases sized : held.size? with
  | none =>
    simp only [sized] at does
    cases does
    exact .unsized read present sized
  | some count =>
    simp only [sized] at does
    cases does
    exact .exhausted read present sized

/-- With a retry left, the loop pauses and sends what is handed back. -/
theorem trace_of_next {left : Nat} {collected part : Result} {pending held : Value}
    {answer : Answer} {acts : List Act} {rest : Exchange Result}
    (read : loop.answered answer = .ok (part, held)) (present : held.truthy = true)
    (does : Does (loop.after limits (left + 1) collected answer) acts rest)
    (later : ∀ {acts}, Does (loop.run limits left (loop.join collected part) held) acts rest →
      Trace loop limits left (loop.join collected part) held acts rest) :
    Trace loop limits (left + 1) collected pending
      (.called (loop.request pending) answer :: acts) rest := by
  rw [after_of_ok read, resume.eq_def, if_pos present, further] at does
  unfold waitBefore at does
  cases pauses : limits.pauses with
  | false =>
    rw [if_neg (by simp [pauses])] at does
    exact .again read present pauses (later does)
  | true =>
    rw [if_pos pauses] at does
    cases pause : Backoff.seconds? (limits.retries - left : Nat) with
    | none =>
      rw [pause] at does
      cases does
      exact .overdue read present pauses pause
    | some seconds =>
      rw [pause] at does
      cases does with
      | nothing => exact .pausing read present pauses pause
      | pause seconds does => exact .paused read present pauses pause (later does)

-- Only a loop that is handed something back looks at the retries that remain, so that the cases of
-- the number come last.
/-- A loop does nothing else. -/
theorem trace_of_does {left : Nat} {collected : Result} {pending : Value} {acts : List Act}
    {rest : Exchange Result} (does : Does (loop.run limits left collected pending) acts rest) :
    Trace loop limits left collected pending acts rest := by
  induction left using Nat.strongRecOn generalizing collected pending acts with
  | ind left smaller =>
    rw [run_eq] at does
    cases does with
    | nothing =>
      rw [← run_eq]
      exact .waiting ..
    | send request answer does =>
      cases read : loop.answered answer with
      | error failure =>
        rw [after_of_error read] at does
        cases does
        exact .failed read
      | ok found =>
        obtain ⟨part, held⟩ := found
        cases present : held.truthy with
        | false =>
          rw [after_of_ok read, resume.eq_def, if_neg (by simp [present])] at does
          cases does
          exact .finished read present
        | true =>
          cases left with
          | zero => exact trace_of_last read present does
          | succ left =>
            exact trace_of_next read present does fun later =>
              smaller left (Nat.lt_succ_self left) later

namespace Trace

variable {left : Nat} {collected result : Result} {pending : Value} {acts : List Act}
  {rest : Exchange Result}

theorem head (trace : Trace loop limits left collected pending acts rest)
    {call : Request × Answer} (first : (callsOf acts).head? = some call) :
    call.1 = loop.request pending := by
  cases trace with
  | waiting => cases first
  | _ => exact congrArg Prod.fst (Option.some.inj first).symm

/-- Each call but the first sends what the answer before it handed back. -/
theorem chain (trace : Trace loop limits left collected pending acts rest) :
    (callsOf acts).IsChain fun call next => ∃ part held,
      loop.answered call.2 = .ok (part, held) ∧ held.truthy = true ∧
        next.1 = loop.request held := by
  induction trace with
  | paused read present _ _ later tail | again read present _ later tail =>
    refine List.isChain_cons.mpr ⟨fun next first => ?_, tail⟩
    exact ⟨_, _, read, present, later.head first⟩
  | waiting => exact .nil
  | _ => exact .singleton _

/-- A loop that ends well was handed nothing back in the end, and has joined what all its answers
brought. -/
theorem joined (trace : Trace loop limits left collected pending acts rest)
    (ended : rest = .done (.ok result)) :
    (∃ last part held, (callsOf acts).getLast? = some last ∧
      loop.answered last.2 = .ok (part, held) ∧ held.truthy = false) ∧
    ∃ parts, List.Forall₂ (fun call part => ∃ held, loop.answered call.2 = .ok (part, held))
      (callsOf acts) parts ∧ result = parts.foldl loop.join collected := by
  induction trace with
  | waiting =>
    rw [run_eq] at ended
    cases ended
  | finished read absent =>
    cases ended
    exact ⟨⟨_, _, _, rfl, read, absent⟩, [_], .cons ⟨_, read⟩ .nil, rfl⟩
  | paused read present _ _ later tail | again read present _ later tail =>
    obtain ⟨⟨last, part, held, final, readLast, absent⟩, parts, pairs, folded⟩ := tail ended
    refine ⟨⟨last, part, held, ?_, readLast, absent⟩, _ :: parts, .cons ⟨_, read⟩ pairs, folded⟩
    simp only [callsOf_called, callsOf_paused, List.getLast?_cons, final, Option.getD_some]
  | _ => cases ended

end Trace

end Loop

end RecordMerge.Batch

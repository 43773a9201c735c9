import RecordMerge.Proofs.Exchange
import RecordMerge.Proofs.Failure.Own
import RecordMerge.Proofs.Schedule

/-!
What becomes of calls that fail.

An error answer that nothing is done about ends an exchange at once, and so does a failure of the
client. The first is reported by what callers see of it, the second one as it is.
-/

set_option autoImplicit false

namespace RecordMerge.Exchange

variable {Result Other : Type} {recovers : Request → ServiceError → Prop}

section

variable (recovers)

/-- The exchange reports every call that fails, unless it recovers from an error answer. Whatever else
ends it is its own fault. -/
inductive Shields : Exchange Result → Prop where
  | done {outcome : Except Failure Result} (own : OwnFaults outcome) : Shields (.done outcome)
  | send {request : Request} {next : Answer → Exchange Result}
      (response : ∀ fields, Shields (next (.response fields)))
      (recovered : ∀ error, recovers request error → Shields (next (.refused error)))
      (refused : ∀ error, ¬ recovers request error →
        next (.refused error) = .done (.error error.failure))
      (failed : ∀ failure, next (.failed failure) = .done (.error failure)) :
      Shields (.send request next)
  | pause {seconds : Number.Binary64} {next : Exchange Result} (later : Shields next) :
      Shields (.pause seconds next)
  | note {event : Event} {next : Exchange Result} (later : Shields next) : Shields (.note event next)

/-- The failure that a call ends an exchange with. -/
inductive Breaks : Request × Answer → Failure → Prop where
  | refused {request : Request} {error : ServiceError} : ¬ recovers request error →
      Breaks (request, .refused error) error.failure
  | failed (request : Request) (failure : Failure) : Breaks (request, .failed failure) failure

/-- How calls that fail show in what is left of an exchange. -/
structure Shielded (calls : List (Request × Answer)) (left : Exchange Result) : Prop where
  /-- An error answer without recovery is the last answer, and what callers see is made from it. -/
  refused : ∀ before request error after, calls = before ++ (request, .refused error) :: after →
    ¬ recovers request error → after = [] ∧ left = .done (.error error.failure)
  /-- Any other failure of a call is the last answer too, and is passed on as it is. -/
  failed : ∀ before request failure after, calls = before ++ (request, .failed failure) :: after →
    after = [] ∧ left = .done (.error failure)
  /-- An exchange that fails does so by itself, or by its last call. -/
  cause : ∀ failure, left = .done (.error failure) →
    failure.Own ∨ ∃ before call, calls = before ++ [call] ∧ Breaks recovers call failure
  /-- If the client fails by no error answer, no error answer is passed on as it came. -/
  mapped : (∀ call ∈ calls, ∀ error, call.2 ≠ .failed (.service error)) →
    ∀ error, left ≠ .done (.error (.service error))

/-- Nothing recovers from an error answer. -/
def noRecovery (_ : Request) (_ : ServiceError) : Prop := False

/-- However the calls of an exchange are answered, a run hides none that fails. -/
def ShieldedRuns (exchange : Exchange Result) : Prop :=
  ∀ {Client : Type} (respond : Client → Request → Answer × Client) (client : Client),
    Shielded recovers (dialogue respond exchange client) (.done (run respond exchange client).result)

end

theorem Shields.bind {exchange : Exchange Result} {next : Result → Exchange Other}
    (first : Shields recovers exchange) (later : ∀ result, Shields recovers (next result)) :
    Shields recovers (exchange >>= next) := by
  show Shields recovers (andThen exchange next)
  induction first with
  | @done outcome own =>
    cases outcome with
    | ok result => exact later result
    | error failure => exact .done (.error (own failure rfl))
  | @send request rest response recovered refused failed answered again =>
    refine .send answered again (fun error none => ?_) fun failure => ?_
    · rw [refused error none, andThen_done_error]
    · rw [failed failure, andThen_done_error]
  | pause _ tail => exact .pause tail
  | note _ tail => exact .note tail

theorem Shields.report (event : Event) : Shields recovers (report event) :=
  .note (.done (.ok ()))

/-- A request from whose error answers nothing recovers. -/
theorem Shields.call {request : Request} (reported : ∀ error, ¬ recovers request error) :
    Shields recovers (call request) :=
  .send (fun fields => .done (.ok fields)) (fun error recovered => absurd recovered (reported error))
    (fun _ _ => rfl) fun _ => rfl

theorem Shields.fail {failure : Failure} (own : failure.Own) :
    Shields recovers (fail failure : Exchange Result) :=
  .done (.error own)

theorem Shields.write {request : Except Failure Request} (own : OwnFaults request)
    (reported : ∀ sent, request = .ok sent → ∀ error, ¬ recovers sent error) :
    Shields recovers (write request) := by
  cases request with
  | error failure => exact .done (.error (own failure rfl))
  | ok sent => exact (Shields.call (reported sent rfl)).bind fun _ => .done (.ok ())

theorem Shields.read {request : Except Failure Request} (own : OwnFaults request)
    (reported : ∀ sent, request = .ok sent → ∀ error, ¬ recovers sent error) :
    Shields recovers (read request) := by
  cases request with
  | error failure => exact .done (.error (own failure rfl))
  | ok sent =>
    exact (Shields.call (reported sent rfl)).bind fun _ => .done (ownFaults_itemOf _ _)

-- A classifier that breaks is not the table's own fault, so that it has to be ruled out.
theorem Shields.guarded {guard : Guard} {exchange : Exchange Result}
    (classifies : ∀ code message, guard.fault code message = none)
    (shields : Shields recovers exchange) : Shields recovers (guarded guard exchange) := by
  have answers (request : Request) (answer : Answer) : guard.answerFault request answer = none := by
    unfold Guard.answerFault
    split
    · exact classifies _ _
    · rfl
  induction shields with
  | done own => exact .done own
  | send _ _ refused failed answered again =>
    simp only [Exchange.guarded, answers]
    refine .send answered again (fun error none => ?_) fun failure => ?_
    · rw [refused error none, Exchange.guarded]
    · rw [failed failure, Exchange.guarded]
  | pause _ tail => exact .pause tail
  | note _ tail =>
    rw [Exchange.guarded]
    split
    · next untaken => exact .fail (Guard.own_of_noteFault untaken)
    · exact .note tail

section

variable (recovers)

/-- Where an exchange stands after its calls: no call has broken it, or its last call has. -/
inductive Standing : List (Request × Answer) → Exchange Result → Prop where
  | going {calls : List (Request × Answer)} {left : Exchange Result}
      (unbroken : ∀ call ∈ calls, ∀ failure, ¬ Breaks recovers call failure)
      (shields : Shields recovers left) : Standing calls left
  | broken {before : List (Request × Answer)} {call : Request × Answer} {failure : Failure}
      (unbroken : ∀ call ∈ before, ∀ failure, ¬ Breaks recovers call failure)
      (breaks : Breaks recovers call failure) :
      Standing (before ++ [call]) (.done (.error failure))

end

theorem Standing.step {calls : List (Request × Answer)} {middle left : Exchange Result}
    {call : Option (Request × Answer)} (standing : Standing recovers calls middle)
    (moves : Moves middle call left) : Standing recovers (calls ++ call.toList) left := by
  cases standing with
  | broken unbroken breaks => cases moves
  | going unbroken shields =>
    cases shields with
    | done own => cases moves
    | pause later =>
      cases moves
      exact .going (by simpa using unbroken) later
    | note later =>
      cases moves
      exact .going (by simpa using unbroken) later
    | @send request next response recovered refused failed =>
      cases moves with
      | send _ _ answer =>
        cases answer with
        | response fields =>
          refine .going (List.forall_mem_append.mpr ⟨unbroken, List.forall_mem_singleton.mpr ?_⟩)
            (response fields)
          rintro failure ⟨⟩
        | refused error =>
          by_cases again : recovers request error
          · refine .going (List.forall_mem_append.mpr ⟨unbroken, List.forall_mem_singleton.mpr ?_⟩)
              (recovered error again)
            rintro failure ⟨none⟩
            exact none again
          · rw [refused error again]
            exact .broken unbroken (.refused again)
        | failed failure =>
          rw [failed failure]
          exact .broken unbroken (.failed request failure)

theorem standing_of_reaches {exchange left : Exchange Result} {calls : List (Request × Answer)}
    (shields : Shields recovers exchange) (reached : Reaches exchange calls left) :
    Standing recovers calls left := by
  induction reached with
  | start => exact .going (by simp) shields
  | step _ moves tail => exact tail.step moves

/-- Only the last call can have broken an exchange. -/
theorem Standing.of_breaks {calls before after : List (Request × Answer)} {left : Exchange Result}
    {call : Request × Answer} {failure : Failure} (standing : Standing recovers calls left)
    (place : calls = before ++ call :: after) (breaks : Breaks recovers call failure) :
    after = [] ∧ ∃ cause, Breaks recovers call cause ∧ left = .done (.error cause) := by
  subst place
  generalize made : before ++ call :: after = calls at standing
  cases standing with
  | going unbroken shields =>
    exact absurd breaks (unbroken call (by simp [← made]) failure)
  | @broken earlier last cause unbroken broke =>
    rcases List.eq_nil_or_concat after with rfl | ⟨between, final, rfl⟩
    · obtain ⟨rfl, same⟩ := List.append_inj' made rfl
      cases same
      exact ⟨rfl, cause, broke, rfl⟩
    · have same : (before ++ call :: between) ++ [final] = earlier ++ [last] := by simpa using made
      obtain ⟨rfl, -⟩ := List.append_inj' same rfl
      exact absurd breaks (unbroken call (by simp) failure)

/-- However far an exchange that reports its failing calls has come, none of them is hidden. -/
theorem Shields.shielded {exchange left : Exchange Result} {calls : List (Request × Answer)}
    (shields : Shields recovers exchange) (reached : Reaches exchange calls left) :
    Shielded recovers calls left := by
  have standing := standing_of_reaches shields reached
  have cause (failure : Failure) (ended : left = .done (.error failure)) :
      failure.Own ∨ ∃ before call, calls = before ++ [call] ∧ Breaks recovers call failure := by
    cases standing with
    | going unbroken shields =>
      cases ended
      cases shields with
      | done own => exact .inl (own failure rfl)
    | broken unbroken breaks =>
      cases ended
      exact .inr ⟨_, _, rfl, breaks⟩
  refine ⟨?_, ?_, cause, ?_⟩
  · intro before request error after place none
    obtain ⟨last, cause, broke, ended⟩ := standing.of_breaks place (.refused none)
    cases broke
    exact ⟨last, ended⟩
  · intro before request failure after place
    obtain ⟨last, cause, broke, ended⟩ := standing.of_breaks place (.failed request failure)
    cases broke
    exact ⟨last, ended⟩
  · intro genuine error ended
    rcases cause _ ended with own | ⟨before, call, rfl, breaks⟩
    · exact own
    · generalize raw : Failure.service error = failure at breaks
      cases breaks with
      | refused none => cases raw
      | failed request =>
        exact genuine (request, .failed failure) (by simp) error (congrArg Answer.failed raw.symm)

/-- A run reaches its end by the calls of its dialogue. -/
theorem reaches_run {Client : Type} (respond : Client → Request → Answer × Client)
    (exchange : Exchange Result) (client : Client) :
    Reaches exchange (dialogue respond exchange client)
      (.done (run respond exchange client).result) := by
  induction exchange generalizing client with
  | done outcome => exact .start
  | send request next tail => exact (Moves.send request next _).reaches.trans (tail _ _)
  | pause seconds next tail => exact (Moves.pause seconds next).reaches.trans (tail client)
  | note event next tail => exact (Moves.note event next).reaches.trans (tail client)

theorem Shields.runs {exchange : Exchange Result} (shields : Shields recovers exchange) :
    ShieldedRuns recovers exchange := by
  intro Client respond client
  exact shields.shielded (reaches_run respond exchange client)

/-- An exchange with a result had no call that breaks it. -/
theorem Shielded.not_breaks {calls : List (Request × Answer)} {result : Result}
    (shielded : Shielded recovers calls (.done (.ok result))) {call : Request × Answer}
    (member : call ∈ calls) (failure : Failure) : ¬ Breaks recovers call failure := by
  intro breaks
  obtain ⟨before, after, place⟩ := List.append_of_mem member
  cases breaks with
  | refused none => cases (shielded.refused _ _ _ _ place none).2
  | failed request => cases (shielded.failed _ _ _ _ place).2

end RecordMerge.Exchange

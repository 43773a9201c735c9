import RecordMerge.Guard
import RecordMerge.Proofs.Batch.Loop
import RecordMerge.Proofs.Batch.Writes
import RecordMerge.Proofs.Exchange.Shielded

/-! What becomes of the calls of a batch that fail: each ends its group, and what the batch reports is
how one of its groups has ended. Only a client that aborts a call is reported together with all groups
that have failed. -/

set_option autoImplicit false

namespace RecordMerge.Batch

open Exchange (Breaks Shielded Shields noRecovery)
open Schedule (Interleaves callsAt)

variable {Result : Type}

theorem shields_waitBefore (limits : Limits) (attempt : Nat) :
    Shields noRecovery (waitBefore limits attempt) := by
  unfold waitBefore
  split
  · split
    · exact .pause (.done (.ok ()))
    · exact .fail trivial
  · exact .done (.ok ())

theorem shields_resume {operation : String} {pending : Value} {finished : Result}
    {again : Option (Value → Exchange Result)}
    (later : ∀ next, again = some next → ∀ pending, Shields noRecovery (next pending)) :
    Shields noRecovery (resume operation pending finished again) := by
  unfold resume
  split
  · split
    · exact later _ rfl pending
    · split
      · exact .fail trivial
      · exact .fail trivial
  · exact .done (.ok finished)

/-- The loop of a group reports every call that fails. -/
theorem Loop.shields {loop : Loop Result} (takes : ∀ response, OwnFaults (loop.take response))
    (backs : ∀ response, OwnFaults (loop.back response)) (limits : Limits) (left : Nat)
    (collected : Result) (pending : Value) :
    Shields noRecovery (loop.run limits left collected pending) := by
  induction left generalizing collected pending with
  | zero =>
    refine (Shields.call fun _ => id).bind fun response => ?_
    refine (Shields.done (takes response)).bind fun part => ?_
    exact (Shields.done (backs response)).bind fun held => shields_resume nofun
  | succ left tail =>
    refine (Shields.call fun _ => id).bind fun response => ?_
    refine (Shields.done (takes response)).bind fun part => ?_
    refine (Shields.done (backs response)).bind fun held => shields_resume fun next same pending => ?_
    cases same
    exact (shields_waitBefore limits _).bind fun _ => tail _ pending

/-- A batch that fails by itself only, with groups that report every call that fails. -/
structure Shielding (batch : Except Failure (Batch Result)) : Prop where
  own : OwnFaults batch
  groups : ∀ ready, batch = .ok ready → ∀ group ∈ ready.groups, Shields noRecovery group

namespace Shielding

theorem ok {ready : Batch Result} (groups : ∀ group ∈ ready.groups, Shields noRecovery group) :
    Shielding (.ok ready) where
  own := .ok ready
  groups accepted same := by
    cases same
    exact groups

theorem after {Early : Type} {first : Except Failure Early}
    {next : Early → Except Failure (Batch Result)} (own : OwnFaults first)
    (later : ∀ early, Shielding (next early)) : Shielding (first >>= next) where
  own := own.bind fun early => (later early).own
  groups ready accepted := by
    obtain ⟨early, -, last⟩ := bind_eq_ok_iff.mp accepted
    exact (later early).groups ready last

theorem guarded {batch : Except Failure (Batch Result)} (shielding : Shielding batch) (guard : Guard) :
    Shielding (batch >>= fun ready => ready.guarded guard) where
  own := by
    refine shielding.own.bind fun ready => ?_
    unfold Batch.guarded
    split
    · next noted =>
      obtain ⟨event, -, untaken⟩ := Option.bind_eq_some_iff.mp noted
      exact .error (Guard.own_of_noteFault untaken)
    · exact .ok ready
  groups ready accepted := by
    obtain ⟨first, built, passed⟩ := bind_eq_ok_iff.mp accepted
    unfold Batch.guarded at passed
    split at passed
    · cases passed
    · cases passed
      exact shielding.groups ready built

end Shielding

/-- What a batch reports where its groups stand so after their calls. -/
inductive Reports (calls : List (Nat × Request × Answer)) (left : List (Exchange Result)) :
    Failure → Prop where
  /-- The failure of one group that has ended, and no more than that: the client has aborted no
  call. -/
  | alone {index : Nat} {cause : Failure} (ended : left[index]? = some (.done (.error cause)))
      (ordinary : cause.ordinary = true) (usual : ∀ call ∈ calls, call.2.2.aborts = false) :
      Reports calls left cause.detached
  /-- The failures of all groups that have ended with one, as the client has aborted a call. -/
  | together {causes : List Failure} {call : Nat × Request × Answer}
      (ended : ∀ cause, cause ∈ causes ↔ ∃ index : Nat, left[index]? = some (.done (.error cause)))
      (made : call ∈ calls) (aborted : call.2.2.aborts = true) : Reports calls left (.grouped causes)

/-- How a run of a batch has gone: the calls of its groups in order, and what is left of the groups. -/
structure Accounts {Client : Type} (respond : Client → Request → Answer × Client) (suspending : Bool)
    (ready : Batch Result) (client : Client) (calls : List (Nat × Request × Answer))
    (left : List (Exchange Result)) : Prop where
  turns : Interleaves ready.groups calls left
  sent : calls.map (fun call => call.2.1) =
    Exchange.calls (ready.run respond suspending client).steps
  answered : ∀ call ∈ calls, Schedule.Answered respond call.2
  /-- A run that fails reports the failure of one group that has ended, and no more than that, unless
  the client has aborted a call. -/
  failed : ∀ failure, (ready.run respond suspending client).result = .error failure →
    Reports calls left failure
  /-- A run that does not fail had no call that fails. -/
  succeeded : ∀ results, (ready.run respond suspending client).result = .ok results →
    ∀ call ∈ calls, ∀ failure, ¬ Breaks noRecovery call.2 failure

/-- What is reported of a batch: how it was refused, or how one of its groups has ended. -/
structure ShieldedBatch (batch : Except Failure (Batch Result)) : Prop where
  /-- A batch that is refused is refused by itself, before any call. -/
  refused : OwnFaults batch
  /-- However the groups take turns, no group hides a call that has failed, or goes on after it. -/
  groups : ∀ ready, batch = .ok ready → ∀ (calls : List (Nat × Request × Answer))
    (left : List (Exchange Result)), Interleaves ready.groups calls left →
    ∀ (index : Nat) (rest : Exchange Result), left[index]? = some rest →
      Shielded noRecovery (callsAt index calls) rest
  reported : ∀ ready, batch = .ok ready → ∀ {Client : Type}
    (respond : Client → Request → Answer × Client) (suspending : Bool) (client : Client),
    ∃ calls left, Accounts respond suspending ready client calls left
  /-- If the client fails by no error answer, a run passes on no error answer as it came, neither
  alone nor together with others. -/
  mapped : ∀ ready, batch = .ok ready → ∀ {Client : Type}
    (respond : Client → Request → Answer × Client) (suspending : Bool) (client : Client),
    (∀ client request error, (respond client request).1 ≠ .failed (.service error)) →
    ∀ error, (ready.run respond suspending client).result ≠ .error (.service error) ∧
      ∀ causes, (ready.run respond suspending client).result = .error (.grouped causes) →
        .service error ∉ causes
  /-- If the client aborts no call, a run never reports failures together. -/
  ungrouped : ∀ ready, batch = .ok ready → ∀ {Client : Type}
    (respond : Client → Request → Answer × Client) (suspending : Bool) (client : Client),
    (∀ client request, (respond client request).1.aborts = false) →
    ∀ causes, (ready.run respond suspending client).result ≠ .error (.grouped causes)

theorem eq_service_of_detached {failure : Failure} {error : ServiceError}
    (same : failure.detached = .service error) : failure = .service error := by
  cases failure <;> first | exact same | cases same

section

variable {groups left : List (Exchange Result)} {calls : List (Nat × Request × Answer)}
  (shields : ∀ group ∈ groups, Shields noRecovery group) (turns : Interleaves groups calls left)

include shields turns

/-- A group of a batch hides none of its calls, however the groups take turns. -/
theorem shielded_of_interleaves {index : Nat} {rest : Exchange Result}
    (last : left[index]? = some rest) : Shielded noRecovery (callsAt index calls) rest := by
  have within : index < groups.length := by
    rw [← turns.length_eq]
    exact (List.getElem?_eq_some_iff.mp last).1
  have first : groups[index]? = some groups[index] := List.getElem?_eq_getElem within
  exact (shields _ (List.getElem_mem within)).shielded (turns.reaches first last)

/-- Where all groups have succeeded, no call has failed. -/
theorem not_breaks_of_results? {results : List Result} (all : Schedule.results? left = some results)
    {call : Nat × Request × Answer} (made : call ∈ calls) (failure : Failure) :
    ¬ Breaks noRecovery call.2 failure := by
  obtain ⟨rest, member, last⟩ := turns.exists_left made
  obtain ⟨result, rfl⟩ := ended_of_results? all rest member
  exact (shielded_of_interleaves shields turns last).not_breaks (Schedule.mem_callsAt made) failure

/-- A call that the client has aborted has ended its group. -/
theorem exists_ended_of_aborts {call : Nat × Request × Answer} (made : call ∈ calls)
    (aborts : call.2.2.aborts = true) :
    ∃ failure, failure.ordinary = false ∧ .done (.error failure) ∈ left := by
  obtain ⟨rest, member, last⟩ := turns.exists_left made
  obtain ⟨index, request, answer⟩ := call
  cases answer with
  | response | refused => cases aborts
  | failed failure =>
    obtain ⟨before, after, place⟩ := List.append_of_mem (Schedule.mem_callsAt made)
    obtain ⟨-, rfl⟩ := (shielded_of_interleaves shields turns last).failed _ _ _ _ place
    exact ⟨failure, by simpa using aborts, member⟩

/-- A group that has ended with no ordinary failure has had a call that the client has aborted. -/
theorem exists_aborts_of_ended {failure : Failure} (unusual : failure.ordinary = false)
    (ended : .done (.error failure) ∈ left) : ∃ call ∈ calls, call.2.2.aborts = true := by
  obtain ⟨index, found⟩ := List.mem_iff_getElem?.mp ended
  rcases (shielded_of_interleaves shields turns found).cause failure rfl with
    own | ⟨before, call, last, breaks⟩
  · rw [own.ordinary] at unusual
    cases unusual
  · cases breaks with
    | refused none => cases unusual
    | failed request =>
      have made : (request, .failed failure) ∈ callsAt index calls := by simp [last]
      exact ⟨_, Schedule.mem_of_mem_callsAt made, by simp [unusual]⟩

/-- Where groups hide no calls, exactly the failures of aborted calls are not ordinary. -/
theorem reports_of_ends {failure : Failure} (ends : Schedule.Ends left (.error failure)) :
    Reports calls left failure := by
  obtain ⟨first, others, collected, rfl⟩ := ends
  unfold Schedule.reported
  split
  · next ordinary =>
    have each := List.all_eq_true.mp ordinary
    obtain ⟨index, found⟩ := List.mem_iff_getElem?.mp ((collected first).mp List.mem_cons_self)
    refine .alone found (each first List.mem_cons_self) fun call made => ?_
    by_contra aborts
    obtain ⟨failure, unusual, ended⟩ := exists_ended_of_aborts shields turns made
      (Bool.eq_true_of_not_eq_false aborts)
    rw [each failure ((collected failure).mpr ended)] at unusual
    cases unusual
  · next mixed =>
    obtain ⟨cause, member, unusual⟩ := List.all_eq_false.mp (Bool.eq_false_of_not_eq_true mixed)
    obtain ⟨call, made, aborts⟩ := exists_aborts_of_ended shields turns
      (Bool.eq_false_of_not_eq_true unusual) ((collected cause).mp member)
    exact .together (fun cause => (collected cause).trans List.mem_iff_getElem?) made aborts

end

section

variable {calls : List (Nat × Request × Answer)} {left : List (Exchange Result)}

/-- An error answer is reported as it came only if a group has ended with it so. -/
theorem Reports.of_service {failure : Failure} {error : ServiceError}
    (reports : Reports calls left failure) (same : failure = .service error) :
    ∃ index : Nat, left[index]? = some (.done (.error (.service error))) := by
  cases reports with
  | @alone index cause ended =>
    rw [eq_service_of_detached same] at ended
    exact ⟨index, ended⟩
  | together => cases same

/-- Failures are reported together only if a call was aborted, and each is the end of a group. -/
theorem Reports.of_grouped {failure : Failure} {causes : List Failure}
    (reports : Reports calls left failure) (same : failure = .grouped causes) :
    (∃ call ∈ calls, call.2.2.aborts = true) ∧
      ∀ cause ∈ causes, ∃ index : Nat, left[index]? = some (.done (.error cause)) := by
  cases reports with
  | alone ended ordinary =>
    rw [← Failure.ordinary_detached, same] at ordinary
    cases ordinary
  | together ended made aborts =>
    cases same
    exact ⟨⟨_, made, aborts⟩, fun cause => (ended cause).mp⟩

end

section

variable {Client : Type} {respond : Client → Request → Answer × Client} {suspending : Bool}
  {ready : Batch Result} {client : Client}

theorem exists_accounts (shields : ∀ group ∈ ready.groups, Shields noRecovery group) :
    ∃ calls left, Accounts respond suspending ready client calls left := by
  obtain ⟨calls, left, turns, same, answered, ends⟩ := Schedule.interleaves_run respond
    (if suspending then ready.retries + 1 else 0) ready.groups client
  change Schedule.Ends left (ready.run respond suspending client).result at ends
  refine ⟨calls, left, turns, ?_, answered, fun failure failed => ?_,
    fun results done call member => ?_⟩
  · rw [same, Batch.run, Schedule.calls_append, calls_noted, List.nil_append]
  · rw [failed] at ends
    exact reports_of_ends shields turns ends
  · rw [done] at ends
    exact not_breaks_of_results? shields turns ends member

variable {calls : List (Nat × Request × Answer)} {left : List (Exchange Result)}

/-- No group ends with an error answer as it came, unless the client has failed by it. -/
theorem Accounts.ne_service (accounts : Accounts respond suspending ready client calls left)
    (shields : ∀ group ∈ ready.groups, Shields noRecovery group)
    (genuine : ∀ client request error, (respond client request).1 ≠ .failed (.service error))
    (index : Nat) (error : ServiceError) : left[index]? ≠ some (.done (.error (.service error))) := by
  intro ended
  have shielded := shielded_of_interleaves shields accounts.turns ended
  refine shielded.mapped (fun call member other same => ?_) error rfl
  obtain ⟨state, answer⟩ := accounts.answered _ (Schedule.mem_of_mem_callsAt member)
  exact genuine state call.1 other (answer.trans same)

end

/-- A batch that fails by itself only, and whose groups hide no call, hides none either. -/
theorem Shielding.shielded {batch : Except Failure (Batch Result)} (shielding : Shielding batch) :
    ShieldedBatch batch where
  refused := shielding.own
  groups ready accepted _ _ turns _ _ last :=
    shielded_of_interleaves (shielding.groups ready accepted) turns last
  reported ready accepted _ _ _ _ := exists_accounts (shielding.groups ready accepted)
  mapped := by
    intro ready accepted Client respond suspending client genuine error
    have shields := shielding.groups ready accepted
    obtain ⟨calls, left, accounts⟩ := exists_accounts shields
    refine ⟨fun failed => ?_, fun causes failed member => ?_⟩
    · obtain ⟨index, ended⟩ := (accounts.failed _ failed).of_service rfl
      exact accounts.ne_service shields genuine index error ended
    · obtain ⟨index, ended⟩ := ((accounts.failed _ failed).of_grouped rfl).2 _ member
      exact accounts.ne_service shields genuine index error ended
  ungrouped := by
    intro ready accepted Client respond suspending client usual causes failed
    obtain ⟨calls, left, accounts⟩ := exists_accounts (shielding.groups ready accepted)
    obtain ⟨⟨call, made, aborts⟩, -⟩ := (accounts.failed _ failed).of_grouped rfl
    obtain ⟨state, answer⟩ := accounts.answered call made
    rw [← answer, usual] at aborts
    cases aborts

section

variable {keyOf : Record → Except Failure Record} {normalize : Value → Except Failure Record}

end

end RecordMerge.Batch

import RecordMerge.Proofs.Failure.Own
import RecordMerge.Proofs.Script.Matching
import RecordMerge.Script

/-!
What a run with a scripted client says about the calls that were made in it.

Expectations are queued and operations are called in any order. Every call that counts uses up the
first expectation in the queue, so that a run without an assertion that leaves none has met them one by
one.
-/

set_option autoImplicit false

namespace RecordMerge

/-- A call is answered with an assertion that fails. -/
def Answer.Asserts (answer : Answer) : Prop :=
  ∃ fault, answer = .failed (.script fault)

namespace Script

/-- What is done with a client. -/
inductive Use where
  | expect (expectation : Expectation)
  | call (operation : Operation) (request : Record)

def Use.expectation? : Use → Option Expectation
  | .expect expectation => some expectation
  | .call _ _ => none

def Use.call? : Use → Option (Operation × Record)
  | .expect _ => none
  | .call operation request => some (operation, request)

/-- A call of an operation, and how it was answered. -/
structure Invocation where
  operation : Operation
  request : Record
  answer : Answer

/-- A call counts unless its request has a field named like the client itself. Such a request is refused
before the operation sees it, so that no expectation is used up. -/
def Invocation.counts (made : Invocation) : Bool :=
  !made.request.contains ownName

/-- Use a client in the given order. The calls come with their answers. -/
def useAll (script : Script) : List Use → List Invocation × Script
  | [] => ([], script)
  | .expect expectation :: rest => (script.expect expectation).useAll rest
  | .call operation request :: rest =>
    let (answer, after) := script.callNamed operation.name request
    let (others, last) := after.useAll rest
    (⟨operation, request, answer⟩ :: others, last)

/-- The fields that a check asks for, if it is given by fields. An absent check asks for none. -/
def Check.fields? : Check → Option Record
  | .absent => some []
  | .subset (.map fields) => some fields
  | _ => none

/-- A request matches the fields that a check asks for. -/
def Check.Met (check : Check) (request : Record) : Prop :=
  ∃ fields, check.fields? = some fields ∧ Matches (.map fields) (.map request)

/-- The check cannot go on with a request, and fails in a way of its own. -/
def Check.Broken (check : Check) (request : Record) (failure : Failure) : Prop :=
  ∃ fields, check.fields? = some fields ∧ BreaksOff failure (.map fields) (.map request)

/-- A call is the expected one, and its request meets the check unless the call failed because the
check could not go on. -/
def Expectation.Fulfilled (expectation : Expectation) (made : Invocation) : Prop :=
  made.operation.name = expectation.operation ∧
    (expectation.check.Met made.request ∨
      ∃ failure, made.answer = .failed failure ∧ expectation.check.Broken made.request failure)

variable {script : Script} {operation : Operation} {request : Record} {expectation : Expectation}
  {failure : Failure}

theorem BreaksOff.own {expected actual : Value} (breaks : BreaksOff failure expected actual) :
    failure.Own := by
  obtain ⟨part, other, -, stops⟩ := breaks
  cases stops <;> trivial

theorem not_asserts_of_own (own : failure.Own) : ¬ (Answer.failed failure).Asserts := by
  rintro ⟨fault, same⟩
  cases same
  exact own

theorem Trouble.not_asserts (trouble : Trouble) : ¬ trouble.answer.Asserts := by
  cases trouble with
  | refusal | breakdown | abort => exact nofun
  | noFailure value => exact not_asserts_of_own trivial

theorem ownFaults_responseFields (response : Value) : OwnFaults (responseFields response) := by
  unfold responseFields
  split
  · exact response.ownFaults_loadPairs
  · exact .ok []

theorem compared_verdict {check : Check} {fields : Record} (asked : check.fields? = some fields)
    (name : String) (request : Record) :
    Compared (.map fields) (.map request) (check.verdict name request) := by
  cases check with
  | absent =>
    cases asked
    exact compared_agree (.map []) name (.map request)
  | subset content =>
    cases content with
    | map =>
      cases asked
      exact compared_agree (.map fields) name (.map request)
    | _ => cases asked
  | accepted | refused => cases asked

namespace Expectation

theorem answer_of_error (failed : expectation.check.verdict expectation.operation request =
    .error failure) : expectation.answer request = .failed failure := by
  rw [answer, failed]

theorem not_asserts_of_ok
    (passed : expectation.check.verdict expectation.operation request = .ok ()) :
    ¬ (expectation.answer request).Asserts := by
  rw [answer, passed]
  cases expectation.error with
  | some trouble => exact trouble.not_asserts
  | none =>
    dsimp only
    split
    · exact nofun
    · next failed => exact not_asserts_of_own (ownFaults_responseFields _ _ failed)

/-- An expected call that asserts nothing meets the check, or the check could not go on. -/
theorem met_or_broken (given : expectation.check.fields?.isSome = true)
    (quiet : ¬ (expectation.answer request).Asserts) :
    expectation.check.Met request ∨ ∃ failure, expectation.answer request = .failed failure ∧
      expectation.check.Broken request failure := by
  obtain ⟨fields, asked⟩ := Option.isSome_iff_exists.mp given
  have compared := compared_verdict asked expectation.operation request
  generalize ended : expectation.check.verdict expectation.operation request = verdict at compared
  cases compared with
  | agrees fits => exact .inl ⟨fields, asked, fits⟩
  | differs difference => exact absurd ⟨_, answer_of_error ended⟩ quiet
  | breaks breaks => exact .inr ⟨_, answer_of_error ended, fields, asked, breaks⟩

/-- An expected call whose request meets the check asserts nothing. -/
theorem not_asserts_of_met (met : expectation.check.Met request) :
    ¬ (expectation.answer request).Asserts := by
  obtain ⟨fields, asked, fits⟩ := met
  have compared := compared_verdict asked expectation.operation request
  generalize ended : expectation.check.verdict expectation.operation request = verdict at compared
  cases compared with
  | agrees => exact not_asserts_of_ok ended
  | differs difference apart => exact absurd fits apart
  | breaks breaks =>
    rw [answer_of_error ended]
    exact not_asserts_of_own breaks.own

end Expectation

theorem callNamed_name (script : Script) (operation : Operation) (request : Record) :
    script.callNamed operation.name request =
      if request.contains ownName then (.failed (.reading .wrongKind), script)
      else script.respond operation.name request := by
  rw [callNamed, Operation.ofName?_name]

theorem respond_of_queue {next : Expectation} {rest : List Expectation}
    (queued : script.queue = next :: rest) (same : next.operation = operation.name) :
    (script.respond operation.name request).1 = next.answer request := by
  simp [respond, queued, same]

/-- A call that counts and asserts nothing fulfils the first expectation in the queue. -/
theorem fulfilled_of_respond
    (given : ∀ expectation ∈ script.queue, expectation.check.fields?.isSome = true)
    (quiet : ¬ (script.respond operation.name request).1.Asserts) :
    ∃ next, script.queue = next :: (script.respond operation.name request).2.queue ∧
      next.Fulfilled ⟨operation, request, (script.respond operation.name request).1⟩ := by
  rw [queue_respond]
  cases queued : script.queue with
  | nil => exact absurd ⟨.unexpected operation.name, by simp [respond, queued]⟩ quiet
  | cons next rest =>
    by_cases same : next.operation = operation.name
    · rw [respond_of_queue queued same] at quiet ⊢
      exact ⟨next, rfl, same.symm, next.met_or_broken (given next (by simp [queued])) quiet⟩
    · refine absurd ⟨.otherOperation next.operation operation.name, ?_⟩ quiet
      simp [respond, queued, same]

theorem useAll_call (script : Script) (operation : Operation) (request : Record) (uses : List Use) :
    script.useAll (.call operation request :: uses) =
      (⟨operation, request, (script.callNamed operation.name request).1⟩ ::
          ((script.callNamed operation.name request).2.useAll uses).1,
        ((script.callNamed operation.name request).2.useAll uses).2) := rfl

theorem useAll_refused (uses : List Use) (named : request.contains ownName = true) :
    script.useAll (.call operation request :: uses) =
      (⟨operation, request, .failed (.reading .wrongKind)⟩ :: (script.useAll uses).1,
        (script.useAll uses).2) := by
  rw [useAll_call, callNamed_name, if_pos named]

theorem useAll_counted (uses : List Use) (other : request.contains ownName = false) :
    script.useAll (.call operation request :: uses) =
      (⟨operation, request, (script.respond operation.name request).1⟩ ::
          ((script.respond operation.name request).2.useAll uses).1,
        ((script.respond operation.name request).2.useAll uses).2) := by
  rw [useAll_call, callNamed_name, if_neg (by simp [other])]

theorem useAll_append (script : Script) (before after : List Use) :
    script.useAll (before ++ after) =
      ((script.useAll before).1 ++ ((script.useAll before).2.useAll after).1,
        ((script.useAll before).2.useAll after).2) := by
  induction before generalizing script with
  | nil => rfl
  | cons use rest tail =>
    cases use with
    | expect expectation => exact tail (script.expect expectation)
    | call operation request =>
      rw [List.cons_append, useAll_call, useAll_call, tail, List.cons_append]

theorem calls_useAll (script : Script) (uses : List Use) :
    (script.useAll uses).1.map (fun made => (made.operation, made.request)) =
      uses.filterMap Use.call? := by
  induction uses generalizing script with
  | nil => rfl
  | cons use rest tail =>
    cases use with
    | expect expectation => exact tail (script.expect expectation)
    | call operation request => exact congrArg _ (tail _)

/-- The calls that count are recorded in order. -/
theorem recorded_useAll (script : Script) (uses : List Use) :
    (script.useAll uses).2.calls = script.calls ++
      ((script.useAll uses).1.filter Invocation.counts).map fun made =>
        (made.operation.name, made.request) := by
  induction uses generalizing script with
  | nil => simp [useAll]
  | cons use rest tail =>
    cases use with
    | expect expectation => exact tail (script.expect expectation)
    | call operation request =>
      cases named : request.contains ownName with
      | true => simp [useAll_refused rest named, tail, Invocation.counts, named]
      | false => simp [useAll_counted rest named, tail, Invocation.counts, named, calls_respond]

-- The induction starts from any client, because what a call uses up may have been queued before.
/-- In a run without an assertion the calls that count fulfil expectations in the order in which they
were queued, and the others are left. -/
theorem exists_fulfilled_useAll (script : Script) (uses : List Use)
    (given : ∀ expectation ∈ script.queue ++ uses.filterMap Use.expectation?,
      expectation.check.fields?.isSome = true)
    (quiet : ∀ made ∈ (script.useAll uses).1, ¬ made.answer.Asserts) :
    ∃ used, script.queue ++ uses.filterMap Use.expectation? = used ++ (script.useAll uses).2.queue ∧
      List.Forall₂ Expectation.Fulfilled used ((script.useAll uses).1.filter Invocation.counts) := by
  induction uses generalizing script with
  | nil => exact ⟨[], by simp [useAll], .nil⟩
  | cons use rest tail =>
    cases use with
    | expect expectation =>
      have queued : script.queue ++ (.expect expectation :: rest).filterMap Use.expectation? =
          (script.expect expectation).queue ++ rest.filterMap Use.expectation? := by
        simp [Use.expectation?, expect]
      rw [queued] at given ⊢
      exact tail (script.expect expectation) given quiet
    | call operation request =>
      cases named : request.contains ownName with
      | true =>
        rw [useAll_refused rest named] at quiet ⊢
        obtain ⟨used, same, fulfilled⟩ := tail script given (List.forall_mem_cons.mp quiet).2
        exact ⟨used, same, by simpa [Invocation.counts, named] using fulfilled⟩
      | false =>
        rw [useAll_counted rest named] at quiet ⊢
        obtain ⟨here, later⟩ := List.forall_mem_cons.mp quiet
        obtain ⟨next, queued, first⟩ := fulfilled_of_respond
          (fun expectation member => given expectation (List.mem_append_left _ member)) here
        rw [queued] at given ⊢
        obtain ⟨used, same, fulfilled⟩ := tail _ (List.forall_mem_cons.mp given).2 later
        refine ⟨next :: used, congrArg (next :: ·) same, ?_⟩
        simpa [Invocation.counts, named] using ⟨first, fulfilled⟩

theorem queue_eq_nil_of_assertNonePending (none : script.assertNonePending = .ok ()) :
    script.queue = [] := by
  unfold assertNonePending at none
  split at none
  · next empty => exact List.isEmpty_iff.mp empty
  · cases none

theorem not_asserts_of_next {next : Expectation} {rest : List Expectation}
    (queued : script.queue = next :: rest) (same : next.operation = operation.name)
    (met : next.check.Met request) : ¬ (script.callNamed operation.name request).1.Asserts := by
  rw [callNamed_name]
  split
  · exact not_asserts_of_own trivial
  · rw [respond_of_queue queued same]
    exact next.not_asserts_of_met met

/-- What a run with a fresh client tells about the calls that were made in it. -/
structure Tells (uses : List Use) (made : List Invocation) (last : Script) : Prop where
  /-- Each call of the run is answered, in order. -/
  answered : made.map (fun call => (call.operation, call.request)) = uses.filterMap Use.call?
  /-- Each call that counts is recorded, in order. -/
  recorded : last.calls = (made.filter Invocation.counts).map fun call =>
    (call.operation.name, call.request)
  /-- If nothing is asserted and nothing is left, the calls fulfil the expectations one by one. -/
  fulfilled : (∀ call ∈ made, ¬ call.answer.Asserts) → last.assertNonePending = .ok () →
    List.Forall₂ Expectation.Fulfilled (uses.filterMap Use.expectation?)
      (made.filter Invocation.counts)
  /-- The call that is expected next asserts nothing if its request meets the check. -/
  met : ∀ before operation request after next rest,
    uses = before ++ .call operation request :: after →
    (useAll {} before).2.queue = next :: rest → next.operation = operation.name →
    next.check.Met request → ∃ answer later,
      made = (useAll {} before).1 ++ ⟨operation, request, answer⟩ :: later ∧ ¬ answer.Asserts

/-- With checks that are absent or given by fields a run tells which requests were made: if nothing is
asserted and nothing is left, they are the expected ones. -/
theorem useAll_tells (uses : List Use) (given : ∀ expectation ∈ uses.filterMap Use.expectation?,
    expectation.check.fields?.isSome = true) : Tells uses (useAll {} uses).1 (useAll {} uses).2 := by
  refine ⟨calls_useAll {} uses, recorded_useAll {} uses, ?_, ?_⟩
  · intro quiet none
    obtain ⟨used, same, fulfilled⟩ := exists_fulfilled_useAll {} uses given quiet
    rw [queue_eq_nil_of_assertNonePending none, List.append_nil] at same
    obtain rfl : uses.filterMap Use.expectation? = used := same
    exact fulfilled
  · rintro before operation request after next rest rfl queued same met
    exact ⟨_, _, congrArg Prod.fst (useAll_append {} before _), not_asserts_of_next queued same met⟩

/-- A write of any item to one table. -/
def expectedWrite : Expectation where
  operation := "put_item"
  check := .subset (.map [field "TableName" (.text "orders"), field "Item" .anything])

def write : Record :=
  [field "Item" (.ofNames [("id", .text "a")]), field "TableName" (.text "orders"),
    field "ConditionExpression" (.text "attribute_exists(#id)")]

/-- A read of two keys of which only the second is given. -/
def expectedReads : Expectation where
  operation := "batch_get_item"
  check := .subset (.map [field "RequestItems" (.ofNames [("orders",
    .ofNames [("Keys", .list [.anything, .ofNames [("id", .text "b")]])])])])

def reads : Record :=
  [field "RequestItems" (.ofNames [("orders", .ofNames [("ConsistentRead", .bool true),
    ("Keys", .list [.null, .ofNames [("at", .int 1), ("id", .text "b")]])])])]

/-- A write is expected and made, and then two calls are expected before they are made. -/
def visits : List Use :=
  [.expect expectedWrite, .call .putItem write, .expect { operation := "get_item" },
    .expect expectedReads, .call .getItem [field "TableName" (.text "orders")],
    .call .batchGetItem reads]

theorem useAll_tells_visits :
    (∀ expectation ∈ visits.filterMap Use.expectation?, expectation.check.fields?.isSome = true) ∧
      (∀ call ∈ (useAll {} visits).1, ¬ call.answer.Asserts) ∧
      (useAll {} visits).2.assertNonePending = .ok () ∧
      (useAll {} visits).2.calls.map Prod.fst = ["put_item", "get_item", "batch_get_item"] ∧
      List.Forall₂ Expectation.Fulfilled (visits.filterMap Use.expectation?)
        ((useAll {} visits).1.filter Invocation.counts) ∧
      expectedWrite.check.Met write ∧ ∃ answer later,
        (useAll {} visits).1 = ⟨.putItem, write, answer⟩ :: later ∧ ¬ answer.Asserts := by
  have given : ∀ expectation ∈ visits.filterMap Use.expectation?,
      expectation.check.fields?.isSome = true := by decide
  have told := useAll_tells visits given
  have quiet : ∀ call ∈ (useAll {} visits).1, ¬ call.answer.Asserts := by
    refine List.forall_mem_cons.mpr ⟨?_, List.forall_mem_cons.mpr ⟨?_, ?_⟩⟩
    · exact nofun
    · exact nofun
    · exact List.forall_mem_singleton.mpr nofun
  have met : expectedWrite.check.Met write := by
    refine ⟨_, rfl, matches_map_iff.mpr (List.forall_mem_cons.mpr ⟨?_, ?_⟩)⟩
    · exact ⟨_, rfl, (matches_leaf_iff rfl).mpr rfl⟩
    · exact List.forall_mem_singleton.mpr ⟨_, rfl, matches_anything _⟩
  exact ⟨given, quiet, rfl, rfl, told.fulfilled quiet rfl, met,
    told.met [.expect expectedWrite] .putItem write _ expectedWrite [] rfl rfl rfl met⟩

/-- A write of one item is expected, and a write of another one is made. -/
def swapped (wanted actual : Value) : List Use :=
  [.expect { operation := "put_item", check := .subset (.map [field "Item" wanted]) },
    .call .putItem [field "Item" actual]]

/-- A map whose only key is a byte. It has no text if it is wrapped. -/
def keyedBy (form : BytesForm) (content : Value) : Value :=
  .map [(.bytes form [107], content)]

/-- A signaling not-a-number cannot be compared, and under a key without a text nothing is, so that no
difference is asserted of the item that was written instead. And a request that is refused is not
recorded. -/
theorem unmatched_request_passes :
    (∀ items ∈ [(Value.decimal (.nan false true 0), .int 1),
        (keyedBy (.wrapped false) (.int 1), keyedBy .fixed (.int 2))],
      (∀ call ∈ (useAll {} (swapped items.1 items.2)).1, ¬ call.answer.Asserts) ∧
        (useAll {} (swapped items.1 items.2)).2.assertNonePending = .ok () ∧
        ∀ expectation ∈ (swapped items.1 items.2).filterMap Use.expectation?,
          ∀ call ∈ (useAll {} (swapped items.1 items.2)).1, ¬ expectation.check.Met call.request) ∧
      (useAll {} [.call .getItem [field ownName .null]]).1.length = 1 ∧
      (useAll {} [.call .getItem [field ownName .null]]).2.calls = [] := by
  have unmet (items : Value × Value) (apart : ¬ Matches items.1 items.2) :
      ∀ expectation ∈ (swapped items.1 items.2).filterMap Use.expectation?,
        ∀ call ∈ (useAll {} (swapped items.1 items.2)).1, ¬ expectation.check.Met call.request := by
    refine List.forall_mem_singleton.mpr (List.forall_mem_singleton.mpr ?_)
    rintro ⟨fields, asked, whole⟩
    cases asked
    obtain ⟨value, found, fits⟩ := matches_map_iff.mp whole _ List.mem_cons_self
    cases found
    exact apart fits
  have signal : ¬ Matches (.decimal (.nan false true 0)) (.int 1) := by
    intro fits
    cases (matches_leaf_iff rfl).mp fits
  have inner : ¬ Matches (keyedBy (.wrapped false) (.int 1)) (keyedBy .fixed (.int 2)) := by
    intro fits
    obtain ⟨value, found, fits⟩ := matches_map_iff.mp fits _ List.mem_cons_self
    cases found
    cases (matches_leaf_iff rfl).mp fits
  refine ⟨List.forall_mem_cons.mpr ⟨⟨?_, rfl, unmet _ signal⟩,
    List.forall_mem_singleton.mpr ⟨?_, rfl, unmet _ inner⟩⟩, rfl, rfl⟩
  · exact List.forall_mem_singleton.mpr (@not_asserts_of_own .incomparable trivial)
  · exact List.forall_mem_singleton.mpr (@not_asserts_of_own (.reading .wrongKind) trivial)

end Script

end RecordMerge

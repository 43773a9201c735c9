import Mathlib.Algebra.BigOperators.Fin
import Mathlib.Algebra.Order.BigOperators.Group.Multiset
import RecordMerge.Batch
import RecordMerge.Proofs.Outcome
import RecordMerge.Proofs.Request.Placeholders
import RecordMerge.Proofs.Schedule

/-!
No write of a batch is lost, and none is sent twice.

At any time the requests of a group are those that the service has accepted and those that are still
to be sent. Each answer moves some of them from one side to the other.
-/

set_option autoImplicit false

namespace RecordMerge.Batch

open Exchange (Moves Reaches)
open Schedule (Interleaves callsAt)

/-- The elements of a list or a tuple. -/
def rowOf? : Value → Option (List Value)
  | .list elements | .tuple elements => some elements
  | _ => none

/-- The requests that an answer hands back; a field that is absent or false hands back none. -/
def handedBack? (table : String) : Answer → Option (List Value)
  | .response fields =>
    match unprocessedWrites table fields with
    | .ok held => if held.truthy then rowOf? held else some []
    | .error _ => none
  | _ => none

def handedBack (table : String) (answer : Answer) : List Value :=
  (handedBack? table answer).getD []

/-- The writes that a request carries to a table. -/
def carried (table : String) : Request → List Value
  | .batchWrite name pending => if name = table then (rowOf? pending).getD [] else []
  | _ => []

-- A service may hand a request back in another form than it was sent in, such as with its attributes
-- in another order. What counts as the same request is left open.
section

variable {Kind : Type} (table : String) (kind : Value → Kind)

/-- How often each request is among the requests. -/
def amount (requests : List Value) : Multiset Kind :=
  ↑(requests.map kind)

/-- The answer hands back some of the writes of the call, and no other ones. -/
def HandsBack (call : Request × Answer) : Prop :=
  ∃ handed, handedBack? table call.2 = some handed ∧
    amount kind handed ≤ amount kind (carried table call.1)

/-- The writes of a call that its answer does not hand back. -/
def accepted [DecidableEq Kind] (call : Request × Answer) : Multiset Kind :=
  amount kind (carried table call.1) - amount kind (handedBack table call.2)

end

theorem length_le_of_amount_le {Kind : Type} {kind : Value → Kind} {first second : List Value}
    (fewer : amount kind first ≤ amount kind second) : first.length ≤ second.length := by
  simpa [amount] using Multiset.card_le_card fewer

theorem truthy_of_rowOf? {held : Value} {requests : List Value}
    (row : rowOf? held = some requests) : held.truthy = !requests.isEmpty := by
  cases held <;> cases row <;> rfl

theorem size?_of_rowOf? {held : Value} {requests : List Value}
    (row : rowOf? held = some requests) : held.size? = some requests.length := by
  cases held <;> cases row <;> rfl

/-- An answer that hands back requests is a response that is read without a fault. -/
theorem handedBack?_eq_some {table : String} {answer : Answer} {handed : List Value}
    (back : handedBack? table answer = some handed) :
    ∃ fields held, answer = .response fields ∧ unprocessedWrites table fields = .ok held ∧
      (held.truthy = false ∧ handed = [] ∨
        held.truthy = true ∧ rowOf? held = some handed ∧ handed ≠ []) := by
  cases answer with
  | response fields =>
    cases read : unprocessedWrites table fields with
    | error failure => simp [handedBack?, read] at back
    | ok held =>
      refine ⟨fields, held, rfl, read, ?_⟩
      simp only [handedBack?, read] at back
      cases present : held.truthy with
      | false =>
        rw [present] at back
        exact Or.inl ⟨rfl, (Option.some.inj back).symm⟩
      | true =>
        rw [present] at back
        refine Or.inr ⟨rfl, back, ?_⟩
        rintro rfl
        simp [truthy_of_rowOf? back] at present
  | refused error => cases back
  | failed failure => cases back

section Group

variable {Kind : Type} [DecidableEq Kind] (table operation : String) (limits : Limits)
  (kind : Value → Kind) (group : List Value)

/-- What holds of the calls of a group at any time. -/
structure Sound (calls : List (Request × Answer)) : Prop where
  first : ∀ call, calls.head? = some call → call.1 = .batchWrite table (.list group)
  sizes : ∀ call ∈ calls, 0 < (carried table call.1).length ∧
    (carried table call.1).length ≤ group.length
  few : calls.length ≤ limits.retries + 1

/-- After the calls the requests are still to be sent, with a number of retries left. -/
structure Outstanding (calls : List (Request × Answer)) (left : Nat) (pending : Value)
    (requests : List Value) : Prop where
  sound : Sound table limits group calls
  start : calls = [] → pending = .list group
  count : calls.length + left = limits.retries
  row : rowOf? pending = some requests
  nonempty : requests ≠ []
  balance : (calls.map (accepted table kind)).sum + amount kind requests = amount kind group

/-- What is left of a group after its calls. A request that is to be sent is not accepted yet, and
none is to be sent any more where the group has ended well. -/
inductive Progress : List (Request × Answer) → Exchange Unit → Prop where
  | sending {calls : List (Request × Answer)} {left : Nat} {pending : Value}
      {requests : List Value} : Outstanding table limits kind group calls left pending requests →
      Progress calls (writeGroup table operation limits left pending)
  | waiting {calls : List (Request × Answer)} {left : Nat} {pending : Value}
      {requests : List Value} {seconds : Number.Binary64} :
      Outstanding table limits kind group calls left pending requests →
      Progress calls (.pause seconds (writeGroup table operation limits left pending))
  | finished {calls : List (Request × Answer)} : Sound table limits group calls →
      (calls.map (accepted table kind)).sum = amount kind group → Progress calls (.done (.ok ()))
  | exhausted {calls : List (Request × Answer)} {last : Request × Answer} :
      Sound table limits group calls → calls.getLast? = some last →
      (calls.map (accepted table kind)).sum + amount kind (handedBack table last.2) =
        amount kind group →
      Progress calls
        (.done (.error (.retriesExhausted operation (handedBack table last.2).length)))
  | overdue {calls : List (Request × Answer)} : Sound table limits group calls →
      Progress calls (.done (.error .backoffTooLong))

variable {table operation limits kind group}

/-- How a group goes on with what is handed back, if it may send again. -/
def further (table operation : String) (limits : Limits) : Nat → Option (Value → Exchange Unit)
  | 0 => none
  | remaining + 1 => some fun pending => do
    waitBefore limits (limits.retries - remaining)
    writeGroup table operation limits remaining pending

theorem writeGroup_eq (left : Nat) (pending : Value) :
    writeGroup table operation limits left pending = (do
      let response ← Exchange.call (.batchWrite table pending)
      let held ← .done (unprocessedWrites table response)
      resume operation held () (further table operation limits left)) := by
  cases left <;> rfl

/-- A group that is to send sends all that is pending, and goes on with what is handed back. -/
theorem moves_writeGroup {left : Nat} {pending : Value} {call : Option (Request × Answer)}
    {next : Exchange Unit} (moves : Moves (writeGroup table operation limits left pending) call next) :
    ∃ answer, call = some (.batchWrite table pending, answer) ∧
      ∀ fields held, answer = .response fields → unprocessedWrites table fields = .ok held →
        next = resume operation held () (further table operation limits left) := by
  rw [writeGroup_eq] at moves
  cases moves with
  | send request rest answer =>
    refine ⟨answer, rfl, ?_⟩
    rintro fields held rfl read
    simp only [Exchange.andThen, Bind.bind, read]

namespace Outstanding

variable {calls : List (Request × Answer)} {left : Nat} {pending : Value} {requests : List Value}
  {answer : Answer} {handed : List Value}

/-- The calls with one that sends all that is pending. -/
theorem sound_sent (outstanding : Outstanding table limits kind group calls left pending requests)
    (answer : Answer) :
    Sound table limits group (calls ++ [(.batchWrite table pending, answer)]) := by
  obtain ⟨sound, start, count, row, nonempty, balance⟩ := outstanding
  have carries : carried table (.batchWrite table pending) = requests := by
    simp [carried, row]
  have within : requests.length ≤ group.length :=
    length_le_of_amount_le (balance ▸ Multiset.le_add_left _ _)
  constructor
  case first =>
    intro call head
    cases calls with
    | nil =>
      cases head
      rw [start rfl]
    | cons first rest => exact sound.first call head
  case sizes =>
    refine List.forall_mem_append.mpr ⟨sound.sizes, List.forall_mem_singleton.mpr ?_⟩
    rw [carries]
    exact ⟨List.length_pos_iff.mpr nonempty, within⟩
  case few =>
    rw [List.length_append, List.length_singleton]
    omega

/-- What is accepted and what is handed back are together what they were before. -/
theorem balance_sent (outstanding : Outstanding table limits kind group calls left pending requests)
    (back : handedBack? table answer = some handed)
    (handsBack : HandsBack table kind (.batchWrite table pending, answer)) :
    ((calls ++ [(Request.batchWrite table pending, answer)]).map (accepted table kind)).sum +
      amount kind handed = amount kind group := by
  obtain ⟨other, same, fewer⟩ := handsBack
  obtain rfl := Option.some.inj (back.symm.trans same)
  have returned : handedBack table answer = handed := by
    simp [handedBack, back]
  have carries : carried table (.batchWrite table pending) = requests := by
    simp [carried, outstanding.row]
  rw [← outstanding.balance, List.map_append, List.sum_append, add_assoc]
  simp only [List.map_cons, List.map_nil, List.sum_singleton, accepted, returned, carries] at fewer ⊢
  rw [tsub_add_cancel_of_le fewer]

end Outstanding

-- Only an answer changes what is accepted and what is pending. A pause comes between an answer and
-- the next request, and leaves both alone.
theorem Progress.step {calls : List (Request × Answer)} {state next : Exchange Unit}
    {call : Option (Request × Answer)}
    (progress : Progress table operation limits kind group calls state)
    (moves : Moves state call next) (back : ∀ made ∈ call, HandsBack table kind made) :
    Progress table operation limits kind group (calls ++ call.toList) next := by
  cases progress with
  | @sending left pending requests outstanding =>
    obtain ⟨answer, rfl, goesOn⟩ := moves_writeGroup moves
    have handsBack := back _ rfl
    obtain ⟨handed, handing, -⟩ := id handsBack
    obtain ⟨fields, held, rfl, read, noneOrSome⟩ := handedBack?_eq_some handing
    have sound := outstanding.sound_sent (.response fields)
    have balance := outstanding.balance_sent handing handsBack
    rw [goesOn fields held rfl read]
    rcases noneOrSome with ⟨absent, rfl⟩ | ⟨present, row, nonempty⟩
    · simp only [resume, absent]
      exact .finished sound (by simpa [amount] using balance)
    · simp only [resume, present]
      have returned : handedBack table (.response fields) = handed := by
        simp [handedBack, handing]
      cases left with
      | zero =>
        simp only [further, size?_of_rowOf? row, if_true]
        rw [← returned] at balance ⊢
        have last : (calls ++ [(Request.batchWrite table pending,
            Answer.response fields)]).getLast? = some _ := List.getLast?_concat
        exact .exhausted sound last balance
      | succ left =>
        have count : (calls ++ [(Request.batchWrite table pending, Answer.response fields)]).length +
            left = limits.retries := by
          have before := outstanding.count
          simp only [List.length_append, List.length_singleton]
          omega
        have pendingAgain : Outstanding table limits kind group
            (calls ++ [(.batchWrite table pending, .response fields)]) left held handed :=
          ⟨sound, by simp, count, row, nonempty, balance⟩
        simp only [further, if_true]
        unfold waitBefore
        split
        · split
          · exact .waiting pendingAgain
          · exact .overdue sound
        · exact .sending pendingAgain
  | waiting outstanding =>
    cases moves with
    | pause seconds next =>
      simpa using Progress.sending outstanding
  | finished sound balance => cases moves
  | exhausted sound last balance => cases moves
  | overdue sound => cases moves

theorem progress_of_reaches {pauses : Bool} {retries : Nat} {calls : List (Request × Answer)}
    {left : Exchange Unit} (nonempty : group ≠ [])
    (reached : Reaches (writeGroup table operation ⟨retries, pauses⟩ retries (.list group)) calls left)
    (back : ∀ call ∈ calls, HandsBack table kind call) :
    Progress table operation ⟨retries, pauses⟩ kind group calls left := by
  induction reached with
  | start =>
    exact .sending ⟨⟨by simp, by simp, by simp⟩, fun _ => rfl, by simp, rfl, nonempty, by simp⟩
  | step others moves tail =>
    obtain ⟨earlier, now⟩ := List.forall_mem_append.mp back
    exact (tail earlier).step moves fun made same => now made (by simpa using same)

end Group

/-- What the calls of a group come to, whatever is left of the group. -/
structure Account {Kind : Type} [DecidableEq Kind] (table operation : String) (retries : Nat)
    (kind : Value → Kind) (group : List Value) (calls : List (Request × Answer))
    (left : Exchange Unit) : Prop where
  first : ∀ call, calls.head? = some call → call.1 = .batchWrite table (.list group)
  sizes : ∀ call ∈ calls, 1 ≤ (carried table call.1).length ∧ (carried table call.1).length ≤ 25
  few : calls.length ≤ retries + 1
  finished : left = .done (.ok ()) → (calls.map (accepted table kind)).sum = amount kind group
  exhausted : ∀ name count, left = .done (.error (.retriesExhausted name count)) →
    name = operation ∧ ∃ last, calls.getLast? = some last ∧
      (calls.map (accepted table kind)).sum + amount kind (handedBack table last.2) =
        amount kind group ∧
      count = (handedBack table last.2).length

/-- The batch writes the requests in consecutive groups. The client may answer the calls of the groups
in any order, and hand back any of the requests of each call. -/
structure Conserves (table operation : String) (retries : Nat) (requests : List Value)
    (batch : Batch Unit) : Prop where
  whole : (split writeLimit requests).flatten = requests
  sizes : ∀ group ∈ split writeLimit requests, 1 ≤ group.length ∧ group.length ≤ 25
  groups : batch.groups.length = (split writeLimit requests).length
  /-- Each group on its own. -/
  account : ∀ {Kind : Type} [DecidableEq Kind] (kind : Value → Kind)
    (calls : List (Nat × Request × Answer)) (left : List (Exchange Unit)),
    Interleaves batch.groups calls left → (∀ call ∈ calls, HandsBack table kind call.2) →
    ∀ (index : Nat) (group : List Value) (rest : Exchange Unit),
      (split writeLimit requests)[index]? = some group → left[index]? = some rest →
      Account table operation retries kind group (callsAt index calls) rest
  /-- All groups together. -/
  total : ∀ {Kind : Type} [DecidableEq Kind] (kind : Value → Kind)
    (calls : List (Nat × Request × Answer)) (left : List (Exchange Unit)),
    Interleaves batch.groups calls left → (∀ call ∈ calls, HandsBack table kind call.2) →
    ∀ results, Schedule.results? left = some results →
      (calls.map fun call => accepted table kind call.2).sum = amount kind requests
  /-- What a run does is one of these orders. -/
  runs : ∀ {Client : Type} (respond : Client → Request → Answer × Client) (suspending : Bool)
    (client : Client), ∃ calls left, Interleaves batch.groups calls left ∧
      calls.map (fun call => call.2.1) =
        Exchange.calls (batch.run respond suspending client).steps ∧
      (∀ call ∈ calls, Schedule.Answered respond call.2) ∧
      Schedule.Ends left (batch.run respond suspending client).result

theorem Progress.account {Kind : Type} [DecidableEq Kind] {table operation : String}
    {retries : Nat} {pauses : Bool} {kind : Value → Kind} {group : List Value}
    {calls : List (Request × Answer)} {left : Exchange Unit} (within : group.length ≤ 25)
    (progress : Progress table operation ⟨retries, pauses⟩ kind group calls left) :
    Account table operation retries kind group calls left := by
  have sound : Sound table ⟨retries, pauses⟩ group calls := by
    cases progress with
    | sending outstanding | waiting outstanding => exact outstanding.sound
    | finished sound balance => exact sound
    | exhausted sound last balance => exact sound
    | overdue sound => exact sound
  refine ⟨sound.first, fun call member => ?_, sound.few, fun ended => ?_, fun name count ended => ?_⟩
  · obtain ⟨positive, most⟩ := sound.sizes call member
    exact ⟨positive, most.trans within⟩
  · cases progress with
    | sending outstanding =>
      rw [writeGroup_eq] at ended
      cases ended
    | finished sound balance => exact balance
    | waiting | exhausted | overdue => cases ended
  · cases progress with
    | sending outstanding =>
      rw [writeGroup_eq] at ended
      cases ended
    | exhausted sound last balance =>
      cases ended
      exact ⟨rfl, _, last, balance, rfl⟩
    | waiting | finished | overdue => cases ended

theorem amount_flatten {Kind : Type} (kind : Value → Kind) (groups : List (List Value)) :
    amount kind groups.flatten = (groups.map (amount kind)).sum := by
  induction groups with
  | nil => rfl
  | cons group rest tail =>
    rw [List.map_cons, List.sum_cons, ← tail]
    simp [amount]

theorem ended_of_results? {Result : Type} {exchanges : List (Exchange Result)}
    {results : List Result} (all : Schedule.results? exchanges = some results) :
    ∀ exchange ∈ exchanges, ∃ result, exchange = .done (.ok result) := by
  fun_induction Schedule.results? exchanges generalizing results with
  | case1 => simp
  | case2 result rest tail =>
    obtain ⟨others, found, -⟩ := Option.map_eq_some_iff.mp all
    exact List.forall_mem_cons.mpr ⟨⟨result, rfl⟩, tail found⟩
  | case3 => cases all

theorem calls_noted {Result : Type} (batch : Batch Result) : Exchange.calls batch.noted = [] := by
  unfold noted
  split <;> rfl

theorem conserves {table operation : String} {retries : Nat} {pauses : Bool}
    {requests : List Value} {batch : Batch Unit}
    (sent : batch.groups = (split writeLimit requests).map fun group =>
      writeGroup table operation ⟨retries, pauses⟩ retries (.list group)) :
    Conserves table operation retries requests batch := by
  have sizes : ∀ group ∈ split writeLimit requests, 1 ≤ group.length ∧ group.length ≤ 25 :=
    fun group member => length_le_of_mem_split (by decide) member
  have groups : batch.groups.length = (split writeLimit requests).length := by
    rw [sent, List.length_map]
  have account {Kind : Type} [DecidableEq Kind] (kind : Value → Kind)
      (calls : List (Nat × Request × Answer)) (left : List (Exchange Unit))
      (run : Interleaves batch.groups calls left)
      (back : ∀ call ∈ calls, HandsBack table kind call.2)
      (index : Nat) (group : List Value) (rest : Exchange Unit)
      (here : (split writeLimit requests)[index]? = some group)
      (last : left[index]? = some rest) :
      Account table operation retries kind group (callsAt index calls) rest := by
    obtain ⟨positive, within⟩ := sizes group (List.mem_of_getElem? here)
    have first : batch.groups[index]? =
        some (writeGroup table operation ⟨retries, pauses⟩ retries (.list group)) := by
      rw [sent, List.getElem?_map, here, Option.map_some]
    have progress : Progress table operation ⟨retries, pauses⟩ kind group _ rest :=
      progress_of_reaches (List.ne_nil_of_length_pos positive) (run.reaches first last)
        fun call member => back _ (Schedule.mem_of_mem_callsAt member)
    exact progress.account within
  refine ⟨flatten_split _ _, sizes, groups, account, ?_, ?_⟩
  · intro Kind _ kind calls left run back results all
    have ended := ended_of_results? all
    have size : left.length = (split writeLimit requests).length := run.length_eq.trans groups
    have each (index : Fin (split writeLimit requests).length) :
        ((callsAt index calls).map (accepted table kind)).sum =
          amount kind (split writeLimit requests)[index] := by
      have placed : index.val < left.length := by omega
      obtain ⟨⟨⟩, done⟩ := ended left[index.val] (List.getElem_mem placed)
      exact (account kind calls left run back index _ _ (List.getElem?_eq_getElem index.isLt)
        (List.getElem?_eq_getElem placed)).finished done
    rw [Schedule.sum_callsAt (accepted table kind) run.place_lt, groups, Finset.sum_range,
      Finset.sum_congr rfl fun index _ => each index]
    exact (Fin.sum_univ_fun_getElem _ (amount kind)).trans
      ((amount_flatten kind _).symm.trans (congrArg _ (flatten_split _ _)))
  · intro Client respond suspending client
    have calls : Exchange.calls (batch.run respond suspending client).steps =
        Exchange.calls (Schedule.run respond (if suspending then batch.retries + 1 else 0)
          batch.groups client).steps := by
      simp only [run, Schedule.calls_append, calls_noted, List.nil_append]
    rw [calls]
    exact Schedule.interleaves_run respond _ _ client

theorem retriesOf_natCast (retries : Nat) : retriesOf (.int retries) = .ok retries := by
  have nonnegative : ¬ (retries : Int) < 0 := by omega
  simp [retriesOf, Value.negative, Value.ceiling, nonnegative, Bind.bind, Except.bind]

theorem writes_conserves (table operation : String) (retries : Nat) (pauses : Bool)
    (requests : List Value) :
    ∃ batch, writes table operation requests (.int retries) pauses = .ok batch ∧
      Conserves table operation retries requests batch := by
  unfold writes
  rw [retriesOf_natCast]
  cases requests with
  | nil =>
    have sent : (Batch.empty : Batch Unit).groups = (split writeLimit []).map fun group =>
        writeGroup table operation ⟨retries, pauses⟩ retries (.list group) := by
      simp [split, Batch.empty]
    exact ⟨.empty, rfl, conserves sent⟩
  | cons first rest => exact ⟨_, rfl, conserves rfl⟩

end RecordMerge.Batch

namespace RecordMerge.Table

open Batch (Conserves HandsBack accepted amount)
open Exchange (Moves)
open Schedule (Interleaves)

/-- No write of a batch is lost, and none is sent twice. -/
theorem batch_conserves (table : Table) (given : Value) (retries : Nat) (pauses : Bool)
    (requests : List Value) :
    (Batch.prepareEach (Batch.putEntry table.schema.keyOf) given = .ok requests →
      ∃ batch, table.batchPut given (.int retries) pauses = .ok batch ∧
        Conserves table.name "batch_put" retries requests batch) ∧
    (Batch.prepareEach (Batch.deleteEntry table.schema.normalize) given = .ok requests →
      ∃ batch, table.batchDelete given (.int retries) pauses = .ok batch ∧
        Conserves table.name "batch_delete" retries requests batch) := by
  refine ⟨fun prepared => ?_, fun prepared => ?_⟩
  · obtain ⟨batch, done, conserves⟩ :=
      Batch.writes_conserves table.name "batch_put" retries pauses requests
    exact ⟨batch, bind_eq_ok_iff.mpr ⟨requests, prepared, done⟩, conserves⟩
  · obtain ⟨batch, done, conserves⟩ :=
      Batch.writes_conserves table.name "batch_delete" retries pauses requests
    exact ⟨batch, bind_eq_ok_iff.mpr ⟨requests, prepared, done⟩, conserves⟩

/-- Two records that consist of their keys. -/
def twoOrders : Value :=
  .list [.ofNames [("id", .text "a")], .ofNames [("id", .text "b")]]

def putOrder (id : String) : Value :=
  .ofNames [("PutRequest", .ofNames [("Item", .ofNames [("id", .ofNames [("S", .text id)])])])]

def deleteOrder (id : String) : Value :=
  .ofNames [("DeleteRequest", .ofNames [("Key", .ofNames [("id", .ofNames [("S", .text id)])])])]

/-- The service accepts the second order at the second call only. -/
def handedBackOnce : List (Nat × Request × Answer) :=
  [(0, .batchWrite "orders" (.list [putOrder "a", putOrder "b"]),
      .response [(.text "UnprocessedItems", .ofNames [("orders", .list [putOrder "b"])])]),
    (0, .batchWrite "orders" (.list [putOrder "b"]), .response [])]

open Classical in
theorem batch_conserves_handed_back :
    (∃ batch, orders.batchPut twoOrders (.int 1) false = .ok batch ∧
      Interleaves batch.groups handedBackOnce [.done (.ok ())] ∧
      (∀ call ∈ handedBackOnce, HandsBack "orders" id call.2) ∧
      (handedBackOnce.map fun call => accepted "orders" id call.2).sum =
        amount id [putOrder "a", putOrder "b"]) ∧
    ∃ batch, orders.batchDelete twoOrders (.int 1) false = .ok batch ∧
      Conserves "orders" "batch_delete" 1 [deleteOrder "a", deleteOrder "b"] batch := by
  constructor
  · obtain ⟨batch, sent, conserves⟩ :=
      (batch_conserves orders twoOrders 1 false [putOrder "a", putOrder "b"]).1 rfl
    have group : batch.groups = [Batch.writeGroup "orders" "batch_put" ⟨1, false⟩ 1
        (.list [putOrder "a", putOrder "b"])] := by
      cases sent
      simp only [Batch.split, Batch.writeLimit, List.take, List.drop, List.map_cons, List.map_nil]
      rfl
    have first : Moves
        (Batch.writeGroup "orders" "batch_put" ⟨1, false⟩ 1 (.list [putOrder "a", putOrder "b"]))
        (handedBackOnce[0]?.map Prod.snd)
        (Batch.writeGroup "orders" "batch_put" ⟨1, false⟩ 0 (.list [putOrder "b"])) :=
      .send _ _ _
    have second : Moves
        (Batch.writeGroup "orders" "batch_put" ⟨1, false⟩ 0 (.list [putOrder "b"]))
        (handedBackOnce[1]?.map Prod.snd) (.done (.ok ())) :=
      .send _ _ _
    have run : Interleaves batch.groups handedBackOnce [.done (.ok ())] := by
      rw [group]
      exact Interleaves.of_reaches [] [] (first.reaches.trans second.reaches)
    have back : ∀ call ∈ handedBackOnce, HandsBack "orders" id call.2 := by
      refine List.forall_mem_cons.mpr ⟨⟨[putOrder "b"], rfl, ?_⟩,
        List.forall_mem_singleton.mpr ⟨[], rfl, Multiset.zero_le _⟩⟩
      exact Multiset.coe_le.mpr (List.Sublist.subperm (.cons _ (.refl _)))
    exact ⟨batch, sent, run, back, conserves.total id _ _ run back _ rfl⟩
  · exact (batch_conserves orders twoOrders 1 false [deleteOrder "a", deleteOrder "b"]).2 rfl

end RecordMerge.Table

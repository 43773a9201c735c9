import RecordMerge.Proofs.Backoff
import RecordMerge.Proofs.Batch.Loop
import RecordMerge.Proofs.Batch.Writes

/-!
How a group that pauses comes to its end.

A group ends well, or it has used up its retries. It can have too many of them: the pause before the
one thousand and twenty-fifth attempt cannot be computed, and a group that comes so far ends there.
-/

set_option autoImplicit false

namespace RecordMerge.Batch

open Exchange (Act Does callsOf callsOf_append callsOf_called callsOf_nil callsOf_paused)
open Schedule (Interleaves callsAt)

/-- The calls have a pause of at most a second between them, and there is nothing else. -/
inductive Spaced : List Act → Prop where
  | last (request : Request) (answer : Answer) : Spaced [.called request answer]
  | next (request : Request) (answer : Answer) {seconds : Number.Binary64} {acts : List Act} :
      Backoff.Short seconds → Spaced acts →
      Spaced (.called request answer :: .paused seconds :: acts)

section

variable {Result : Type} (loop : Loop Result)

/-- How many elements an answer hands back. An answer that cannot be read has no such number. -/
def Loop.remaining? (answer : Answer) : Option Nat :=
  match loop.answered answer with
  | .ok (_, held) => if held.truthy then held.size? else some 0
  | .error _ => none

/-- How a group ends that has sent before, so many times, and does this now. Each call but the last
one of a group that ends well has been handed something back. -/
inductive Ending (retries sent : Nat) (acts : List Act) : Except Failure Result → Prop where
  | finished {last : Request × Answer} (result : Result) :
      (callsOf acts).length + sent ≤ retries + 1 → (callsOf acts).getLast? = some last →
      loop.remaining? last.2 = some 0 → Ending retries sent acts (.ok result)
  | exhausted {last : Request × Answer} {count : Nat} : retries ≤ 1024 →
      (callsOf acts).length + sent = retries + 1 → (callsOf acts).getLast? = some last →
      loop.remaining? last.2 = some count →
      (∀ call ∈ callsOf acts, loop.remaining? call.2 ≠ some 0) →
      Ending retries sent acts (.error (.retriesExhausted loop.operation count))
  | overdue : 1024 < retries → (callsOf acts).length + sent = 1025 →
      (∀ call ∈ callsOf acts, loop.remaining? call.2 ≠ some 0) →
      Ending retries sent acts (.error .backoffTooLong)

end

section

variable {Result : Type} {loop : Loop Result}

theorem size?_ne_zero {held : Value} (present : held.truthy = true) : held.size? ≠ some 0 := by
  cases held with
  | text content =>
    simp only [Value.truthy, bne_iff_ne, ne_eq] at present
    simpa [Value.size?] using present
  | bytes form content => cases form <;> simp_all [Value.truthy, Value.size?]
  | list elements | tuple elements | set frozen elements | map entries =>
    simp_all [Value.truthy, Value.size?]
  | _ => exact nofun

theorem remaining?_of_absent {answer : Answer} {part : Result} {held : Value}
    (read : loop.answered answer = .ok (part, held)) (absent : held.truthy = false) :
    loop.remaining? answer = some 0 := by
  simp [Loop.remaining?, read, absent]

theorem remaining?_of_present {answer : Answer} {part : Result} {held : Value}
    (read : loop.answered answer = .ok (part, held)) (present : held.truthy = true) :
    loop.remaining? answer = held.size? := by
  simp [Loop.remaining?, read, present]

/-- A call more, and the pause after it, change only the number of requests sent before. -/
theorem Ending.cons {retries sent : Nat} {acts : List Act} {result : Except Failure Result}
    (ending : Ending loop retries (sent + 1) acts result) (request : Request) {answer : Answer}
    (seconds : Number.Binary64) (back : loop.remaining? answer ≠ some 0) :
    Ending loop retries sent (.called request answer :: .paused seconds :: acts) result := by
  have last {call : Request × Answer} (final : (callsOf acts).getLast? = some call) :
      (callsOf (.called request answer :: .paused seconds :: acts)).getLast? = some call := by
    simp only [callsOf_called, callsOf_paused, List.getLast?_cons, final, Option.getD_some]
  have length : (callsOf (.called request answer :: .paused seconds :: acts)).length =
      (callsOf acts).length + 1 := rfl
  cases ending with
  | finished result few final none => exact .finished result (by omega) (last final) none
  | exhausted few all final count others =>
    exact .exhausted few (by omega) (last final) count (List.forall_mem_cons.mpr ⟨back, others⟩)
  | overdue many all others =>
    exact .overdue many (by omega) (List.forall_mem_cons.mpr ⟨back, others⟩)

/-- The number of retries that are left tells how many requests were sent before, and with it which
attempt a pause comes before. -/
theorem ending_of_trace {limits : Limits} {left : Nat} {collected : Result} {pending : Value}
    {acts : List Act} {rest : Exchange Result} {result : Except Failure Result}
    (trace : loop.Trace limits left collected pending acts rest) (ended : rest = .done result)
    (pauses : limits.pauses = true) (within : left ≤ limits.retries)
    (early : limits.retries - left ≤ 1024)
    (readable : ∀ call ∈ callsOf acts, (loop.remaining? call.2).isSome = true) :
    Spaced acts ∧ Ending loop limits.retries (limits.retries - left) acts result := by
  induction trace with
  | waiting =>
    rw [Loop.run_eq] at ended
    cases ended
  | failed read =>
    have known := readable _ List.mem_cons_self
    simp [Loop.remaining?, read] at known
  | finished read absent =>
    cases ended
    refine ⟨.last .., .finished _ ?_ rfl (remaining?_of_absent read absent)⟩
    rw [callsOf_called, callsOf_nil, List.length_singleton]
    omega
  | exhausted read present sized =>
    cases ended
    have remaining := remaining?_of_present read present
    refine ⟨.last .., .exhausted early ?_ rfl (remaining.trans sized) ?_⟩
    · rw [callsOf_called, callsOf_nil, List.length_singleton]
      omega
    · exact List.forall_mem_singleton.mpr (remaining ▸ size?_ne_zero present)
  | unsized read present sized =>
    have known := readable _ List.mem_cons_self
    rw [remaining?_of_present read present, sized] at known
    cases known
  | overdue read present _ none =>
    cases ended
    have late := (Backoff.seconds?_eq_none_iff (by omega)).mp none
    refine ⟨.last .., .overdue (by omega) ?_ ?_⟩
    · rw [callsOf_called, callsOf_nil, List.length_singleton]
      omega
    · exact List.forall_mem_singleton.mpr
        (remaining?_of_present read present ▸ size?_ne_zero present)
  | @paused left _ _ _ _ _ seconds _ _ read present _ pause later tail =>
    obtain ⟨-, others⟩ := List.forall_mem_cons.mp readable
    have positive : 0 < limits.retries - left := by omega
    have before : limits.retries - left ≤ 1024 := by
      by_contra late
      rw [(Backoff.seconds?_eq_none_iff positive).mpr (by omega)] at pause
      cases pause
    obtain ⟨spaced, ending⟩ := tail ended (by omega) before others
    have sent : limits.retries - left = limits.retries - (left + 1) + 1 := by omega
    rw [sent] at ending
    exact ⟨.next _ _ (Backoff.short_of_seconds? positive pause) spaced,
      ending.cons _ _ (remaining?_of_present read present ▸ size?_ne_zero present)⟩
  | again read present none =>
    rw [pauses] at none
    cases none
  | pausing => cases ended

end

/-- Each group of the batch comes to one of the ends, whatever the others do meanwhile. -/
structure Settles {Result : Type} (loop : Loop Result) (retries : Nat) (batch : Batch Result) :
    Prop where
  /-- What a group does up to its end, if each of its answers can be read. -/
  ends : ∀ exchange ∈ batch.groups, ∀ acts result, Does exchange acts (.done result) →
    (∀ call ∈ callsOf acts, (loop.remaining? call.2).isSome = true) →
    Spaced acts ∧ Ending loop retries 0 acts result
  /-- From where it stands in any order of the calls a group comes to its end with any client. -/
  reached : ∀ (calls : List (Nat × Request × Answer)) (left : List (Exchange Result)),
    Interleaves batch.groups calls left →
    ∀ (index : Nat) (exchange rest : Exchange Result), batch.groups[index]? = some exchange →
      left[index]? = some rest →
    ∀ {Client : Type} (respond : Client → Request → Answer × Client) (client : Client),
      ∃ acts later, Does exchange acts (.done (Exchange.run respond rest client).result) ∧
        callsOf acts = callsAt index calls ++ later ∧
        ∀ call ∈ later, Schedule.Answered respond call

theorem settles {Result : Type} {loop : Loop Result} {retries : Nat} {batch : Batch Result}
    (loops : ∀ exchange ∈ batch.groups, ∃ collected pending,
      exchange = loop.run ⟨retries, true⟩ retries collected pending) :
    Settles loop retries batch := by
  constructor
  · intro exchange member acts result does readable
    obtain ⟨collected, pending, rfl⟩ := loops exchange member
    have early : retries - retries ≤ 1024 := by omega
    have ending := ending_of_trace (Loop.trace_of_does does) rfl rfl le_rfl early readable
    rwa [Nat.sub_self] at ending
  · intro calls left run index exchange rest first last Client respond client
    obtain ⟨before, done, same⟩ := (run.reaches first last).exists_does
    obtain ⟨after, goes, -, answered⟩ := Exchange.exists_does_run respond rest client
    exact ⟨before ++ after, callsOf after, done.trans goes, by rw [callsOf_append, same], answered⟩

theorem writes_settles (table operation : String) (retries : Nat) (requests : List Value) :
    ∃ batch, writes table operation requests (.int retries) true = .ok batch ∧
      Settles (.writes table operation) retries batch := by
  unfold writes
  rw [retriesOf_natCast]
  cases requests with
  | nil => exact ⟨.empty, rfl, settles nofun⟩
  | cons first rest =>
    refine ⟨_, rfl, settles (List.forall_mem_map.mpr fun group _ => ?_)⟩
    exact ⟨(), .list group, Loop.writeGroup_eq_run ..⟩

end RecordMerge.Batch

namespace RecordMerge.Table

open Batch (Settles)
open Exchange (Does callsOf)

/-- Each group of a batch that pauses comes to one of the ends. -/
theorem batch_settles (table : Table) (given consistent : Value) (retries : Nat)
    (entries : List Value) :
    (Batch.prepareEach (Batch.putEntry table.schema.keyOf) given = .ok entries →
      ∃ batch, table.batchPut given (.int retries) true = .ok batch ∧
        Settles (.writes table.name "batch_put") retries batch) ∧
    (Batch.prepareEach (Batch.deleteEntry table.schema.normalize) given = .ok entries →
      ∃ batch, table.batchDelete given (.int retries) true = .ok batch ∧
        Settles (.writes table.name "batch_delete") retries batch) ∧
    (Batch.prepareEach (Batch.keyEntry table.schema.normalize) given = .ok entries →
      ∃ batch, table.batchGet given consistent (.int retries) true = .ok batch ∧
        Settles (.reads table.name consistent) retries batch) := by
  refine ⟨fun prepared => ?_, fun prepared => ?_, fun prepared => ?_⟩
  · obtain ⟨batch, done, settles⟩ := Batch.writes_settles table.name "batch_put" retries entries
    exact ⟨batch, bind_eq_ok_iff.mpr ⟨entries, prepared, done⟩, settles⟩
  · obtain ⟨batch, done, settles⟩ := Batch.writes_settles table.name "batch_delete" retries entries
    exact ⟨batch, bind_eq_ok_iff.mpr ⟨entries, prepared, done⟩, settles⟩
  · unfold batchGet Batch.reads
    rw [Batch.retriesOf_natCast]
    cases given.truthy with
    | false => exact ⟨.empty, rfl, Batch.settles nofun⟩
    | true =>
      rw [prepared]
      refine ⟨_, rfl, Batch.settles (List.forall_mem_map.mpr fun group _ => ?_)⟩
      exact ⟨[], .list group, Batch.Loop.readGroup_eq_run ..⟩

/-- An answer that hands back the second of two orders. -/
def handsBackOne : Answer :=
  .response [(.text "UnprocessedItems", .ofNames [("orders", .list [putOrder "b"])])]

theorem batch_settles_exhausted :
    (∃ batch, orders.batchPut twoOrders (.int 0) true = .ok batch ∧
      ∀ exchange ∈ batch.groups, ∃ acts,
        Does exchange acts (.done (.error (.retriesExhausted "batch_put" 1))) ∧ Batch.Spaced acts ∧
        Batch.Ending (.writes "orders" "batch_put") 0 0 acts
          (.error (.retriesExhausted "batch_put" 1))) ∧
    (∃ batch, orders.batchDelete twoOrders (.int 0) true = .ok batch ∧
      Settles (.writes "orders" "batch_delete") 0 batch) ∧
    ∃ batch, orders.batchGet twoOrders .null (.int 0) true = .ok batch ∧
      Settles (.reads "orders" .null) 0 batch := by
  obtain ⟨batch, sent, settles⟩ :=
    (batch_settles orders twoOrders .null 0 [putOrder "a", putOrder "b"]).1 rfl
  have group : batch.groups = [Batch.writeGroup "orders" "batch_put" ⟨0, true⟩ 0
      (.list [putOrder "a", putOrder "b"])] := by
    cases sent
    simp only [Batch.split, Batch.writeLimit, List.take, List.drop, List.map_cons, List.map_nil]
    rfl
  refine ⟨⟨batch, sent, fun exchange member => ?_⟩,
    (batch_settles orders twoOrders .null 0 [deleteOrder "a", deleteOrder "b"]).2.1 rfl,
    (batch_settles orders twoOrders .null 0 _).2.2 rfl⟩
  have does : Does exchange [.called (.batchWrite "orders" (.list [putOrder "a", putOrder "b"]))
      handsBackOne] (.done (.error (.retriesExhausted "batch_put" 1))) := by
    rw [group, List.mem_singleton] at member
    rw [member]
    exact .send _ _ (.nothing _)
  exact ⟨_, does, settles.ends exchange member _ _ does (List.forall_mem_singleton.mpr rfl)⟩

/-- A client that never accepts the write. -/
def refuse (_ : Unit) (_ : Request) : Answer × Unit :=
  (.response [(.text "UnprocessedItems", .ofNames [("orders", .list [putOrder "a"])])], ())

/-- A group with very many retries is not ended by them, but by the pause that it cannot compute. -/
theorem overdue_with_many_retries :
    ∃ batch, orders.batchPut (.list [.ofNames [("id", .text "a")]]) (.int 1025) true = .ok batch ∧
      ∃ exchange ∈ batch.groups, ∃ acts, Does exchange acts (.done (.error .backoffTooLong)) ∧
        (callsOf acts).length = 1025 ∧ ∀ call ∈ callsOf acts, call.2 = (refuse () call.1).1 := by
  obtain ⟨batch, sent, settles⟩ : ∃ batch,
      orders.batchPut (.list [.ofNames [("id", .text "a")]]) (.int 1025) true = .ok batch ∧
        Settles (.writes "orders" "batch_put") 1025 batch := by
    obtain ⟨batch, done, settles⟩ :=
      Batch.writes_settles "orders" "batch_put" 1025 [putOrder "a"]
    exact ⟨batch, bind_eq_ok_iff.mpr ⟨_, rfl, done⟩, settles⟩
  obtain ⟨exchange, group⟩ : ∃ exchange, batch.groups = [exchange] := by
    cases sent
    simp only [Batch.split, Batch.writeLimit, List.take, List.drop, List.map_cons, List.map_nil]
    exact ⟨_, rfl⟩
  have member : exchange ∈ batch.groups := group ▸ List.mem_singleton_self exchange
  obtain ⟨acts, does, -, answered⟩ := Exchange.exists_does_run refuse exchange ()
  have refused : ∀ call ∈ callsOf acts, call.2 = (refuse () call.1).1 := by
    intro call called
    obtain ⟨client, same⟩ := answered call called
    exact same.symm
  have held : ∀ call ∈ callsOf acts,
      (Batch.Loop.writes "orders" "batch_put").remaining? call.2 = some 1 := by
    intro call called
    rw [refused call called]
    rfl
  refine ⟨batch, sent, exchange, member, acts, ?_⟩
  have readable : ∀ call ∈ callsOf acts,
      ((Batch.Loop.writes "orders" "batch_put").remaining? call.2).isSome = true := by
    intro call called
    rw [held call called]
    rfl
  obtain ⟨-, ending⟩ := settles.ends exchange member acts _ does readable
  generalize (Exchange.run refuse exchange ()).result = result at does ending
  cases ending with
  | finished result few final none =>
    rw [held _ (List.mem_of_getLast? final)] at none
    cases none
  | exhausted few => omega
  | overdue many all => exact ⟨does, all, refused⟩

end RecordMerge.Table

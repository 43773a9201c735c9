import RecordMerge.Proofs.Batch.Loop
import RecordMerge.Proofs.Batch.Writes

/-!
A batch of reads loses nothing and gives nothing twice.

The records of a group are those of its answers, in the order of its calls, and the records of the
batch are those of its groups, in the order of the groups. In which order the groups go on and end
does not matter.
-/

set_option autoImplicit false

namespace RecordMerge.Batch

open Exchange (callsOf callsOf_called callsOf_nil)
open Loop (Trace)
open Schedule (Interleaves callsAt)

/-- The keys that an answer hands back, as it gives them. -/
def keysBack? (table : String) : Answer → Option Value
  | .response fields =>
    match unprocessedKeys table fields with
    | .ok held => some held
    | .error _ => none
  | _ => none

/-- The same keys one by one; a field that is absent or empty hands back none. -/
def keysHanded? (table : String) (answer : Answer) : Option (List Value) :=
  (keysBack? table answer).bind fun held => if held.truthy then rowOf? held else some []

/-- The items that an answer brings. -/
def items (table : String) : Answer → List Value
  | .response fields =>
    match underTable fields "Responses" table (.list []) with
    | .ok held => held.iterate?.getD []
    | .error _ => []
  | _ => []

/-- The keys that a request asks a table for. -/
def asked (table : String) : Request → List Value
  | .batchGet name pending _ => if name = table then (rowOf? pending).getD [] else []
  | _ => []

/-- The first call of a group is for all its keys. Each further one is for the keys that the answer
before it handed back, and reads in the same way. -/
structure Follows (table : String) (consistent : Value) (group : List Value)
    (calls : List (Request × Answer)) : Prop where
  first : ∀ call, calls.head? = some call → call.1 = .batchGet table (.list group) consistent
  later : calls.IsChain fun call next => ∃ held, keysBack? table call.2 = some held ∧
    held.truthy = true ∧ next.1 = .batchGet table held consistent

-- A service may hand a key back in another form than it was sent in. What counts as the same key is
-- left open, as long as what is stored under it is the same.
/-- The answer hands back some of the keys of the call, and has the item of each other one that there
is an item of. -/
def Serves {Kind : Type} [DecidableEq Kind] (table : String) (kind : Value → Kind)
    (stored : Kind → Option Value) (call : Request × Answer) : Prop :=
  ∃ handed, keysHanded? table call.2 = some handed ∧
    amount kind handed ≤ amount kind (asked table call.1) ∧
    ((items table call.2 : List Value) : Multiset Value) =
      (amount kind (asked table call.1) - amount kind handed).filterMap stored

/-- The items of all calls of a group, in order. -/
def itemsOf (table : String) (calls : List (Request × Answer)) : List Value :=
  calls.flatMap fun call => items table call.2

/-- The batch reads the keys in consecutive groups. The client may answer the calls of the groups in
any order. -/
structure Retrieves (table : String) (consistent : Value) (keys : List Value)
    (batch : Batch (List Record)) : Prop where
  whole : (split readLimit keys).flatten = keys
  sizes : ∀ group ∈ split readLimit keys, 1 ≤ group.length ∧ group.length ≤ 100
  groups : batch.groups.length = (split readLimit keys).length
  /-- Each group on its own. -/
  follows : ∀ (calls : List (Nat × Request × Answer)) (left : List (Exchange (List Record))),
    Interleaves batch.groups calls left →
    ∀ (index : Nat) (group : List Value), (split readLimit keys)[index]? = some group →
      Follows table consistent group (callsAt index calls)
  /-- A group that has ended well was handed nothing back in the end. -/
  ended : ∀ (calls : List (Nat × Request × Answer)) (left : List (Exchange (List Record))),
    Interleaves batch.groups calls left →
    ∀ (index : Nat) (records : List Record), left[index]? = some (.done (.ok records)) →
      ∃ last held, (callsAt index calls).getLast? = some last ∧
        keysBack? table last.2 = some held ∧ held.truthy = false
  /-- All groups together: each item is read once, in the order of the groups. -/
  total : ∀ (calls : List (Nat × Request × Answer)) (left : List (Exchange (List Record))),
    Interleaves batch.groups calls left →
    ∀ results, Schedule.results? left = some results →
      results.flatten.map Except.ok =
        ((List.range batch.groups.length).flatMap fun index =>
          itemsOf table (callsAt index calls)).map Value.loadItem
  /-- If the service does its part, the records are those that are stored under the keys. -/
  complete : ∀ {Kind : Type} [DecidableEq Kind] (kind : Value → Kind) (stored : Kind → Option Value)
    (calls : List (Nat × Request × Answer)) (left : List (Exchange (List Record))),
    Interleaves batch.groups calls left → (∀ call ∈ calls, Serves table kind stored call.2) →
    ∀ results, Schedule.results? left = some results →
      (results.flatten.map Except.ok).Perm
        ((keys.filterMap fun key => stored (kind key)).map Value.loadItem)
  /-- What a run does is one of these orders. -/
  runs : ∀ {Client : Type} (respond : Client → Request → Answer × Client) (suspending : Bool)
    (client : Client), ∃ calls left, Interleaves batch.groups calls left ∧
      calls.map (fun call => call.2.1) =
        Exchange.calls (batch.read respond suspending client).steps ∧
      (∀ call ∈ calls, Schedule.Answered respond call.2) ∧
      ∀ records, (batch.read respond suspending client).result = .ok records →
        ∃ results, Schedule.results? left = some results ∧ records = results.flatten

theorem loadItems_eq_ok_iff {row : List Value} {records : List Record} :
    loadItems row = .ok records ↔ row.map Value.loadItem = records.map Except.ok := by
  rw [← List.forall₂_eq_eq_eq, List.forall₂_map_left_iff, List.forall₂_map_right_iff]
  exact row_eq_ok_iff rfl fun _ _ => rfl

/-- An answer that a group can read is read item by item. -/
theorem answered_reads {table : String} {consistent : Value} {answer : Answer}
    {part : List Record} {held : Value}
    (read : (Loop.reads table consistent).answered answer = .ok (part, held)) :
    keysBack? table answer = some held ∧
      (items table answer).map Value.loadItem = part.map Except.ok := by
  cases answer with
  | response fields =>
    obtain ⟨records, taken, later⟩ := bind_eq_ok_iff.mp read
    obtain ⟨back, remaining, built⟩ := bind_eq_ok_iff.mp later
    cases built
    obtain ⟨field, found, walked⟩ := bind_eq_ok_iff.mp taken
    obtain ⟨row, listed, loaded⟩ := bind_eq_ok_iff.mp walked
    constructor
    · simp only [keysBack?, show unprocessedKeys table fields = .ok held from remaining]
    · rw [← loadItems_eq_ok_iff, ← loaded]
      unfold Value.asRow at listed
      split at listed
      · next walk =>
        cases listed
        simp only [items, found, walk, Option.getD_some]
      · cases listed
  | refused error => cases read
  | failed failure => cases read

section Group

variable {table : String} {consistent : Value} {limits : Limits} {left : Nat}
  {acts : List Exchange.Act} {rest : Exchange (List Record)}

theorem follows_of_trace {collected : List Record} {group : List Value}
    (trace : Trace (.reads table consistent) limits left collected (.list group) acts rest) :
    Follows table consistent group (callsOf acts) where
  first _ here := trace.head here
  later := trace.chain.imp fun _ _ next => by
    obtain ⟨part, held, read, present, sent⟩ := next
    exact ⟨held, (answered_reads read).1, present, sent⟩

theorem foldl_join (collected : List Record) (parts : List (List Record)) :
    parts.foldl (Loop.reads table consistent).join collected = collected ++ parts.flatten := by
  induction parts generalizing collected with
  | nil => simp
  | cons part rest tail =>
    rw [List.foldl_cons, tail, List.flatten_cons, ← List.append_assoc]
    rfl

theorem records_of_parts {calls : List (Request × Answer)} {parts : List (List Record)}
    (pairs : List.Forall₂ (fun call part => ∃ held,
      (Loop.reads table consistent).answered call.2 = .ok (part, held)) calls parts) :
    parts.flatten.map Except.ok = (itemsOf table calls).map Value.loadItem := by
  induction pairs with
  | nil => rfl
  | cons here later tail =>
    obtain ⟨held, read⟩ := here
    rw [itemsOf, List.flatMap_cons, List.flatten_cons, List.map_append, List.map_append,
      (answered_reads read).2, tail, itemsOf]

/-- The records of a group that ends well are those of its answers. -/
theorem records_of_trace {pending : Value} {records : List Record}
    (trace : Trace (.reads table consistent) limits left [] pending acts rest)
    (ended : rest = .done (.ok records)) :
    records.map Except.ok = (itemsOf table (callsOf acts)).map Value.loadItem := by
  obtain ⟨-, parts, pairs, rfl⟩ := trace.joined ended
  rw [foldl_join, List.nil_append]
  exact records_of_parts pairs

theorem last_of_trace {pending : Value} {collected records : List Record}
    (trace : Trace (.reads table consistent) limits left collected pending acts rest)
    (ended : rest = .done (.ok records)) :
    ∃ last held, (callsOf acts).getLast? = some last ∧ keysBack? table last.2 = some held ∧
      held.truthy = false := by
  obtain ⟨⟨last, part, held, final, read, absent⟩, -⟩ := trace.joined ended
  exact ⟨last, held, final, (answered_reads read).1, absent⟩

section Served

variable {Kind : Type} [DecidableEq Kind] {kind : Value → Kind} {stored : Kind → Option Value}
  {pending held : Value} {keys : List Value} {part : List Record} {answer : Answer}

theorem asked_request (row : rowOf? pending = some keys) :
    asked table ((Loop.reads table consistent).request pending) = keys := by
  simp [asked, Loop.reads, row]

theorem Serves.last (row : rowOf? pending = some keys)
    (serves : Serves table kind stored ((Loop.reads table consistent).request pending, answer))
    (read : (Loop.reads table consistent).answered answer = .ok (part, held))
    (absent : held.truthy = false) :
    ((items table answer : List Value) : Multiset Value) = (amount kind keys).filterMap stored := by
  obtain ⟨handed, back, -, brought⟩ := serves
  have none : [] = handed := by simpa [keysHanded?, (answered_reads read).1, absent] using back
  rw [asked_request row, ← none] at brought
  simpa [amount] using brought

/-- The items of an answer and those of the keys that it hands back are the items of all keys. -/
theorem Serves.step (row : rowOf? pending = some keys)
    (serves : Serves table kind stored ((Loop.reads table consistent).request pending, answer))
    (read : (Loop.reads table consistent).answered answer = .ok (part, held))
    (present : held.truthy = true) :
    ∃ handed, rowOf? held = some handed ∧ ∀ later : List Value,
      (later : Multiset Value) = (amount kind handed).filterMap stored →
      ((items table answer ++ later : List Value) : Multiset Value) =
        (amount kind keys).filterMap stored := by
  obtain ⟨handed, back, fewer, brought⟩ := serves
  rw [asked_request row] at fewer brought
  refine ⟨handed, by simpa [keysHanded?, (answered_reads read).1, present] using back, ?_⟩
  intro later same
  rw [← Multiset.coe_add, same, brought, ← Multiset.filterMap_add, tsub_add_cancel_of_le fewer]

/-- A group that ends well has the items that are stored under its keys, if each answer has those of
the keys that it does not hand back. -/
theorem items_of_trace {collected records : List Record}
    (trace : Trace (.reads table consistent) limits left collected pending acts rest)
    (row : rowOf? pending = some keys)
    (serves : ∀ call ∈ callsOf acts, Serves table kind stored call)
    (ended : rest = .done (.ok records)) :
    ((itemsOf table (callsOf acts) : List Value) : Multiset Value) =
      (amount kind keys).filterMap stored := by
  induction trace generalizing keys with
  | waiting =>
    rw [Loop.run_eq] at ended
    cases ended
  | finished read absent =>
    have brought := (serves _ List.mem_cons_self).last row read absent
    simpa only [callsOf_called, callsOf_nil, itemsOf, List.flatMap_cons, List.flatMap_nil,
      List.append_nil] using brought
  | paused read present _ _ later tail | again read present _ later tail =>
    obtain ⟨here, others⟩ := List.forall_mem_cons.mp serves
    obtain ⟨handed, again, joined⟩ := here.step row read present
    exact joined _ (tail again others ended)
  | _ => cases ended

end Served

end Group

theorem results?_eq_some {Result : Type} {exchanges : List (Exchange Result)} {results : List Result}
    (all : Schedule.results? exchanges = some results) :
    exchanges = results.map fun result => .done (.ok result) := by
  fun_induction Schedule.results? exchanges generalizing results with
  | case1 =>
    cases all
    rfl
  | case2 result rest tail =>
    obtain ⟨others, found, built⟩ := Option.map_eq_some_iff.mp all
    rw [← built, List.map_cons, tail found]
  | case3 => cases all

/-- What stands at each place of a row is the row. -/
theorem map_range_eq {Element : Type} {row : List Element} {element : Nat → Element} {size : Nat}
    (length : row.length = size)
    (each : ∀ index value, row[index]? = some value → element index = value) :
    (List.range size).map element = row := by
  refine List.ext_getElem (by simp [length]) fun index left right => ?_
  rw [List.getElem_map, List.getElem_range]
  exact each index _ (List.getElem?_eq_getElem right)

/-- What a run of the batch does is one of the orders, and its records are those of the groups. -/
theorem interleaves_read {Client : Type} (batch : Batch (List Record))
    (respond : Client → Request → Answer × Client) (suspending : Bool) (client : Client) :
    ∃ calls left, Interleaves batch.groups calls left ∧
      calls.map (fun call => call.2.1) =
        Exchange.calls (batch.read respond suspending client).steps ∧
      (∀ call ∈ calls, Schedule.Answered respond call.2) ∧
      ∀ records, (batch.read respond suspending client).result = .ok records →
        ∃ results, Schedule.results? left = some results ∧ records = results.flatten := by
  obtain ⟨calls, left, run, same, answered, ends⟩ := Schedule.interleaves_run respond
    (if suspending then batch.retries + 1 else 0) batch.groups client
  refine ⟨calls, left, run, ?_, answered, fun records done => ?_⟩
  · rw [same]
    simp only [read, Batch.run, Schedule.calls_append, calls_noted, List.nil_append]
  · simp only [read, Batch.run] at done
    cases outcome : (Schedule.run respond (if suspending then batch.retries + 1 else 0)
        batch.groups client).result with
    | error failure =>
      rw [outcome] at done
      cases done
    | ok results =>
      rw [outcome] at done ends
      cases done
      exact ⟨results, ends, rfl⟩

section Groups

variable {table : String} {consistent : Value} {limits : Limits} {keys : List Value}
  {batch : Batch (List Record)} {calls : List (Nat × Request × Answer)}
  {left : List (Exchange (List Record))}
  (sent : batch.groups = (split readLimit keys).map fun group =>
    readGroup table consistent limits limits.retries [] (.list group))
include sent

/-- What a group of the batch does among the others is what a loop does. -/
theorem exists_trace (run : Interleaves batch.groups calls left) {index : Nat} {group : List Value}
    {rest : Exchange (List Record)} (here : (split readLimit keys)[index]? = some group)
    (last : left[index]? = some rest) :
    ∃ acts, callsOf acts = callsAt index calls ∧
      Trace (.reads table consistent) limits limits.retries [] (.list group) acts rest := by
  have first : batch.groups[index]? =
      some ((Loop.reads table consistent).run limits limits.retries [] (.list group)) := by
    rw [sent, List.getElem?_map, here, Option.map_some, Loop.readGroup_eq_run]
  obtain ⟨acts, does, same⟩ := (run.reaches first last).exists_does
  exact ⟨acts, same, Loop.trace_of_does does⟩

/-- Where all groups have ended well, each has done what a loop does on the way to its records. -/
theorem exists_trace_of_results (run : Interleaves batch.groups calls left)
    {results : List (List Record)} (all : Schedule.results? left = some results) {index : Nat}
    {group : List Value} (here : (split readLimit keys)[index]? = some group) :
    ∃ records acts, results[index]? = some records ∧ callsOf acts = callsAt index calls ∧
      Trace (.reads table consistent) limits limits.retries [] (.list group) acts
        (.done (.ok records)) := by
  have done := results?_eq_some all
  have size : results.length = (split readLimit keys).length := by
    have lengths := congrArg List.length done
    rw [List.length_map, run.length_eq, sent, List.length_map] at lengths
    exact lengths.symm
  have there : index < results.length := size ▸ (List.getElem?_eq_some_iff.mp here).1
  have last : left[index]? = some (.done (.ok results[index])) := by
    rw [done, List.getElem?_map, List.getElem?_eq_getElem there, Option.map_some]
  obtain ⟨acts, same, trace⟩ := exists_trace sent run here last
  exact ⟨_, acts, List.getElem?_eq_getElem there, same, trace⟩

/-- The records of all groups are those of their items, group by group. -/
theorem records_of_results (run : Interleaves batch.groups calls left)
    {results : List (List Record)} (all : Schedule.results? left = some results) :
    results.flatten.map Except.ok =
      ((List.range batch.groups.length).flatMap fun index =>
        itemsOf table (callsAt index calls)).map Value.loadItem := by
  have size : results.length = batch.groups.length := by
    rw [← run.length_eq, results?_eq_some all, List.length_map]
  have each : (List.range batch.groups.length).map
      (fun index => (itemsOf table (callsAt index calls)).map Value.loadItem) =
        results.map (List.map Except.ok) := by
    refine map_range_eq (by rw [List.length_map, size]) fun index value found => ?_
    obtain ⟨records, stands, rfl⟩ := Option.map_eq_some_iff.mp (List.getElem?_map .. ▸ found)
    have there : index < (split readLimit keys).length := by
      rw [← List.length_map, ← sent, ← size]
      exact (List.getElem?_eq_some_iff.mp stands).1
    obtain ⟨others, acts, also, same, trace⟩ :=
      exists_trace_of_results sent run all (List.getElem?_eq_getElem there)
    cases stands.symm.trans also
    rw [← same, records_of_trace trace rfl]
  rw [List.map_flatMap, List.map_flatten, ← each]
  rfl

/-- The items of all groups are those that are stored under their keys. -/
theorem items_of_results {Kind : Type} [DecidableEq Kind] {kind : Value → Kind}
    {stored : Kind → Option Value} (run : Interleaves batch.groups calls left)
    (serves : ∀ call ∈ calls, Serves table kind stored call.2) {results : List (List Record)}
    (all : Schedule.results? left = some results) :
    ((List.range batch.groups.length).flatMap fun index => itemsOf table (callsAt index calls)).Perm
      (keys.filterMap fun key => stored (kind key)) := by
  have groups : batch.groups.length = (split readLimit keys).length := by
    rw [sent, List.length_map]
  have each : List.Forall₂ List.Perm
      ((List.range batch.groups.length).map fun index => itemsOf table (callsAt index calls))
      ((split readLimit keys).map (List.filterMap fun key => stored (kind key))) := by
    refine List.forall₂_iff_get.mpr ⟨by simp [groups], fun index left right => ?_⟩
    rw [List.length_map] at right
    obtain ⟨records, acts, -, same, trace⟩ :=
      exists_trace_of_results sent run all (List.getElem?_eq_getElem right)
    have served : ∀ call ∈ callsOf acts, Serves table kind stored call := by
      rw [same]
      exact fun call member => serves _ (Schedule.mem_of_mem_callsAt member)
    have brought := items_of_trace trace rfl served rfl
    rw [amount, Multiset.filterMap_coe, List.filterMap_map, Multiset.coe_eq_coe, same] at brought
    simpa using brought
  have flat := List.Perm.flatten_congr each
  rw [← List.filterMap_flatten, flatten_split] at flat
  exact flat

theorem follows_of_run (run : Interleaves batch.groups calls left) {index : Nat}
    {group : List Value} (here : (split readLimit keys)[index]? = some group) :
    Follows table consistent group (callsAt index calls) := by
  have there : index < left.length := by
    rw [run.length_eq, sent, List.length_map]
    exact (List.getElem?_eq_some_iff.mp here).1
  obtain ⟨acts, same, trace⟩ := exists_trace sent run here (List.getElem?_eq_getElem there)
  rw [← same]
  exact follows_of_trace trace

theorem last_of_run (run : Interleaves batch.groups calls left) {index : Nat}
    {records : List Record} (ended : left[index]? = some (.done (.ok records))) :
    ∃ last held, (callsAt index calls).getLast? = some last ∧
      keysBack? table last.2 = some held ∧ held.truthy = false := by
  have there : index < (split readLimit keys).length := by
    rw [← List.length_map, ← sent, ← run.length_eq]
    exact (List.getElem?_eq_some_iff.mp ended).1
  obtain ⟨acts, same, trace⟩ := exists_trace sent run (List.getElem?_eq_getElem there) ended
  rw [← same]
  exact last_of_trace trace rfl

theorem retrieves : Retrieves table consistent keys batch where
  whole := flatten_split _ _
  sizes _ member := length_le_of_mem_split (by decide) member
  groups := by rw [sent, List.length_map]
  follows _ _ run _ _ here := follows_of_run sent run here
  ended _ _ run _ _ ended := last_of_run sent run ended
  total _ _ run _ all := records_of_results sent run all
  complete _ _ _ _ run serves _ all := by
    rw [records_of_results sent run all]
    exact (items_of_results sent run serves all).map _
  runs := interleaves_read batch

end Groups

theorem truthy_of_iterate? {value : Value} {row : List Value} (walked : value.iterate? = some row) :
    value.truthy = !row.isEmpty := by
  cases value with
  | text content =>
    cases walked
    rw [Bool.eq_iff_iff]
    simp [Value.truthy]
  | bytes form content => cases form <;> cases walked <;> simp [Value.truthy]
  | list elements | tuple elements | set frozen elements =>
    cases walked
    rfl
  | map entries =>
    cases walked
    simp [Value.truthy]
  | _ => cases walked

/-- A value that counts as absent has no elements. -/
theorem eq_nil_of_absent {value : Value} {row : List Value} (walked : value.iterate? = some row)
    (absent : value.truthy = false) : row = [] := by
  rwa [truthy_of_iterate? walked, Bool.not_eq_false', List.isEmpty_iff] at absent

theorem prepareEach_of_absent {prepare : Value → Except Failure Value} {given : Value}
    {prepared : List Value} (absent : given.truthy = false)
    (done : prepareEach prepare given = .ok prepared) : prepared = [] := by
  obtain ⟨row, listed, all⟩ := bind_eq_ok_iff.mp done
  unfold Value.asRow at listed
  split at listed
  · next walked =>
    cases listed
    rw [eq_nil_of_absent walked absent] at all
    cases all
    rfl
  · cases listed

end RecordMerge.Batch

namespace RecordMerge.Table

open Batch (Retrieves)
open Exchange (Moves)
open Schedule (Interleaves)

/-- No record of a batch of reads is lost, and none is given twice. -/
theorem batchGet_retrieves (table : Table) (given consistent : Value) (retries : Nat) (pauses : Bool)
    (keys : List Value)
    (prepared : Batch.prepareEach (Batch.keyEntry table.schema.normalize) given = .ok keys) :
    ∃ batch, table.batchGet given consistent (.int retries) pauses = .ok batch ∧
      Retrieves table.name consistent keys batch := by
  unfold batchGet Batch.reads
  rw [Batch.retriesOf_natCast]
  cases present : given.truthy with
  | false =>
    refine ⟨.empty, rfl, ?_⟩
    rw [Batch.prepareEach_of_absent present prepared]
    have sent : (Batch.empty : Batch (List Record)).groups =
        (Batch.split Batch.readLimit []).map fun group =>
          Batch.readGroup table.name consistent ⟨retries, pauses⟩ retries [] (.list group) := by
      simp [Batch.split, Batch.empty]
    exact Batch.retrieves sent
  | true =>
    rw [prepared]
    exact ⟨_, rfl, Batch.retrieves rfl⟩

def orderKey (id : String) : Value :=
  .ofNames [("id", .ofNames [("S", .text id)])]

/-- The service reads the second order at the second call only. -/
def readOnce : List (Nat × Request × Answer) :=
  [(0, .batchGet "orders" (.list [orderKey "a", orderKey "b"]) (.bool true),
      .response [(.text "Responses", .ofNames [("orders", .list [orderKey "a"])]),
        (.text "UnprocessedKeys", .ofNames [("orders", .ofNames [("Keys", .list [orderKey "b"])])])]),
    (0, .batchGet "orders" (.list [orderKey "b"]) (.bool true),
      .response [(.text "Responses", .ofNames [("orders", .list [orderKey "b"])])])]

open Classical in
theorem batchGet_retrieves_handed_back :
    ∃ batch records, orders.batchGet twoOrders (.bool true) (.int 1) false = .ok batch ∧
      Interleaves batch.groups readOnce [.done (.ok records)] ∧
      (∀ call ∈ readOnce, Batch.Serves "orders" id some call.2) ∧
      (records.map Except.ok).Perm ([orderKey "a", orderKey "b"].map Value.loadItem) := by
  obtain ⟨batch, sent, retrieves⟩ :=
    batchGet_retrieves orders twoOrders (.bool true) 1 false [orderKey "a", orderKey "b"] rfl
  have group : batch.groups = [Batch.readGroup "orders" (.bool true) ⟨1, false⟩ 1 []
      (.list [orderKey "a", orderKey "b"])] := by
    cases sent
    simp only [Batch.split, Batch.readLimit, List.take, List.drop, List.map_cons, List.map_nil]
    rfl
  have first : Moves
      (Batch.readGroup "orders" (.bool true) ⟨1, false⟩ 1 [] (.list [orderKey "a", orderKey "b"]))
      (readOnce[0]?.map Prod.snd)
      (Batch.readGroup "orders" (.bool true) ⟨1, false⟩ 0 [[(.text "id", .text "a")]]
        (.list [orderKey "b"])) :=
    .send _ _ _
  have second : Moves
      (Batch.readGroup "orders" (.bool true) ⟨1, false⟩ 0 [[(.text "id", .text "a")]]
        (.list [orderKey "b"]))
      (readOnce[1]?.map Prod.snd)
      (.done (.ok [[(.text "id", .text "a")], [(.text "id", .text "b")]])) :=
    .send _ _ _
  have run : Interleaves batch.groups readOnce
      [.done (.ok [[(.text "id", .text "a")], [(.text "id", .text "b")]])] := by
    rw [group]
    exact Interleaves.of_reaches [] [] (first.reaches.trans second.reaches)
  have serves : ∀ call ∈ readOnce, Batch.Serves "orders" id some call.2 := by
    refine List.forall_mem_cons.mpr ⟨⟨[orderKey "b"], rfl, ?_, ?_⟩,
      List.forall_mem_singleton.mpr ⟨[], rfl, Multiset.zero_le _, ?_⟩⟩
    · exact Multiset.coe_le.mpr (List.Sublist.subperm (.cons _ (.refl _)))
    · rw [Multiset.filterMap_some]
      exact (add_tsub_cancel_right ({orderKey "a"} : Multiset Value) {orderKey "b"}).symm
    · rw [Multiset.filterMap_some]
      exact (tsub_zero ({orderKey "b"} : Multiset Value)).symm
  have records := retrieves.complete id some _ _ run serves _ rfl
  exact ⟨batch, _, sent, run, serves, by simpa using records⟩

end RecordMerge.Table

import RecordMerge.Proofs.Exchange
import RecordMerge.Proofs.KeySchema
import RecordMerge.Proofs.Merge.Keys
import RecordMerge.Reconcile

/-!
The requests of a write that recovers.

There are at most three of them: an update, a read where the stored item cannot take the update,
and a full write. A record is created only where the mode allows it and nothing is stored. The key
of the update identifies whatever is read and written after it.
-/

set_option autoImplicit false

namespace RecordMerge

open Exchange (dialogue)

variable {Client : Type} {respond : Client → Request → Answer × Client}

theorem Value.loadItem_eq_ok_iff {value : Value} {record : Record} :
    value.loadItem = .ok record ↔
      ∃ received, value = .map received ∧ Record.load received = .ok record := by
  unfold loadItem
  rw [bind_eq_ok_iff]
  cases value <;> simp [asRecord, entries?]

theorem itemOf_eq_none_iff {name : String} {response : Record} :
    itemOf name response = .ok none ↔
      ∀ item, response.get? name = some item → item.truthy = false := by
  unfold itemOf
  cases response.get? name with
  | none => simp
  | some item =>
    cases present : item.truthy with
    | false => simp [present]
    | true => cases loaded : item.loadItem <;> simp [present, loaded, Except.map]

/-- A record that a response brings was received as a map with entries. -/
theorem itemOf_eq_some_iff {name : String} {response record : Record} :
    itemOf name response = .ok (some record) ↔
      ∃ received, response.get? name = some (.map received) ∧ received ≠ [] ∧
        Record.load received = .ok record := by
  unfold itemOf
  cases response.get? name with
  | none => simp
  | some item =>
    have loads : item.loadItem.map some = .ok (some record) ↔ item.loadItem = .ok record := by
      cases item.loadItem <;> simp [Except.map]
    cases present : item.truthy with
    | false =>
      have empty (received : Record) (same : item = .map received) : received = [] := by
        subst same
        simpa [Value.truthy] using present
      simp only [present, Bool.false_eq_true, if_false, Except.ok.injEq, reduceCtorEq, false_iff]
      rintro ⟨received, same, given, -⟩
      exact given (empty received (Option.some.inj same))
    | true =>
      simp only [present, if_true, loads, Value.loadItem_eq_ok_iff, Option.some.injEq]
      constructor
      · rintro ⟨received, rfl, loaded⟩
        refine ⟨received, rfl, ?_, loaded⟩
        rintro rfl
        cases present
      · rintro ⟨received, same, -, loaded⟩
        exact ⟨received, same, loaded⟩

namespace Table

variable {table : Table} {record : Record}

theorem putRequest_eq_ok {request : Request}
    (built : table.putRequest record .null .null .null = .ok request) :
    ∃ item, record.store = .ok item ∧ request = .put table.name item {} := by
  obtain ⟨identity, -, later⟩ := bind_eq_ok_iff.mp built
  obtain ⟨item, stored, later⟩ := bind_eq_ok_iff.mp later
  cases later
  exact ⟨item, stored, rfl⟩

/-- A full write sends one request at most: the stored form of the record. -/
theorem dialogue_put {Result : Type} (respond : Client → Request → Answer × Client)
    (next : Unit → Exchange Result)
    (silent : ∀ client, dialogue respond (next ()) client = []) (client : Client) :
    dialogue respond (table.put record .null .null .null >>= next) client = [] ∨
      ∃ item answer, record.store = .ok item ∧
        dialogue respond (table.put record .null .null .null >>= next) client =
          [(.put table.name item {}, answer)] := by
  unfold put
  cases built : table.putRequest record .null .null .null with
  | error failure => exact Or.inl rfl
  | ok request =>
    obtain ⟨item, stored, rfl⟩ := putRequest_eq_ok built
    right
    have sent : (Exchange.write (.ok (.put table.name item {})) >>= next) =
        Exchange.call (.put table.name item {}) >>= fun _ => next () :=
      Exchange.andThen_assoc (Exchange.call _) _ next
    rw [sent]
    rcases Exchange.dialogue_call respond (.put table.name item {}) _ client with
      ⟨answer, one⟩ | ⟨fields, later, more⟩
    · exact ⟨item, answer, stored, one⟩
    · rw [more, silent]
      exact ⟨item, _, stored, rfl⟩

/-- A read sends its request, and goes on if a response comes that can be read. -/
theorem dialogue_read {Result : Type} (respond : Client → Request → Answer × Client)
    (request : Request) (next : Option Record → Exchange Result) (client : Client) :
    (∃ answer, dialogue respond (Exchange.read (.ok request) >>= next) client =
        [(request, answer)]) ∨
      ∃ response found later, itemOf "Item" response = .ok found ∧
        dialogue respond (Exchange.read (.ok request) >>= next) client =
          (request, .response response) :: dialogue respond (next found) later := by
  have sent : (Exchange.read (.ok request) >>= next) =
      Exchange.call request >>= fun fields => Exchange.done (itemOf "Item" fields) >>= next :=
    Exchange.andThen_assoc (Exchange.call request) _ next
  rw [sent]
  rcases Exchange.dialogue_call respond request _ client with ⟨answer, one⟩ | ⟨fields, later, more⟩
  · exact Or.inl ⟨answer, one⟩
  · cases read : itemOf "Item" fields with
    | error failure =>
      left
      refine ⟨.response fields, ?_⟩
      rw [more, read]
      rfl
    | ok found =>
      right
      refine ⟨fields, found, later, read, ?_⟩
      rw [more, read]
      rfl

theorem dialogue_insert (respond : Client → Request → Answer × Client) (identity : Record)
    (client : Client) :
    dialogue respond (table.insert record identity) client = [] ∨
      ∃ item answer, record.store = .ok item ∧
        dialogue respond (table.insert record identity) client =
          [(.put table.name item {}, answer)] := by
  unfold insert
  exact dialogue_put respond _ (fun _ => rfl) client

/-- Write a merged record in place of the stored one. -/
def replace (table : Table) (merged identity : Record) : Exchange WriteResult := do
  table.put merged .null .null .null
  Exchange.report (.replaced table.name identity)
  pure ⟨.merged, some merged⟩

theorem dialogue_replace (respond : Client → Request → Answer × Client) (identity : Record)
    (client : Client) :
    dialogue respond (table.replace record identity) client = [] ∨
      ∃ item answer, record.store = .ok item ∧
        dialogue respond (table.replace record identity) client =
          [(.put table.name item {}, answer)] := by
  unfold replace
  exact dialogue_put respond _ (fun _ => rfl) client

/-- The dialogues of a write that recovers, for the request of its update. -/
inductive Reconciliation (table : Table) (mode : WriteMode) (record : Record) (policy : Policy)
    (request : UpdateRequest) : List (Request × Answer) → Prop where
  | updated {answer : Answer} :
      Reconciliation table mode record policy request [(.update request, answer)]
  | inserted {error : ServiceError} {item : Item} {answer : Answer} : mode = .upsert →
      table.classify error.codeText error.messageText = .conditionFailed →
      error.item.truthy = false → record.store = .ok item →
      table.schema.Identifies request.key item →
      Reconciliation table mode record policy request
        [(.update request, .refused error), (.put table.name item {}, answer)]
  | read {error : ServiceError} {answer : Answer} :
      table.classify error.codeText error.messageText = .schemaMismatch →
      Reconciliation table mode record policy request
        [(.update request, .refused error), (.get table.name request.key (.bool true), answer)]
  | insertedAfterRead {error : ServiceError} {response : Record} {item : Item} {answer : Answer} :
      mode = .upsert → table.classify error.codeText error.messageText = .schemaMismatch →
      (∀ stored, response.get? "Item" = some stored → stored.truthy = false) →
      record.store = .ok item → table.schema.Identifies request.key item →
      Reconciliation table mode record policy request
        [(.update request, .refused error),
          (.get table.name request.key (.bool true), .response response),
          (.put table.name item {}, answer)]
  | replaced {error : ServiceError} {response stored current merged : Record} {item : Item}
      {answer : Answer} : table.classify error.codeText error.messageText = .schemaMismatch →
      response.get? "Item" = some (.map stored) → stored ≠ [] → Record.load stored = .ok current →
      Record.merge current record table.schema policy = .ok merged → merged.store = .ok item →
      (Record.named stored = true → table.schema.Identifies request.key item) →
      Reconciliation table mode record policy request
        [(.update request, .refused error),
          (.get table.name request.key (.bool true), .response response),
          (.put table.name item {}, answer)]

section

variable {mode : WriteMode} {identity : Record} {policy : Policy} {request : UpdateRequest}
  (names : record.named = true) (keyed : table.schema.keyOf record = .ok identity)
  (sent : identity.store = .ok request.key)

include keyed sent

theorem getRequest_identity :
    table.getRequest (.map identity) (.bool true) =
      .ok (.get table.name request.key (.bool true)) := by
  have normal : table.schema.normalize (.map identity) = .ok identity :=
    KeySchema.keyOf_identity keyed
  unfold getRequest Request.ofIdentity
  rw [normal]
  show (do .ok (.get table.name (← identity.store) (.bool true)) : Except Failure Request) = _
  rw [sent]
  rfl

include names

theorem identifies_of_store {item : Item} (stored : record.store = .ok item) :
    table.schema.Identifies request.key item :=
  KeySchema.identifies_store keyed sent names stored fun _ _ => rfl

-- An error answer is classified once. What is sent after it is settled by the category alone, so
-- each category has a lemma of its own.
theorem reconciles_condition {error : ServiceError}
    (failed : table.classify error.codeText error.messageText = .conditionFailed)
    (client : Client) : Reconciliation table mode record policy request
      ((.update request, .refused error) ::
        dialogue respond (table.recoverCondition mode record identity error) client) := by
  cases present : error.item.truthy with
  | true =>
    unfold recoverCondition
    rw [if_pos present]
    exact .updated
  | false =>
    unfold recoverCondition
    rw [present]
    cases mode with
    | update => exact .updated
    | upsert =>
      change Reconciliation _ _ _ _ _ (_ :: dialogue respond (table.insert record identity) client)
      rcases dialogue_insert respond identity client with none | ⟨item, answer, stored, one⟩
      · rw [none]
        exact .updated
      · rw [one]
        exact .inserted rfl failed present stored (identifies_of_store names keyed sent stored)

theorem reconciles_mismatch {error : ServiceError}
    (mismatched : table.classify error.codeText error.messageText = .schemaMismatch)
    (client : Client) : Reconciliation table mode record policy request
      ((.update request, .refused error) ::
        dialogue respond (table.recoverMismatch mode record identity policy) client) := by
  unfold recoverMismatch fetch
  rw [getRequest_identity keyed sent]
  change Reconciliation _ _ _ _ _ (_ :: dialogue respond (Exchange.read _ >>= _) client)
  rcases dialogue_read respond _ _ client with
    ⟨answer, one⟩ | ⟨response, found, later, brought, more⟩
  · rw [one]
    exact .read mismatched
  · rw [more]
    cases found with
    | none =>
      cases mode with
      | update => exact .read mismatched
      | upsert =>
        change Reconciliation _ _ _ _ _
          (_ :: _ :: dialogue respond (table.insert record identity) later)
        rcases dialogue_insert respond identity later with none | ⟨item, answer, stored, one⟩
        · rw [none]
          exact .read mismatched
        · rw [one]
          exact .insertedAfterRead rfl mismatched (itemOf_eq_none_iff.mp brought) stored
            (identifies_of_store names keyed sent stored)
    | some current =>
      obtain ⟨stored, held, nonempty, loaded⟩ := itemOf_eq_some_iff.mp brought
      cases merging : Record.merge current record table.schema policy with
      | error failure =>
        simp only [merging]
        exact .read mismatched
      | ok merged =>
        simp only [merging]
        change Reconciliation _ _ _ _ _
          (_ :: _ :: dialogue respond (table.replace merged identity) later)
        rcases dialogue_replace respond identity later with none | ⟨item, answer, kept, one⟩
        · rw [none]
          exact .read mismatched
        · rw [one]
          -- The merged record has string keys only if the item that was read has.
          refine .replaced mismatched held nonempty loaded merging kept fun fits => ?_
          exact KeySchema.identifies_store keyed sent
            (Record.named_merge (Record.named_load fits loaded) merging) kept
            fun name key => Record.get?_merge merging key

end

theorem apply_eq {mode : WriteMode} {identity : Record} {policy : Policy} {condition : String}
    {given : Value} {update : Update} {request : UpdateRequest}
    (compiled : Update.compile record table.schema policy = .ok update)
    (built : table.requestOf update record condition given = .ok request)
    (keyed : table.schema.keyOf record = .ok identity) :
    table.apply mode record policy condition given =
      .note (compiledNote update) (.send (.update request) fun
        | .response fields =>
          Exchange.done (itemOf "Attributes" fields) >>= fun item => pure ⟨.applied, item⟩
        | .refused error => table.recover mode record identity policy error
        | .failed failure => .fail failure) := by
  unfold apply prepare noted
  rw [compiled, keyed]
  refine congrArg (Exchange.note _) ?_
  change Exchange.andThen (Exchange.done (table.requestOf update record condition given)) _ = _
  rw [built]
  refine congrArg (Exchange.send _) (funext fun answer => ?_)
  cases answer <;> rfl

theorem key_of_requestOf {update : Update} {condition : String} {given : Value}
    {request : UpdateRequest}
    (built : table.requestOf update record condition given = .ok request) :
    ∃ identity, table.schema.keyOf record = .ok identity ∧ identity.store = .ok request.key := by
  obtain ⟨bound, -, later⟩ := bind_eq_ok_iff.mp built
  obtain ⟨guarded, -, later⟩ := bind_eq_ok_iff.mp later
  obtain ⟨identity, keyed, later⟩ := bind_eq_ok_iff.mp later
  obtain ⟨key, sent, later⟩ := bind_eq_ok_iff.mp later
  obtain ⟨values, -, whole⟩ := bind_eq_ok_iff.mp later
  cases whole
  exact ⟨identity, keyed, sent⟩

theorem dialogue_apply_of_error {mode : WriteMode} {policy : Policy} {condition : String}
    {given : Value} {failure : Failure}
    (failed : table.updateRequest record policy condition given = .error failure)
    (client : Client) :
    dialogue respond (table.apply mode record policy condition given) client = [] := by
  unfold updateRequest at failed
  unfold apply prepare noted
  cases compiled : Update.compile record table.schema policy with
  | error cause => rfl
  | ok update =>
    rw [compiled] at failed
    change table.requestOf update record condition given = .error failure at failed
    change dialogue respond (Exchange.andThen
      (Exchange.done (table.requestOf update record condition given)) _) client = []
    rw [failed]
    rfl

theorem reconciles_apply {mode : WriteMode} {policy : Policy} {condition : String} {given : Value}
    {request : UpdateRequest} (names : record.named = true)
    (built : table.updateRequest record policy condition given = .ok request) (client : Client) :
    Reconciliation table mode record policy request
      (dialogue respond (table.apply mode record policy condition given) client) := by
  obtain ⟨update, compiled, whole⟩ := bind_eq_ok_iff.mp built
  obtain ⟨identity, keyed, sent⟩ := key_of_requestOf whole
  rw [apply_eq compiled whole keyed, dialogue]
  obtain ⟨answer, later, exchanged⟩ := Exchange.dialogue_send respond (.update request) _ client
  rw [exchanged]
  cases answer with
  | response fields =>
    cases brought : itemOf "Attributes" fields with
    | error failure =>
      simp only [brought]
      exact .updated
    | ok found =>
      simp only [brought]
      exact .updated
  | refused error =>
    unfold recover
    cases category : table.classify error.codeText error.messageText with
    | schemaMismatch =>
      simp only [category]
      exact reconciles_mismatch names keyed sent category later
    | conditionFailed =>
      simp only [category]
      exact reconciles_condition names keyed sent category later
    | unclassified =>
      simp only [category]
      exact .updated
  | failed failure => exact .updated

-- Parts of the caller's own can end a run after any request but the first. The family is closed
-- under this, so the theorem about all runs follows from the one about undisturbed runs.
theorem Reconciliation.of_isPrefix {mode : WriteMode} {policy : Policy} {request : UpdateRequest}
    {whole shorter : List (Request × Answer)}
    (reconciled : Reconciliation table mode record policy request whole)
    (early : shorter <+: whole) (nonempty : shorter ≠ []) :
    Reconciliation table mode record policy request shorter := by
  cases reconciled with
  | updated =>
    simp only [List.prefix_cons_iff, List.prefix_nil] at early
    rcases early with none | ⟨_, rfl, rfl⟩
    · exact absurd none nonempty
    · exact .updated
  | inserted upsert failed absent stored key =>
    simp only [List.prefix_cons_iff, List.prefix_nil] at early
    rcases early with none | ⟨_, rfl, rfl | ⟨_, rfl, rfl⟩⟩
    · exact absurd none nonempty
    · exact .updated
    · exact .inserted upsert failed absent stored key
  | read mismatched =>
    simp only [List.prefix_cons_iff, List.prefix_nil] at early
    rcases early with none | ⟨_, rfl, rfl | ⟨_, rfl, rfl⟩⟩
    · exact absurd none nonempty
    · exact .updated
    · exact .read mismatched
  | insertedAfterRead upsert mismatched absent stored key =>
    simp only [List.prefix_cons_iff, List.prefix_nil] at early
    rcases early with none | ⟨_, rfl, rfl | ⟨_, rfl, rfl | ⟨_, rfl, rfl⟩⟩⟩
    · exact absurd none nonempty
    · exact .updated
    · exact .read mismatched
    · exact .insertedAfterRead upsert mismatched absent stored key
  | replaced mismatched held given loaded merging stored key =>
    simp only [List.prefix_cons_iff, List.prefix_nil] at early
    rcases early with none | ⟨_, rfl, rfl | ⟨_, rfl, rfl | ⟨_, rfl, rfl⟩⟩⟩
    · exact absurd none nonempty
    · exact .updated
    · exact .read mismatched
    · exact .replaced mismatched held given loaded merging stored key

/-- A write that may not create a record writes an item only where it has read one. -/
theorem Reconciliation.read_of_put {policy : Policy} {request : UpdateRequest}
    {dialogue : List (Request × Answer)}
    (reconciled : Reconciliation table .update record policy request dialogue) {name : String}
    {item : Item} {condition : PutCondition} {answer : Answer}
    (put : (.put name item condition, answer) ∈ dialogue) :
    ∃ response stored,
      (.get table.name request.key (.bool true), .response response) ∈ dialogue ∧
      response.get? "Item" = some (.map stored) ∧ stored ≠ [] := by
  cases reconciled with
  | updated => simp at put
  | inserted upsert => cases upsert
  | read mismatched => simp at put
  | insertedAfterRead upsert => cases upsert
  | replaced mismatched held given => exact ⟨_, _, by simp, held, given⟩

theorem dialogue_guarded_apply_ne_nil {mode : WriteMode} {policy : Policy} {condition : String}
    {given : Value} {request : UpdateRequest} (guard : Guard)
    (built : table.updateRequest record policy condition given = .ok request) (client : Client) :
    dialogue respond (Exchange.guarded guard (table.apply mode record policy condition given))
      client ≠ [] := by
  obtain ⟨update, compiled, whole⟩ := bind_eq_ok_iff.mp built
  obtain ⟨identity, keyed, -⟩ := key_of_requestOf whole
  have noteTaken : guard.noteFault (compiledNote update) = none := by
    simp [Guard.noteFault, compiledNote, Event.ofCompiler]
  rw [apply_eq compiled whole keyed, Exchange.guarded, noteTaken]
  exact List.cons_ne_nil _ _

/-- Any write of a named record, with any client and whatever parts of the caller's own fail:
nothing is sent exactly if the request cannot be built, and otherwise the update is sent and
recovered from as the mode allows. -/
theorem apply_reconciles {record : Record} (names : record.named = true) (table : Table)
    (mode : WriteMode) (policy : Policy) (condition : String) (given : Value) (guard : Guard)
    (respond : Client → Request → Answer × Client) (client : Client) :
    let exchange := Exchange.guarded guard (table.apply mode record policy condition given)
    Exchange.calls (Exchange.run respond exchange client).steps =
        (dialogue respond exchange client).map Prod.fst ∧
      (dialogue respond exchange client = [] ↔
        ∃ failure, table.updateRequest record policy condition given = .error failure) ∧
      ∀ request, table.updateRequest record policy condition given = .ok request →
        Reconciliation table mode record policy request (dialogue respond exchange client) ∧
        (mode = .update → ∀ name item guards answer,
          (.put name item guards, answer) ∈ dialogue respond exchange client →
          ∃ response stored,
            (.get table.name request.key (.bool true), .response response) ∈
              dialogue respond exchange client ∧
            response.get? "Item" = some (.map stored) ∧ stored ≠ []) := by
  intro exchange
  have early : dialogue respond exchange client <+:
      dialogue respond (table.apply mode record policy condition given) client :=
    Exchange.dialogue_guarded_isPrefix guard _ client
  refine ⟨Exchange.calls_run exchange client, ⟨fun none => ?_, ?_⟩, fun request built => ?_⟩
  · cases built : table.updateRequest record policy condition given with
    | error failure => exact ⟨failure, rfl⟩
    | ok request => exact absurd none (dialogue_guarded_apply_ne_nil guard built client)
  · rintro ⟨failure, failed⟩
    rw [dialogue_apply_of_error failed] at early
    exact List.prefix_nil.mp early
  · have reconciled := (reconciles_apply names built client).of_isPrefix early
      (dialogue_guarded_apply_ne_nil guard built client)
    refine ⟨reconciled, fun update name item guards answer put => ?_⟩
    subst update
    exact reconciled.read_of_put put

/-- A client that gives its answers one after another. -/
def answering (answers : List Answer) (_ : Request) : Answer × List Answer :=
  match answers with
  | [] => (.response [], [])
  | answer :: rest => (answer, rest)

/-- A table that takes every error answer for an item that cannot take the update. -/
def mismatching : Table where
  name := "records"
  schema := .single "1" (by decide)
  classify _ _ := .schemaMismatch

def mismatchedRecord : Record :=
  [(.text "1", .text "a"), (.text "v", .int 1)]

/-- The update is refused, the stored item is read, and the merged item is taken. -/
def mismatchAnswers (stored : Record) : List Answer :=
  [.refused (.ofCode "ValidationException" "" "UpdateItem" .null),
    .response [(.text "Item", .map stored)], .response []]

theorem apply_reconciles_mismatching :
    mismatchedRecord.named = true ∧
      ∃ request,
        mismatching.updateRequest mismatchedRecord (.all [] false) "" .null = .ok request ∧
        Reconciliation mismatching .update mismatchedRecord (.all [] false) request
          (dialogue answering
            (Exchange.guarded {}
              (mismatching.apply .update mismatchedRecord (.all [] false) "" .null))
            (mismatchAnswers [(.text "1", .map [(.text "S", .text "a")])])) := by
  have whole := apply_reconciles (show mismatchedRecord.named = true from rfl) mismatching .update
    (.all [] false) "" .null {} answering
    (mismatchAnswers [(.text "1", .map [(.text "S", .text "a")])])
  exact ⟨rfl, _, rfl, (whole.2.2 _ rfl).1⟩

/-- An item with two keys that are written alike has the later one of them stored. -/
theorem replaced_key_differs :
    ∃ request item answer,
      mismatching.updateRequest mismatchedRecord (.all [] false) "" .null = .ok request ∧
      (.put "records" item {}, answer) ∈
        dialogue answering (mismatching.apply .update mismatchedRecord (.all [] false) "" .null)
          (mismatchAnswers
            [(.text "1", .map [(.text "S", .text "a")]), (.int 1, .map [(.text "S", .text "b")])]) ∧
      Entries.get? request.key "1" = some (.text "a") ∧
      Entries.get? item "1" = some (.text "b") := by
  refine ⟨_, [("1", .text "b"), ("v", .number (.finite false 1 0))], .response [], rfl, ?_, rfl,
    rfl⟩
  exact .tail _ (.tail _ (.head _))

end Table

end RecordMerge

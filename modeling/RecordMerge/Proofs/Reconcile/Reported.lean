import RecordMerge.Proofs.Exchange.Ending
import RecordMerge.Proofs.Reconcile
import RecordMerge.Proofs.Value.Settled

/-! The record that a write reports. -/

set_option autoImplicit false

namespace RecordMerge.Table

open Attribute (wireItem)
open Exchange (Ends dialogue)

variable {table : Table} {mode : WriteMode} {record identity : Record} {policy : Policy}
  {calls : List (Request × Answer)} {result : WriteResult}

/-- None of the calls writes a record as a whole. -/
def Unwritten (calls : List (Request × Answer)) : Prop :=
  ∀ call ∈ calls, call.1.operation ≠ .putItem

/-- What a write reports after its calls: what the service says is stored after an update, and
otherwise the record that it wrote as a whole, if it wrote one. -/
inductive Reported (table : Table) (record : Record) (policy : Policy) :
    List (Request × Answer) → WriteResult → Prop where
  | applied {request : UpdateRequest} {fields : Record} {item : Option Record} :
      itemOf "Attributes" fields = .ok item →
      Reported table record policy [(.update request, .response fields)] ⟨.applied, item⟩
  | rejected {calls : List (Request × Answer)} : Unwritten calls →
      Reported table record policy calls ⟨.rejected, none⟩
  | inserted {earlier : List (Request × Answer)} {item : Item} {fields : Record} :
      Unwritten earlier → record.store = .ok item →
      Reported table record policy (earlier ++ [(.put table.name item {}, .response fields)])
        ⟨.inserted, some record⟩
  | merged {earlier : List (Request × Answer)} {request : Request} {response current merged : Record}
      {item : Item} {fields : Record} :
      Unwritten earlier → (request, .response response) ∈ earlier →
      request.operation = .getItem → itemOf "Item" response = .ok (some current) →
      Record.merge current record table.schema policy = .ok merged → merged.store = .ok item →
      Reported table record policy (earlier ++ [(.put table.name item {}, .response fields)])
        ⟨.merged, some merged⟩

theorem of_ends_put {value : Unit} (ends : Ends (table.put record .null .null .null) calls value) :
    ∃ item fields, record.store = .ok item ∧
      calls = [(.put table.name item {}, .response fields)] := by
  obtain ⟨request, built, sending⟩ := Exchange.ends_done_bind_iff.mp ends
  obtain ⟨fields, _, finished, rfl⟩ := Exchange.ends_call_bind_iff.mp sending
  obtain ⟨-, rfl⟩ := Exchange.ends_pure_iff.mp finished
  obtain ⟨item, stored, rfl⟩ := putRequest_eq_ok built
  exact ⟨item, fields, stored, rfl⟩

/-- A full write with its note reports the record that it writes. -/
theorem of_ends_written {outcome : WriteOutcome} {event : Event}
    (ends : Ends (table.put record .null .null .null >>= fun _ => Exchange.report event >>= fun _ =>
      pure ⟨outcome, some record⟩) calls result) :
    result = ⟨outcome, some record⟩ ∧ ∃ item fields, record.store = .ok item ∧
      calls = [(.put table.name item {}, .response fields)] := by
  obtain ⟨_, _, _, putting, noting, rfl⟩ := Exchange.ends_bind_iff.mp ends
  obtain ⟨rfl, rfl⟩ := Exchange.ends_reported_iff.mp noting
  obtain ⟨item, fields, stored, rfl⟩ := of_ends_put putting
  exact ⟨rfl, item, fields, stored, rfl⟩

theorem of_ends_fetch {key consistent : Value} {found : Option Record}
    (ends : Ends (table.fetch key consistent) calls found) :
    ∃ identity response, itemOf "Item" response = .ok found ∧
      calls = [(.get table.name identity consistent, .response response)] := by
  obtain ⟨request, built, sending⟩ := Exchange.ends_done_bind_iff.mp ends
  obtain ⟨response, _, reading, rfl⟩ := Exchange.ends_call_bind_iff.mp sending
  obtain ⟨brought, rfl⟩ := Exchange.ends_done_iff.mp reading
  obtain ⟨normal, -, asked⟩ := bind_eq_ok_iff.mp built
  obtain ⟨identity, -, whole⟩ := bind_eq_ok_iff.mp asked
  cases whole
  exact ⟨identity, response, brought, rfl⟩

section

variable {request : UpdateRequest} {error : ServiceError}

theorem unwritten_update {answer : Answer} : Unwritten [(.update request, answer)] :=
  List.forall_mem_singleton.mpr nofun

theorem unwritten_read {answer answer' : Answer} {name : String} {key : Item} {consistent : Value} :
    Unwritten [(.update request, answer), (.get name key consistent, answer')] :=
  List.forall_mem_cons.mpr ⟨nofun, List.forall_mem_singleton.mpr nofun⟩

theorem reported_rejected {earlier : List (Request × Answer)} {event : Event}
    (unwritten : Unwritten earlier)
    (ends : Ends (Exchange.report event >>= fun _ => pure ⟨.rejected, none⟩) calls result) :
    Reported table record policy (earlier ++ calls) result := by
  obtain ⟨rfl, rfl⟩ := Exchange.ends_reported_iff.mp ends
  rw [List.append_nil]
  exact .rejected unwritten

theorem reported_insert {earlier : List (Request × Answer)} (unwritten : Unwritten earlier)
    (ends : Ends (table.insert record identity) calls result) :
    Reported table record policy (earlier ++ calls) result := by
  obtain ⟨rfl, item, fields, stored, rfl⟩ := of_ends_written ends
  exact .inserted unwritten stored

theorem reported_condition
    (ends : Ends (table.recoverCondition mode record identity error) calls result) :
    Reported table record policy ((.update request, .refused error) :: calls) result := by
  unfold recoverCondition at ends
  split at ends
  · exact reported_rejected unwritten_update ends
  · cases mode with
    | update => exact reported_rejected unwritten_update ends
    | upsert => exact reported_insert unwritten_update (Exchange.ends_report_bind_iff.mp ends)

theorem reported_mismatch
    (ends : Ends (table.recoverMismatch mode record identity policy) calls result) :
    Reported table record policy ((.update request, .refused error) :: calls) result := by
  have recovering := Exchange.ends_report_bind_iff.mp ends
  obtain ⟨found, _, after, fetched, later, rfl⟩ := Exchange.ends_bind_iff.mp recovering
  obtain ⟨key, response, brought, rfl⟩ := of_ends_fetch fetched
  cases found with
  | none =>
    cases mode with
    | update => exact reported_rejected unwritten_read later
    | upsert => exact reported_insert unwritten_read later
  | some current =>
    obtain ⟨merged, merging, replacing⟩ := Exchange.ends_done_bind_iff.mp later
    obtain ⟨rfl, item, fields, stored, rfl⟩ := of_ends_written replacing
    exact .merged unwritten_read (.tail _ (.head _)) rfl brought merging stored

theorem calls_of_ends_prepare {condition : String} {given : Value}
    (ends : Ends (table.prepare record policy condition given) calls request) : calls = [] := by
  obtain ⟨update, _, _, compiling, building, rfl⟩ := Exchange.ends_bind_iff.mp ends
  obtain ⟨-, rfl⟩ := Exchange.ends_done_iff.mp building
  obtain ⟨compiled, -, noting⟩ := Exchange.ends_done_bind_iff.mp compiling
  obtain ⟨-, rfl⟩ := Exchange.ends_reported_iff.mp noting
  rfl

end

theorem reported_apply {condition : String} {given : Value}
    (ends : Ends (table.apply mode record policy condition given) calls result) :
    Reported table record policy calls result := by
  obtain ⟨request, _, _, preparing, later, rfl⟩ := Exchange.ends_bind_iff.mp ends
  obtain rfl := calls_of_ends_prepare preparing
  obtain ⟨identity, -, sending⟩ := Exchange.ends_done_bind_iff.mp later
  obtain ⟨answer, after, going, rfl⟩ := Exchange.ends_ask_bind_iff.mp sending
  cases answer with
  | response fields =>
    obtain ⟨item, brought, finished⟩ := Exchange.ends_done_bind_iff.mp going
    obtain ⟨rfl, rfl⟩ := Exchange.ends_pure_iff.mp finished
    exact .applied brought
  | refused error =>
    change Ends (table.recover mode record identity policy error) after result at going
    unfold recover at going
    split at going
    · exact reported_mismatch going
    · exact reported_condition going
    · cases going
  | failed failure => cases going

/-- Any write with any client and whatever parts of the caller's own: what it reports after an update
is what the service says is stored. What it reports after a full write is the record that was written,
which equals the one that is read back exactly if it is settled. -/
theorem apply_reports {Client : Type} {table : Table} {mode : WriteMode} {record : Record}
    {policy : Policy} {condition : String} {given : Value} {guard : Guard}
    {respond : Client → Request → Answer × Client} {client : Client} {result : WriteResult}
    (done : (Exchange.run respond
      (Exchange.guarded guard (table.apply mode record policy condition given)) client).result =
        .ok result) :
    let calls := dialogue respond
      (Exchange.guarded guard (table.apply mode record policy condition given)) client
    Reported table record policy calls result ∧
      (result.outcome = .inserted ∨ result.outcome = .merged →
        ∃ shown item fields earlier, result.item = some shown ∧ shown.store = .ok item ∧
          Unwritten earlier ∧ calls = earlier ++ [(.put table.name item {}, .response fields)] ∧
          ∀ read, (wireItem item).loadItem = .ok read →
            Value.same (.map shown) (.map read) = (Value.map shown).settled) := by
  intro calls
  have reported : Reported table record policy calls result :=
    reported_apply (Exchange.ends_run done).of_guarded
  refine ⟨reported, fun written => ?_⟩
  clear_value calls
  cases reported with
  | applied => simp at written
  | rejected => simp at written
  | inserted unwritten stored =>
    exact ⟨_, _, _, _, rfl, stored, unwritten, rfl, fun _ => Record.same_of_loadItem stored⟩
  | merged unwritten _ _ _ _ stored =>
    exact ⟨_, _, _, _, rfl, stored, unwritten, rfl, fun _ => Record.same_of_loadItem stored⟩

/-- A stored item that has a row and not the attribute that is written. -/
def receivedHours : Record :=
  [(.text "1", Attribute.tagged .text (.text "a")),
    (.text "hours", Attribute.tagged .list
      (.list [Attribute.tagged .number (.text "8.50"), Attribute.tagged .null (.bool true)]))]

def mergedHours : Record :=
  [(.text "1", .text "a"), (.text "hours", .list [.decimal (.finite false 850 (-2)), .null]),
    (.text "v", .int 1)]

def readHours : Record :=
  [(.text "1", .text "a"), (.text "hours", .list [.decimal (.finite false 850 (-2)), .null]),
    (.text "v", .decimal (.finite false 1 0))]

theorem apply_reports_mismatching :
    (Exchange.run answering
      (Exchange.guarded {} (mismatching.apply .update mismatchedRecord (.all [] false) "" .null))
      (mismatchAnswers receivedHours)).result = .ok ⟨.merged, some mergedHours⟩ ∧
    ∃ item fields earlier, mergedHours.store = .ok item ∧
      dialogue answering
        (Exchange.guarded {} (mismatching.apply .update mismatchedRecord (.all [] false) "" .null))
        (mismatchAnswers receivedHours) = earlier ++ [(.put "records" item {}, .response fields)] ∧
      (wireItem item).loadItem = .ok readHours ∧
      Value.same (.map mergedHours) (.map readHours) = true := by
  have done : (Exchange.run answering
      (Exchange.guarded {} (mismatching.apply .update mismatchedRecord (.all [] false) "" .null))
      (mismatchAnswers receivedHours)).result = .ok ⟨.merged, some mergedHours⟩ := rfl
  obtain ⟨-, written⟩ := apply_reports done
  obtain ⟨shown, item, fields, earlier, reported, stored, -, exchanged, reading⟩ :=
    written (.inr rfl)
  cases reported
  have loaded : (wireItem item).loadItem = .ok readHours := by
    cases stored
    rfl
  exact ⟨done, item, fields, earlier, stored, exchanged, loaded, reading _ loaded⟩

/-- An unset attribute is not stored, and yet it is reported. -/
theorem unset_reported :
    ∃ record item read,
      (Exchange.run answering (mismatching.apply .upsert record (.all [] false) "" .null)
        [.refused (.ofCode "ValidationException" "" "UpdateItem" .null), .response [],
          .response []]).result = .ok ⟨.inserted, some record⟩ ∧
      record.store = .ok item ∧ (wireItem item).loadItem = .ok read ∧
      Value.same (.map record) (.map read) = false :=
  ⟨[(.text "1", .text "a"), (.text "note", .unset), (.text "v", .int 1)], _, _, rfl, rfl, rfl,
    by decide +kernel⟩

end RecordMerge.Table

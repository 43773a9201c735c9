import RecordMerge.Proofs.Batch.Reads

/-! A batch is checked as a whole before anything is sent: either its first invalid element ends it, or
each element is in exactly one group, in the order of the elements. -/

set_option autoImplicit false

namespace RecordMerge.Batch

open Exchange (Run)

/-- A record that has an identity is written with all of its attributes. -/
def WrittenAs (keyOf : Record → Except Failure Record) (element entry : Value) : Prop :=
  ∃ record identity item, element.entries? = some record ∧ keyOf record = .ok identity ∧
    record.store = .ok item ∧
    entry = .ofNames [("PutRequest", .ofNames [("Item", Attribute.wireItem item)])]

/-- Why a record cannot be written; its identity is looked at before its values. -/
inductive Unwritable (keyOf : Record → Except Failure Record) (element : Value) : Failure → Prop where
  | shapeless : element.entries? = none → Unwritable keyOf element (.reading .noEntries)
  | anonymous {record : Record} {failure : Failure} : element.entries? = some record →
      keyOf record = .error failure → Unwritable keyOf element failure
  | unstored {record identity : Record} {failure : Failure} : element.entries? = some record →
      keyOf record = .ok identity → record.store = .error failure → Unwritable keyOf element failure

/-- A key is sent as the stored form of the identity that it stands for. -/
def SentAs (normalize : Value → Except Failure Record) (element entry : Value) : Prop :=
  ∃ identity item, normalize element = .ok identity ∧ identity.store = .ok item ∧
    entry = Attribute.wireItem item

def DeletedAs (normalize : Value → Except Failure Record) (element entry : Value) : Prop :=
  ∃ key, SentAs normalize element key ∧
    entry = .ofNames [("DeleteRequest", .ofNames [("Key", key)])]

/-- Why a key cannot be sent. -/
inductive Unsendable (normalize : Value → Except Failure Record) (element : Value) :
    Failure → Prop where
  | anonymous {failure : Failure} : normalize element = .error failure →
      Unsendable normalize element failure
  | unstored {identity : Record} {failure : Failure} : normalize element = .ok identity →
      identity.store = .error failure → Unsendable normalize element failure

section

variable {keyOf : Record → Except Failure Record} {normalize : Value → Except Failure Record}
  {element entry : Value} {failure : Failure}

theorem putEntry_eq_ok_iff : putEntry keyOf element = .ok entry ↔ WrittenAs keyOf element entry := by
  unfold putEntry WrittenAs Value.asRecord
  cases element.entries? with
  | none => simp [bind_eq_ok_iff]
  | some record =>
    simp only [bind_eq_ok_iff, Except.ok.injEq, Option.some.injEq]
    constructor
    · rintro ⟨_, rfl, identity, named, item, stored, built⟩
      exact ⟨record, identity, item, rfl, named, stored, built.symm⟩
    · rintro ⟨_, identity, item, rfl, named, stored, built⟩
      exact ⟨record, rfl, identity, named, item, stored, built.symm⟩

theorem putEntry_eq_error_iff :
    putEntry keyOf element = .error failure ↔ Unwritable keyOf element failure := by
  unfold putEntry Value.asRecord
  cases read : element.entries? with
  | none =>
    simp only [bind_eq_error_iff, reduceCtorEq, false_and, exists_false, or_false, Except.error.injEq]
    constructor
    · rintro rfl
      exact .shapeless read
    · rintro (_ | ⟨found, _⟩ | ⟨found, _, _⟩)
      · rfl
      · cases read.symm.trans found
      · cases read.symm.trans found
  | some record =>
    simp only [bind_eq_error_iff, reduceCtorEq, false_or, Except.ok.injEq, exists_eq_left', or_false,
      and_false, exists_false]
    constructor
    · rintro (unnamed | ⟨identity, named, unstored⟩)
      · exact .anonymous read unnamed
      · exact .unstored read named unstored
    · rintro (none | ⟨found, unnamed⟩ | ⟨found, named, unstored⟩)
      · cases read.symm.trans none
      · cases read.symm.trans found
        exact .inl unnamed
      · cases read.symm.trans found
        exact .inr ⟨_, named, unstored⟩

theorem keyEntry_eq_ok_iff :
    keyEntry normalize element = .ok entry ↔ SentAs normalize element entry := by
  simp only [keyEntry, SentAs, bind_eq_ok_iff, Except.ok.injEq]
  constructor
  · rintro ⟨identity, named, item, stored, built⟩
    exact ⟨identity, item, named, stored, built.symm⟩
  · rintro ⟨identity, item, named, stored, built⟩
    exact ⟨identity, named, item, stored, built.symm⟩

theorem keyEntry_eq_error_iff :
    keyEntry normalize element = .error failure ↔ Unsendable normalize element failure := by
  simp only [keyEntry, bind_eq_error_iff, reduceCtorEq, and_false, exists_false, or_false]
  constructor
  · rintro (unnamed | ⟨identity, named, unstored⟩)
    · exact .anonymous unnamed
    · exact .unstored named unstored
  · rintro (unnamed | ⟨named, unstored⟩)
    · exact .inl unnamed
    · exact .inr ⟨_, named, unstored⟩

theorem deleteEntry_eq_ok_iff :
    deleteEntry normalize element = .ok entry ↔ DeletedAs normalize element entry := by
  rw [deleteEntry, bind_eq_ok_iff]
  simp only [keyEntry_eq_ok_iff, Except.ok.injEq]
  exact exists_congr fun key => and_congr_right fun _ => eq_comm

theorem deleteEntry_eq_error_iff :
    deleteEntry normalize element = .error failure ↔ Unsendable normalize element failure := by
  simp only [deleteEntry, bind_eq_error_iff, keyEntry_eq_error_iff, reduceCtorEq, and_false,
    exists_false, or_false]

end

/-- A batch that may be refused, run with a client. A refused one makes no step. -/
def runIfValid {Result Client : Type} (respond : Client → Request → Answer × Client)
    (suspending : Bool) (batch : Except Failure (Batch Result)) (client : Client) :
    Run Client (List Result) :=
  match batch with
  | .ok batch => batch.run respond suspending client
  | .error failure => ⟨.error failure, [], client⟩

/-- All elements are checked before the first group is made. What an element is sent as, and why it is
refused, is up to the operation; so is what is done with a group. -/
structure Validated {Result : Type} (sentAs : Value → Value → Prop)
    (refused : Value → Failure → Prop) (limit : Nat) (group : List Value → Exchange Result)
    (elements : List Value) (batch : Except Failure (Batch Result)) : Prop where
  /-- The first invalid element in the order of the list ends the operation. -/
  first : ∀ before bad after failure, elements = before ++ bad :: after →
    (∀ earlier ∈ before, ∃ entry, sentAs earlier entry) → refused bad failure →
    batch = .error failure
  /-- An operation that is refused has a first invalid element, and makes no call. -/
  nothing : ∀ failure, batch = .error failure →
    (∃ before bad after, elements = before ++ bad :: after ∧
      (∀ earlier ∈ before, ∃ entry, sentAs earlier entry) ∧ refused bad failure) ∧
    ∀ {Client : Type} (respond : Client → Request → Answer × Client) (suspending : Bool)
      (client : Client), runIfValid respond suspending batch client = ⟨.error failure, [], client⟩
  /-- If there is no invalid one, the groups are together what the elements are sent as. -/
  whole : (∀ element ∈ elements, ∀ failure, ¬ refused element failure) →
    ∃ (ready : Batch Result) (entries : List Value) (parts : List (List Value)),
      batch = .ok ready ∧ List.Forall₂ sentAs elements entries ∧
        ready.groups = parts.map group ∧ parts.flatten = entries ∧
        ∀ part ∈ parts, 0 < part.length ∧ part.length ≤ limit

section

variable {Result : Type} {prepare : Value → Except Failure Value} {sentAs : Value → Value → Prop}
  {refused : Value → Failure → Prop} {limit : Nat} {group : List Value → Exchange Result}
  {given : Value} {elements : List Value} {batch : Except Failure (Batch Result)}

theorem prepareEach_of_iterate? (walked : given.iterate? = some elements) :
    prepareEach prepare given = prepareAll prepare elements := by
  simp [prepareEach, Value.asRow, walked, Bind.bind, Except.bind]

/-- A batch is validated if it fails as the first element fails, and otherwise has the groups of what
all elements are prepared as. -/
theorem validated (positive : 0 < limit)
    (prepares : ∀ element entry, prepare element = .ok entry ↔ sentAs element entry)
    (fails : ∀ element failure, prepare element = .error failure ↔ refused element failure)
    (failing : ∀ failure, prepareAll prepare elements = .error failure → batch = .error failure)
    (going : ∀ entries, prepareAll prepare elements = .ok entries →
      ∃ ready, batch = .ok ready ∧ ready.groups = (split limit entries).map group) :
    Validated sentAs refused limit group elements batch := by
  have fault (failure : Failure) : prepareAll prepare elements = .error failure ↔
      FirstFault prepare elements failure :=
    row_eq_error_iff rfl fun _ _ => rfl
  have row (entries : List Value) : prepareAll prepare elements = .ok entries ↔
      List.Forall₂ (fun element entry => prepare element = .ok entry) elements entries :=
    row_eq_ok_iff rfl fun _ _ => rfl
  simp only [FirstFault, prepares, fails] at fault
  simp only [prepares] at row
  refine ⟨fun before bad after failure listed fine here => ?_, fun failure ended => ⟨?_, ?_⟩,
    fun valid => ?_⟩
  · exact failing failure ((fault failure).mpr ⟨before, bad, after, listed, fine, here⟩)
  · cases prepared : prepareAll prepare elements with
    | error other =>
      cases ended.symm.trans (failing other prepared)
      exact (fault failure).mp prepared
    | ok entries =>
      obtain ⟨ready, started, -⟩ := going entries prepared
      cases ended.symm.trans started
  · intro Client respond suspending client
    rw [ended]
    rfl
  · cases prepared : prepareAll prepare elements with
    | error failure =>
      obtain ⟨before, bad, after, rfl, -, here⟩ := (fault failure).mp prepared
      exact absurd here (valid bad (by simp) failure)
    | ok entries =>
      obtain ⟨ready, started, groups⟩ := going entries prepared
      exact ⟨ready, entries, split limit entries, started, (row entries).mp prepared,
        groups, flatten_split limit entries, fun part member => length_le_of_mem_split positive member⟩

theorem writes_of_retriesOf {table operation : String} {retries : Value} {count : Nat}
    (allowed : retriesOf retries = .ok count) (entries : List Value) (pauses : Bool) :
    ∃ ready, writes table operation entries retries pauses = .ok ready ∧
      ready.groups = (split writeLimit entries).map fun part =>
        writeGroup table operation ⟨count, pauses⟩ count (.list part) := by
  unfold writes
  rw [allowed]
  cases entries with
  | nil => exact ⟨.empty, rfl, by simp [split, Batch.empty]⟩
  | cons first rest => exact ⟨_, rfl, rfl⟩

end

end RecordMerge.Batch

namespace RecordMerge.Table

open Batch (DeletedAs SentAs Unsendable Unwritable Validated WrittenAs)

/-- Every batch is checked as a whole before any of it is sent. -/
theorem batch_validated (table : Table) (given consistent retries : Value) (elements : List Value)
    (count : Nat) (pauses : Bool) (walked : given.iterate? = some elements)
    (allowed : Batch.retriesOf retries = .ok count) :
    Validated (WrittenAs table.schema.keyOf) (Unwritable table.schema.keyOf) 25
      (fun part => Batch.writeGroup table.name "batch_put" ⟨count, pauses⟩ count (.list part))
      elements (table.batchPut given retries pauses) ∧
    Validated (DeletedAs table.schema.normalize) (Unsendable table.schema.normalize) 25
      (fun part => Batch.writeGroup table.name "batch_delete" ⟨count, pauses⟩ count (.list part))
      elements (table.batchDelete given retries pauses) ∧
    Validated (SentAs table.schema.normalize) (Unsendable table.schema.normalize) 100
      (fun part => Batch.readGroup table.name consistent ⟨count, pauses⟩ count [] (.list part))
      elements (table.batchGet given consistent retries pauses) := by
  refine ⟨?_, ?_, ?_⟩
  · refine Batch.validated (Nat.succ_pos _) (fun _ _ => Batch.putEntry_eq_ok_iff)
      (fun _ _ => Batch.putEntry_eq_error_iff) (fun failure failed => ?_) fun entries prepared => ?_
    · exact bind_eq_error_iff.mpr (.inl (by rw [Batch.prepareEach_of_iterate? walked, failed]))
    · obtain ⟨ready, started, groups⟩ := Batch.writes_of_retriesOf allowed entries pauses
      refine ⟨ready, bind_eq_ok_iff.mpr ⟨entries, ?_, started⟩, groups⟩
      rw [Batch.prepareEach_of_iterate? walked, prepared]
  · refine Batch.validated (Nat.succ_pos _) (fun _ _ => Batch.deleteEntry_eq_ok_iff)
      (fun _ _ => Batch.deleteEntry_eq_error_iff) (fun failure failed => ?_) fun entries prepared => ?_
    · exact bind_eq_error_iff.mpr (.inl (by rw [Batch.prepareEach_of_iterate? walked, failed]))
    · obtain ⟨ready, started, groups⟩ := Batch.writes_of_retriesOf allowed entries pauses
      refine ⟨ready, bind_eq_ok_iff.mpr ⟨entries, ?_, started⟩, groups⟩
      rw [Batch.prepareEach_of_iterate? walked, prepared]
  · refine Batch.validated (Nat.succ_pos _) (fun _ _ => Batch.keyEntry_eq_ok_iff)
      (fun _ _ => Batch.keyEntry_eq_error_iff) (fun failure failed => ?_) fun entries prepared => ?_
    · cases present : given.truthy with
      | false =>
        cases Batch.eq_nil_of_absent walked present
        cases failed
      | true =>
        rw [batchGet, Batch.reads, allowed, present, Batch.prepareEach_of_iterate? walked, failed]
        rfl
    · cases present : given.truthy with
      | false =>
        cases Batch.eq_nil_of_absent walked present
        cases prepared
        refine ⟨.empty, ?_, by simp [Batch.split, Batch.empty]⟩
        rw [batchGet, Batch.reads, allowed, present]
        rfl
      | true =>
        rw [batchGet, Batch.reads, allowed, present, Batch.prepareEach_of_iterate? walked, prepared]
        exact ⟨_, rfl, rfl⟩

/-- An order, a record without an identity, and no record at all. -/
def mixedOrders : List Value :=
  [.ofNames [("id", .text "a")], .map [], .null]

theorem batch_validated_orders :
    orders.batchPut (.list mixedOrders) (.int 1) true = .error (.key (.missing "id")) ∧
      ∃ (ready : Batch Unit) (parts : List (List Value)),
        orders.batchDelete twoOrders (.int 1) true = .ok ready ∧
          ready.groups = parts.map (fun part =>
            Batch.writeGroup "orders" "batch_delete" ⟨1, true⟩ 1 (.list part)) ∧
          parts.flatten = [deleteOrder "a", deleteOrder "b"] := by
  constructor
  · have validated :=
      (batch_validated orders (.list mixedOrders) .null (.int 1) mixedOrders 1 true rfl rfl).1
    refine validated.first [.ofNames [("id", .text "a")]] (.map []) [.null] _ rfl ?_
      (.anonymous rfl rfl)
    exact List.forall_mem_singleton.mpr ⟨_, _, _, _, rfl, rfl, rfl, rfl⟩
  · have prepared (id : String) : Batch.deleteEntry orders.schema.normalize
        (.ofNames [("id", .text id)]) = .ok (deleteOrder id) := rfl
    have validated := (batch_validated orders twoOrders .null (.int 1)
      [.ofNames [("id", .text "a")], .ofNames [("id", .text "b")]] 1 true rfl rfl).2.1
    have valid (id : String) (failure : Failure) :
        ¬ Unsendable orders.schema.normalize (.ofNames [("id", .text id)]) failure := fun refused => by
      cases (prepared id).symm.trans (Batch.deleteEntry_eq_error_iff.mpr refused)
    obtain ⟨ready, entries, parts, started, sent, groups, together, -⟩ := validated.whole
      (List.forall_mem_cons.mpr ⟨valid "a", List.forall_mem_singleton.mpr (valid "b")⟩)
    refine ⟨ready, parts, started, groups, together.trans ?_⟩
    have each := sent.imp fun _ _ deleted => Batch.deleteEntry_eq_ok_iff.mpr deleted
    cases each with
    | cons first others =>
      cases others with
      | cons second none =>
        cases none
        cases first
        cases second
        rfl

end RecordMerge.Table

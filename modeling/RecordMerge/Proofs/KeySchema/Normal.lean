import RecordMerge.Batch
import RecordMerge.Failure.Kind
import RecordMerge.Proofs.Attribute.Stored
import RecordMerge.Proofs.Reconcile

/-!
The identity that a key stands for.

A record, a pair and a bare value are three ways to give the same: one value for each key attribute.
Only a record is asked whether one of its values is unset, so that the others can leave an attribute
of the identity unset, which is then missing where the identity is sent.
-/

set_option autoImplicit false

namespace RecordMerge.KeySchema

/-- The values that a key gives for the partition and for the sort attribute, null where it gives
none. A key of no accepted form gives nothing. -/
def given? (schema : KeySchema) : Value → Option (Value × Value)
  | .map record =>
    some ((Record.get? schema.partition record).getD .null,
      (schema.sort.bind fun name => Record.get? name record).getD .null)
  | .tuple [partition, sort] => some (partition, sort)
  | .tuple _ => none
  | partition => if schema.sort.isNone then some (partition, .null) else none

/-- The key attributes with the given values, as many as there are. -/
def identityWith (schema : KeySchema) (partition sort : Value) : Record :=
  (schema.names.map .text).zip [partition, sort]

/-- A pair or a bare value that gives an unset value. -/
def GivesUnset (schema : KeySchema) (key : Value) : Prop :=
  key.entries? = none ∧ ∃ partition sort, schema.given? key = some (partition, sort) ∧
    (partition.isUnset = true ∨ sort.isUnset = true)

/-- The key gives a value for the partition, and one for the sort attribute exactly if there is one.
Only in a record none of them may be unset. -/
def Gives (schema : KeySchema) (key partition sort : Value) : Prop :=
  schema.given? key = some (partition, sort) ∧ partition.isNull = false ∧
    sort.isNull = schema.sort.isNone ∧
    (key.entries? = none ∨ partition.isUnset = false ∧ sort.isUnset = false)

theorem identityOf_eq_ok_iff {record : Record} {name : String} {value : Value} :
    identityOf record name = .ok value ↔ (record.get? name).getD .null = value ∧
      value.isNull = false ∧ value.isUnset = false := by
  unfold identityOf
  cases record.get? name with
  | none =>
    simp only [Option.getD_none, reduceCtorEq, false_iff, not_and]
    rintro rfl
    exact nofun
  | some held =>
    cases held <;> simp only [Option.getD_some, Except.ok.injEq, reduceCtorEq, false_iff, not_and]
    all_goals first
      | (rintro rfl; exact nofun)
      | exact ⟨fun same => ⟨same, same ▸ rfl, same ▸ rfl⟩, And.left⟩

theorem keyOf_eq_ok_iff {schema : KeySchema} {record identity : Record} :
    schema.keyOf record = .ok identity ↔ ∃ partition sort,
      schema.given? (.map record) = some (partition, sort) ∧ partition.isNull = false ∧
      sort.isNull = schema.sort.isNone ∧ partition.isUnset = false ∧ sort.isUnset = false ∧
      identity = schema.identityWith partition sort := by
  obtain ⟨name, other, _, _, _⟩ := schema
  simp only [keyOf, given?, Option.some.injEq, Prod.mk.injEq]
  cases other with
  | none =>
    simp only [names, identities, bind_eq_ok_iff, identityOf_eq_ok_iff, Except.ok.injEq]
    constructor
    · rintro ⟨partition, ⟨found, given, set⟩, _, rfl, rfl⟩
      exact ⟨partition, .null, ⟨found, rfl⟩, given, rfl, set, rfl, rfl⟩
    · rintro ⟨partition, _, ⟨found, rfl⟩, given, -, set, -, rfl⟩
      exact ⟨partition, ⟨found, given, set⟩, [], rfl, rfl⟩
  | some second =>
    simp only [names, identities, bind_eq_ok_iff, identityOf_eq_ok_iff, Except.ok.injEq]
    constructor
    · rintro ⟨partition, ⟨found, given, set⟩, _, ⟨sort, ⟨also, known, kept⟩, _, rfl, rfl⟩, rfl⟩
      exact ⟨partition, sort, ⟨found, also⟩, given, known, set, kept, rfl⟩
    · rintro ⟨partition, sort, ⟨found, also⟩, given, known, set, kept, rfl⟩
      exact ⟨partition, ⟨found, given, set⟩, _, ⟨sort, ⟨also, known, kept⟩, [], rfl, rfl⟩, rfl⟩

theorem keyFrom_eq_ok_iff {schema : KeySchema} {partition sort : Value} {identity : Record} :
    schema.keyFrom partition sort = .ok identity ↔ partition.isNull = false ∧
      sort.isNull = schema.sort.isNone ∧ identity = schema.identityWith partition sort := by
  obtain ⟨name, other, _, _, _⟩ := schema
  unfold keyFrom identityWith names
  cases partition.isNull <;> cases other <;> cases sort.isNull <;> simp [eq_comm]

theorem normalize_pair {schema : KeySchema} {partition sort : Value} {identity : Record} :
    schema.normalize (.tuple [partition, sort]) = .ok identity ↔ partition.isNull = false ∧
      sort.isNull = schema.sort.isNone ∧ identity = schema.identityWith partition sort := by
  rw [← keyFrom_eq_ok_iff]
  cases known : schema.sort with
  | some name => simp [normalize, normalizeBy, known]
  | none =>
    cases absent : sort.isNull with
    | true =>
      have null : sort = .null := by cases sort <;> simp_all [Value.isNull]
      simp [normalize, normalizeBy, known, null, Value.isNull]
    | false => simp [normalize, normalizeBy, known, absent, keyFrom_eq_ok_iff]

/-- A key stands for the identity with the values that it gives. -/
theorem normalize_eq_ok_iff {schema : KeySchema} {key : Value} {identity : Record} :
    schema.normalize key = .ok identity ↔ ∃ partition sort,
      schema.Gives key partition sort ∧ identity = schema.identityWith partition sort := by
  unfold Gives
  cases key with
  | map record => simp [normalize, normalizeBy, keyOf_eq_ok_iff, Value.entries?, and_assoc]
  | tuple elements =>
    rcases elements with _ | ⟨partition, _ | ⟨sort, _ | ⟨third, rest⟩⟩⟩
    case cons.cons.nil => simp [normalize_pair, given?, Value.entries?, and_assoc]
    all_goals cases known : schema.sort <;> simp [normalize, normalizeBy, given?, known]
  | _ =>
    -- A bare value is a partition value where there is no sort attribute.
    cases known : schema.sort <;>
      simp [normalize, normalizeBy, given?, known, Value.entries?, keyFrom_eq_ok_iff, and_assoc]

theorem givesUnset_iff {schema : KeySchema} {key partition sort : Value}
    (gives : schema.given? key = some (partition, sort)) :
    schema.GivesUnset key ↔
      key.entries? = none ∧ (partition.isUnset = true ∨ sort.isUnset = true) := by
  simp [GivesUnset, gives]

/-- The form of a key makes no difference, as long as unset values make none. -/
theorem normalize_congr {schema : KeySchema} {key other : Value}
    (same : schema.given? other = schema.given? key)
    (alike : schema.GivesUnset other ↔ schema.GivesUnset key) (identity : Record) :
    schema.normalize other = .ok identity ↔ schema.normalize key = .ok identity := by
  simp only [normalize_eq_ok_iff, Gives, same, and_assoc]
  refine exists_congr fun partition => exists_congr fun sort => and_congr_right fun gives => ?_
  rw [givesUnset_iff gives, givesUnset_iff (same.trans gives)] at alike
  cases first : partition.isUnset <;> cases second : sort.isUnset <;> simp_all

/-- A key is refused for a fault of the key only. -/
theorem exists_fault_of_keyOf {schema : KeySchema} {record : Record} {failure : Failure}
    (refused : schema.keyOf record = .error failure) : ∃ fault, failure = .key fault := by
  unfold keyOf at refused
  generalize schema.names = names at refused
  induction names with
  | nil => cases refused
  | cons name rest tail =>
    rcases bind_eq_error_iff.mp refused with first | ⟨value, -, later⟩
    · unfold identityOf at first
      split at first <;> cases first
      all_goals exact ⟨_, rfl⟩
    · rcases bind_eq_error_iff.mp later with others | ⟨identity, -, built⟩
      · exact tail others
      · cases built

theorem exists_fault_of_keyFrom {schema : KeySchema} {partition sort : Value} {failure : Failure}
    (refused : schema.keyFrom partition sort = .error failure) : ∃ fault, failure = .key fault := by
  unfold keyFrom at refused
  repeat' split at refused
  all_goals cases refused
  all_goals exact ⟨_, rfl⟩

theorem exists_fault_of_normalize {schema : KeySchema} {key : Value} {failure : Failure}
    (refused : schema.normalize key = .error failure) : ∃ fault, failure = .key fault := by
  unfold normalize normalizeBy at refused
  split at refused
  · exact exists_fault_of_keyOf refused
  · split at refused
    · exact exists_fault_of_keyFrom refused
    · cases refused
      exact ⟨_, rfl⟩
  · cases refused
    exact ⟨_, rfl⟩
  · exact exists_fault_of_keyFrom refused
  · exact exists_fault_of_keyFrom refused
  · cases refused
    exact ⟨_, rfl⟩

/-- The identity has each key attribute once, in order, and none of them is null. It stands for
itself and is sent whole, unless the key that it was made of gives an unset value. -/
structure Identity (schema : KeySchema) (key : Value) (identity : Record) : Prop where
  names : identity.map Prod.fst = schema.names.map .text
  present : ∀ entry ∈ identity, entry.2.isNull = false
  unset : (∃ entry ∈ identity, entry.2.isUnset = true) ↔ schema.GivesUnset key
  stands : schema.normalize (.map identity) = .ok identity ↔ ¬ schema.GivesUnset key
  sent : ∀ item, identity.store = .ok item →
    (item.map Prod.fst = schema.names ↔ ¬ schema.GivesUnset key)

section

variable {schema : KeySchema} {partition sort : Value}

theorem keys_identityWith :
    (schema.identityWith partition sort).map Prod.fst = schema.names.map .text := by
  obtain ⟨name, other, _, _, _⟩ := schema
  cases other <;> rfl

theorem named_identityWith : (schema.identityWith partition sort).named = true := by
  rw [Record.named_iff, keys_identityWith]
  refine ⟨schema.nodup_names.map fun _ _ same => Value.text.inj same, fun key member => ?_⟩
  obtain ⟨name, -, rfl⟩ := List.mem_map.mp member
  exact ⟨name, rfl⟩

/-- The identity gives back what it was made with. -/
theorem given?_identityWith (whole : sort.isNull = schema.sort.isNone) :
    schema.given? (.map (schema.identityWith partition sort)) = some (partition, sort) := by
  obtain ⟨name, other, _, _, distinct⟩ := schema
  cases other with
  | none =>
    have null : sort = .null := by cases sort <;> simp_all [Value.isNull]
    simp [given?, identityWith, names, Record.get?, null]
  | some second =>
    have differs : name ≠ second := fun same => distinct (same ▸ rfl)
    simp [given?, identityWith, names, Record.get?, differs]

theorem unset_identityWith (whole : sort.isNull = schema.sort.isNone) :
    (∃ entry ∈ schema.identityWith partition sort, entry.2.isUnset = true) ↔
      partition.isUnset = true ∨ sort.isUnset = true := by
  obtain ⟨name, other, _, _, _⟩ := schema
  cases other with
  | none =>
    have null : sort = .null := by cases sort <;> simp_all [Value.isNull]
    simp [identityWith, names, null, Value.isUnset]
  | some second => simp [identityWith, names]

theorem present_identityWith (given : partition.isNull = false)
    (whole : sort.isNull = schema.sort.isNone) :
    ∀ entry ∈ schema.identityWith partition sort, entry.2.isNull = false := by
  obtain ⟨name, other, _, _, _⟩ := schema
  cases other <;> simp_all [identityWith, names]

end

/-- What is sent of a named record are its attributes that are set. -/
theorem keys_of_store {record : Record} {item : Item} (names : record.named = true)
    (stored : record.store = .ok item) :
    (item.map Prod.fst).map .text = (record.filter fun entry => !entry.2.isUnset).map Prod.fst := by
  have sent := (Record.storeEntries_eq_ok_iff names).mp ((Record.store_eq_ok_iff names).mp stored)
  clear stored names
  generalize (record.filter fun entry => !entry.2.isUnset) = entries at sent ⊢
  induction sent with
  | nil => rfl
  | cons here _ tail => rw [List.map_cons, List.map_cons, List.map_cons, tail, here.1]

/-- A named record is sent whole if none of its attributes is unset. -/
theorem keys_of_store_iff {record : Record} {item : Item} (names : record.named = true)
    (stored : record.store = .ok item) :
    (item.map Prod.fst).map .text = record.map Prod.fst ↔
      ¬ ∃ entry ∈ record, entry.2.isUnset = true := by
  rw [keys_of_store names stored]
  constructor
  · rintro same ⟨entry, member, unset⟩
    have fewer : (record.filter fun entry => !entry.2.isUnset).length < record.length :=
      List.length_filter_lt_length_iff_exists.mpr ⟨entry, member, by simp [unset]⟩
    have equal := congrArg List.length same
    rw [List.length_map, List.length_map] at equal
    omega
  · intro set
    rw [List.filter_eq_self.mpr]
    intro entry member
    rw [Bool.not_eq_true', ← Bool.not_eq_true]
    exact fun unset => set ⟨entry, member, unset⟩

theorem identity_of_normalize {schema : KeySchema} {key : Value} {identity : Record}
    (normal : schema.normalize key = .ok identity) : Identity schema key identity := by
  obtain ⟨partition, sort, ⟨gives, given, whole, set⟩, rfl⟩ := normalize_eq_ok_iff.mp normal
  have alike : partition.isUnset = true ∨ sort.isUnset = true ↔ schema.GivesUnset key := by
    rw [givesUnset_iff gives, iff_and_self]
    intro unset
    refine set.resolve_right ?_
    rintro ⟨first, second⟩
    simp [first, second] at unset
  have unset := (unset_identityWith whole).trans alike
  refine ⟨keys_identityWith, present_identityWith given whole, unset, ?_, fun item stored => ?_⟩
  · rw [← alike, normalize_eq_ok_iff]
    simp only [Gives, given?_identityWith whole]
    simp [Value.entries?, given, whole]
  · rw [← unset, ← keys_of_store_iff named_identityWith stored, keys_identityWith]
    exact (List.map_injective_iff.mpr fun _ _ => Value.text.inj).eq_iff.symm

end RecordMerge.KeySchema

namespace RecordMerge.Table

open Exchange (dialogue)

/-- The item has the key attributes of the table and no other ones. -/
def IsKey (table : Table) (item : Item) : Prop :=
  item.map Prod.fst = table.schema.names

/-- The request reads the record with a whole key. -/
def ReadsByKey (table : Table) (consistent : Value) (request : Request) : Prop :=
  ∃ item, request = .get table.name item consistent ∧ table.IsKey item

variable {table : Table} {key : Value}

theorem isKey_of_normalize {identity : Record} {item : Item} (set : ¬ table.schema.GivesUnset key)
    (normal : table.schema.normalize key = .ok identity) (stored : identity.store = .ok item) :
    table.IsKey item :=
  ((KeySchema.identity_of_normalize normal).sent item stored).mpr set

theorem requests_read {Client : Type} {respond : Client → Request → Answer × Client}
    {client : Client} {request : Request} :
    ∀ call ∈ dialogue respond (Exchange.read (.ok request)) client, call.1 = request := by
  rcases Exchange.dialogue_call respond request
      (fun response => Exchange.done (itemOf "Item" response)) client with
    ⟨answer, one⟩ | ⟨fields, later, one⟩
  all_goals
    intro call member
    change call ∈ dialogue respond (Exchange.call request >>= _) client at member
    rw [one] at member
    cases List.mem_singleton.mp member
    rfl

theorem readsByKey_fetch {Client : Type} (respond : Client → Request → Answer × Client)
    (client : Client) (consistent : Value) (set : ¬ table.schema.GivesUnset key) :
    ∀ call ∈ dialogue respond (table.fetch key consistent) client,
      table.ReadsByKey consistent call.1 := by
  unfold fetch
  cases built : table.getRequest key consistent with
  | error failure => exact fun call member => absurd member List.not_mem_nil
  | ok request =>
    obtain ⟨identity, normal, later⟩ := bind_eq_ok_iff.mp built
    obtain ⟨item, stored, same⟩ := bind_eq_ok_iff.mp later
    cases same
    exact fun call member =>
      ⟨item, requests_read call member, isKey_of_normalize set normal stored⟩

/-- A read by values looks at the identity once more, as at a record. -/
theorem readsByKey_get {Client : Type} (respond : Client → Request → Answer × Client)
    (client : Client) (partition sort consistent : Value) :
    ∀ call ∈ dialogue respond (table.get partition sort consistent) client,
      table.ReadsByKey consistent call.1 := by
  unfold get
  cases table.schema.keyFrom partition sort with
  | error failure => exact fun call member => absurd member List.not_mem_nil
  | ok identity =>
    exact readsByKey_fetch respond client consistent fun unset => nomatch unset.1

theorem isKey_of_keyEntry {entry : Value} (set : ¬ table.schema.GivesUnset key)
    (made : Batch.keyEntry table.schema.normalize key = .ok entry) :
    ∃ item, entry = Attribute.wireItem item ∧ table.IsKey item := by
  obtain ⟨identity, normal, later⟩ := bind_eq_ok_iff.mp made
  obtain ⟨item, stored, same⟩ := bind_eq_ok_iff.mp later
  exact ⟨item, (Except.ok.inj same).symm, isKey_of_normalize set normal stored⟩

/-- What a table makes of a key in any form. -/
structure Normal (table : Table) (key : Value) : Prop where
  /-- A key that stands for nothing is invalid. -/
  refused : ∀ failure, table.schema.normalize key = .error failure → failure.kind? = some .invalid
  taken : ∀ identity, table.schema.normalize key = .ok identity ↔ ∃ partition sort,
    table.schema.Gives key partition sort ∧ identity = table.schema.identityWith partition sort
  identity : ∀ identity, table.schema.normalize key = .ok identity →
    KeySchema.Identity table.schema key identity
  /-- Another form of the key stands for the same identity, or for none as well. -/
  alike : ∀ other, table.schema.given? other = table.schema.given? key →
    (table.schema.GivesUnset other ↔ table.schema.GivesUnset key) →
    ∀ identity, table.schema.normalize other = .ok identity ↔
      table.schema.normalize key = .ok identity
  /-- The key is sent whole, to read one record, to read many and to delete many. -/
  fetched : ¬ table.schema.GivesUnset key →
    ∀ {Client : Type} (respond : Client → Request → Answer × Client) (client : Client)
      (consistent : Value), ∀ call ∈ dialogue respond (table.fetch key consistent) client,
      table.ReadsByKey consistent call.1
  read : ¬ table.schema.GivesUnset key → ∀ entry,
    Batch.keyEntry table.schema.normalize key = .ok entry →
    ∃ item, entry = Attribute.wireItem item ∧ table.IsKey item
  deleted : ¬ table.schema.GivesUnset key → ∀ entry,
    Batch.deleteEntry table.schema.normalize key = .ok entry →
    ∃ item, entry = .ofNames [("DeleteRequest", .ofNames [("Key", Attribute.wireItem item)])] ∧
      table.IsKey item

/-- A key is refused as invalid, or stands for a whole identity, which is the same in every form of
the key. That of a pair or a bare value that gives an unset value is the exception. -/
theorem normalize_complete (table : Table) (key : Value) :
    Normal table key ∧
    ∀ {Client : Type} (respond : Client → Request → Answer × Client) (client : Client)
      (partition sort consistent : Value),
      ∀ call ∈ dialogue respond (table.get partition sort consistent) client,
        table.ReadsByKey consistent call.1 := by
  refine ⟨⟨fun failure refused => ?_, fun identity => KeySchema.normalize_eq_ok_iff,
    fun identity => KeySchema.identity_of_normalize, fun other => KeySchema.normalize_congr,
    fun set => ?_, fun set entry => isKey_of_keyEntry set, fun set entry made => ?_⟩,
    readsByKey_get⟩
  · obtain ⟨fault, rfl⟩ := KeySchema.exists_fault_of_normalize refused
    rfl
  · exact fun respond client consistent => readsByKey_fetch respond client consistent set
  · obtain ⟨held, made, same⟩ := bind_eq_ok_iff.mp made
    obtain ⟨item, rfl, whole⟩ := isKey_of_keyEntry set made
    exact ⟨item, (Except.ok.inj same).symm, whole⟩

/-- A table whose records have a sort attribute. -/
def parcels : Table where
  name := "parcels"
  schema := ⟨"city", some "street", by decide, by decide, by decide⟩
  classify _ _ := .unclassified

def largeParcel : Record :=
  [(.text "size", .int 3), (.text "street", .text "Main"), (.text "city", .text "Ulm")]

theorem normalize_complete_parcels :
    ¬ parcels.schema.GivesUnset (.tuple [.text "Ulm", .text "Main"]) ∧
      parcels.schema.normalize (.map largeParcel) =
        .ok [(.text "city", .text "Ulm"), (.text "street", .text "Main")] ∧
      ∃ item, Batch.keyEntry parcels.schema.normalize (.tuple [.text "Ulm", .text "Main"]) =
        .ok (Attribute.wireItem item) ∧ parcels.IsKey item := by
  have set : ¬ parcels.schema.GivesUnset (.tuple [.text "Ulm", .text "Main"]) := by
    rw [KeySchema.givesUnset_iff rfl]
    simp [Value.isUnset]
  have normal := (normalize_complete parcels (.tuple [.text "Ulm", .text "Main"])).1
  refine ⟨set, (normal.alike (.map largeParcel) rfl (iff_of_false ?_ set) _).mpr rfl, ?_⟩
  · simp [KeySchema.GivesUnset, Value.entries?]
  · obtain ⟨item, same, whole⟩ := normal.read set _ rfl
    exact ⟨item, by rw [← same]; rfl, whole⟩

/-- A pair with an unset value stands for an identity that does not stand for itself, and the
attribute is missing from the key that is sent. -/
theorem unset_part_not_sent :
    parcels.schema.normalize (.tuple [.unset, .text "Main"]) =
        .ok [(.text "city", .unset), (.text "street", .text "Main")] ∧
      parcels.schema.normalize (.map [(.text "city", .unset), (.text "street", .text "Main")]) =
        .error (.key (.missing "city")) ∧
      Batch.keyEntry parcels.schema.normalize (.tuple [.unset, .text "Main"]) =
        .ok (Attribute.wireItem [("street", .text "Main")]) ∧
      ¬ parcels.IsKey [("street", .text "Main")] :=
  ⟨rfl, rfl, rfl, by unfold IsKey; decide⟩

end RecordMerge.Table

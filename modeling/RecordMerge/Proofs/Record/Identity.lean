import RecordMerge.Proofs.KeySchema
import RecordMerge.Proofs.Record.Stored

/-! Identities as they are sent: the key of a record, and the same values in every item that is
stored under it. -/

set_option autoImplicit false

namespace RecordMerge.KeySchema

theorem nodup_names (schema : KeySchema) : schema.names.Nodup := by
  obtain ⟨partition, sort, _, _, distinct⟩ := schema
  cases sort with
  | none => exact List.nodup_singleton partition
  | some name =>
    have differs : partition ≠ name := fun same => distinct (same ▸ rfl)
    simp [names, differs]

theorem identities_congr {left right : Record} {names : List String}
    (same : ∀ name ∈ names, left.get? name = right.get? name) :
    identities left names = identities right names := by
  induction names with
  | nil => rfl
  | cons name rest tail =>
    obtain ⟨first, others⟩ := List.forall_mem_cons.mp same
    rw [identities, identities, identityOf, identityOf, first, tail others]

theorem isUnset_of_identityOf {record : Record} {name : String} {value : Value}
    (found : identityOf record name = .ok value) : value.isUnset = false := by
  unfold identityOf at found
  split at found
  · cases found
  · cases found
  · cases found
  · next other none null unset held =>
    cases found
    cases value with
    | unset => exact absurd rfl unset
    | _ => rfl

namespace Lists

variable {record identity : Record} {names : List String}

theorem exists_identityOf (listed : Lists record names identity) {name : String}
    (member : name ∈ names) : ∃ value, identityOf record name = .ok value := by
  induction listed with
  | nil => cases member
  | cons first others tail =>
    rcases List.mem_cons.mp member with rfl | later
    · exact ⟨_, first⟩
    · exact tail later

theorem get?_eq (listed : Lists record names identity) {name : String} (member : name ∈ names) :
    identity.get? name = record.get? name := by
  induction listed with
  | nil => cases member
  | @cons first value rest others found remaining tail =>
    by_cases same : first = name
    · subst same
      rw [Record.get?, if_pos rfl, get?_of_identityOf found]
    · rw [Record.get?, if_neg same]
      refine tail ?_
      simpa [Ne.symm same] using member

theorem mem_of_contains (listed : Lists record names identity) {name : String}
    (held : identity.contains name = true) : name ∈ names := by
  obtain ⟨value, found⟩ := Record.contains_iff.mp held
  obtain ⟨other, member, key, -⟩ := listed.of_mem (Record.mem_of_get? found)
  cases key
  exact member

theorem named (listed : Lists record names identity) (distinct : names.Nodup) :
    identity.named = true := by
  induction listed with
  | nil => rfl
  | cons first others tail =>
    obtain ⟨fresh, apart⟩ := List.nodup_cons.mp distinct
    refine (Record.named_cons_iff _).mpr ⟨?_, tail apart⟩
    rw [← Bool.not_eq_true]
    intro held
    exact fresh (others.mem_of_contains held)

theorem keys_store (listed : Lists record names identity) {entries : Item}
    (stored : Record.storeEntries identity = .ok entries) : entries.map Prod.fst = names := by
  induction listed generalizing entries with
  | nil =>
    cases stored
    rfl
  | cons found others tail =>
    obtain ⟨first, following, -, later, rfl⟩ :=
      Record.storeEntries_cons_eq_ok (isUnset_of_identityOf found) stored
    rw [List.map_cons, tail later]

end Lists

/-- A record with an identity has the value of each key attribute. -/
theorem exists_get?_of_keyOf {schema : KeySchema} {record identity : Record}
    (keyed : schema.keyOf record = .ok identity) {name : String} (key : name ∈ schema.names) :
    ∃ value, record.get? name = some value ∧ identity.get? name = some value := by
  have listed := identities_eq_ok_iff.mp keyed
  obtain ⟨value, found⟩ := listed.exists_identityOf key
  have held := get?_of_identityOf found
  exact ⟨value, held, (listed.get?_eq key).trans held⟩

theorem keyOf_identity {schema : KeySchema} {record identity : Record}
    (keyed : schema.keyOf record = .ok identity) : schema.keyOf identity = .ok identity := by
  have listed := identities_eq_ok_iff.mp keyed
  rw [← keyed]
  exact identities_congr fun name => listed.get?_eq

/-- The key lists all key attributes, and the item has each of them with the value in the key. -/
def Identifies (schema : KeySchema) (key item : Item) : Prop :=
  key.map Prod.fst = schema.names ∧ ∀ entry ∈ key, Entries.get? item entry.1 = some entry.2

/-- A record with the identity values of another one is stored under the key of that. -/
theorem identifies_store {schema : KeySchema} {record other identity : Record} {key item : Item}
    (keyed : schema.keyOf record = .ok identity) (sent : identity.store = .ok key)
    (names : other.named = true) (stored : other.store = .ok item)
    (same : ∀ name ∈ schema.names, other.get? name = record.get? name) :
    schema.Identifies key item := by
  have listed := identities_eq_ok_iff.mp keyed
  have identityNames := listed.named schema.nodup_names
  -- Both items store the same values under the key attributes, and storing is a function.
  obtain ⟨entries, kept, built⟩ := bind_eq_ok_iff.mp sent
  have distinct := Record.nodup_storeEntries identityNames kept
  obtain rfl : entries = key := by
    rw [← Entries.ofPairs_of_nodup distinct]
    exact Except.ok.inj built
  have keys := listed.keys_store kept
  refine ⟨keys, fun entry member => ?_⟩
  have isKey : entry.1 ∈ schema.names := keys ▸ List.mem_map.mpr ⟨entry, member, rfl⟩
  obtain ⟨value, found⟩ := listed.exists_identityOf isKey
  have held := get?_of_identityOf found
  have given := isUnset_of_identityOf found
  obtain ⟨first, one, inKey⟩ := Record.get?_store identityNames sent
    ((listed.get?_eq isKey).trans held) given
  obtain ⟨second, two, inItem⟩ := Record.get?_store names stored ((same _ isKey).trans held) given
  obtain rfl := Except.ok.inj (one.symm.trans two)
  rw [inItem, ← inKey, Entries.get?_of_mem distinct member]

end RecordMerge.KeySchema

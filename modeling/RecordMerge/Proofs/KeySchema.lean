import RecordMerge.KeySchema
import RecordMerge.Proofs.Outcome

/-! The identity of a record: one value under each key attribute, in the order of the schema. -/

set_option autoImplicit false

namespace RecordMerge.KeySchema

/-- The identity lists the named attributes with their identity values. -/
inductive Lists (record : Record) : List String → Record → Prop where
  | nil : Lists record [] []
  | cons {name : String} {value : Value} {names : List String} {identity : Record} :
      identityOf record name = .ok value → Lists record names identity →
      Lists record (name :: names) ((.text name, value) :: identity)

theorem identities_eq_ok_iff {record identity : Record} {names : List String} :
    identities record names = .ok identity ↔ Lists record names identity := by
  constructor
  · intro done
    induction names generalizing identity with
    | nil =>
      cases done
      exact .nil
    | cons name rest tail =>
      obtain ⟨value, first, later⟩ := bind_eq_ok_iff.mp done
      obtain ⟨others, following, built⟩ := bind_eq_ok_iff.mp later
      cases built
      exact .cons first (tail following)
  · intro listed
    induction listed with
    | nil => rfl
    | cons first others tail =>
      rw [identities, first, tail]
      rfl

theorem exists_lists {record : Record} {names : List String}
    (each : ∀ name ∈ names, ∃ value, identityOf record name = .ok value) :
    ∃ identity, Lists record names identity := by
  induction names with
  | nil => exact ⟨[], .nil⟩
  | cons name rest tail =>
    obtain ⟨⟨value, first⟩, others⟩ := List.forall_mem_cons.mp each
    obtain ⟨identity, following⟩ := tail others
    exact ⟨_, .cons first following⟩

theorem Lists.of_mem {record identity : Record} {names : List String}
    (listed : Lists record names identity) {entry : Value × Value} (member : entry ∈ identity) :
    ∃ name ∈ names, entry.1 = .text name ∧ identityOf record name = .ok entry.2 := by
  induction listed with
  | nil => cases member
  | cons first others tail =>
    rcases List.mem_cons.mp member with rfl | later
    · exact ⟨_, List.mem_cons_self, rfl, first⟩
    · obtain ⟨name, within, found⟩ := tail later
      exact ⟨name, List.mem_cons_of_mem _ within, found⟩

theorem get?_of_identityOf {record : Record} {name : String} {value : Value}
    (found : identityOf record name = .ok value) : record.get? name = some value := by
  unfold identityOf at found
  split at found
  · cases found
  · cases found
  · cases found
  · next held =>
    cases found
    exact held

/-- The schema of a table without a sort attribute. -/
def single (name : String) (given : name ≠ "") : KeySchema :=
  ⟨name, none, given, nofun, nofun⟩

def order : KeySchema :=
  single "id" (by decide)

end RecordMerge.KeySchema

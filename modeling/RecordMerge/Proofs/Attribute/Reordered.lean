import RecordMerge.Proofs.Attribute.Stored
import RecordMerge.Proofs.Record.Reordering

/-! Storing does not depend on the order of entries: values that are the same up to that order have
stored forms that are. -/

set_option autoImplicit false

namespace RecordMerge

/-- Two stored values are the same up to the order of entries of the maps they nest. -/
inductive Attribute.Reordered : Attribute → Attribute → Prop where
  | held (stored : Attribute) : Reordered stored stored
  | map {left right : Item} : (left.map Prod.fst).Perm (right.map Prod.fst) →
      (∀ name first second, Entries.get? left name = some first →
        Entries.get? right name = some second → Reordered first second) →
      Reordered (.map left) (.map right)

namespace Record

/-- A stored record has under each name the stored form of what the record has set there. -/
theorem get?_storeEntries_iff {record : Record} {item : Item} (names : record.named = true)
    (done : record.storeEntries = .ok item) {name : String} {sent : Attribute} :
    Entries.get? item name = some sent ↔
      ∃ value, record.get? name = some value ∧ value.isUnset = false ∧ value.store = .ok sent := by
  constructor
  · intro found
    have each : ∀ sent ∈ item, ∃ value, record.get? sent.1 = some value ∧
        value.isUnset = false ∧ value.store = .ok sent.2 := by
      refine forall_right_of_each ((storeEntries_eq_ok_iff names).mp done) ?_
      rintro entry member sent ⟨text, stored⟩
      obtain ⟨within, given⟩ := List.mem_filter.mp member
      obtain ⟨other, same, held⟩ := get?_of_mem names within
      cases text.symm.trans same
      exact ⟨entry.2, held, by simpa using given, stored⟩
    exact each _ (Entries.mem_of_get? found)
  · rintro ⟨value, held, given, stored⟩
    obtain ⟨other, same, found⟩ := get?_storeEntries names done held given
    cases stored.symm.trans same
    exact found

variable {left right : Record} {item other : Item}

theorem Reordered.mem_keys_storeEntries (reordered : Reordered Eq left right)
    (leftNames : left.named = true) (rightNames : right.named = true)
    (leftStored : left.storeEntries = .ok item) (rightStored : right.storeEntries = .ok other)
    {name : String} (member : name ∈ item.map Prod.fst) : name ∈ other.map Prod.fst := by
  rw [← Entries.get?_isSome_iff, Option.isSome_iff_exists] at member ⊢
  obtain ⟨sent, present⟩ := member
  obtain ⟨value, found, given, -⟩ := (get?_storeEntries_iff leftNames leftStored).mp present
  obtain ⟨second, held, same⟩ := reordered.exists_get? rightNames found
  rw [same.isUnset_eq] at given
  obtain ⟨again, -, there⟩ := get?_storeEntries rightNames rightStored held given
  exact ⟨again, there⟩

/-- Reordered records are stored with the same names. -/
theorem Reordered.perm_keys_storeEntries (reordered : Reordered Eq left right)
    (leftNames : left.named = true) (rightNames : right.named = true)
    (leftStored : left.storeEntries = .ok item) (rightStored : right.storeEntries = .ok other) :
    (item.map Prod.fst).Perm (other.map Prod.fst) := by
  rw [List.perm_ext_iff_of_nodup (nodup_storeEntries leftNames leftStored)
    (nodup_storeEntries rightNames rightStored)]
  exact fun name =>
    ⟨reordered.mem_keys_storeEntries leftNames rightNames leftStored rightStored,
      reordered.symm.mem_keys_storeEntries rightNames leftNames rightStored leftStored⟩

end Record

/-- A value is stored as any value is that differs from it in the order of entries only. -/
theorem Value.Reordered.exists_store {left right : Value} {stored : Attribute}
    (reordered : Value.Reordered Eq left right) (leftTree : left.isTree = true)
    (rightTree : right.isTree = true) (done : left.store = .ok stored) :
    ∃ other, right.store = .ok other ∧ stored.Reordered other := by
  induction reordered generalizing stored with
  | held equal =>
    subst equal
    exact ⟨stored, done, .held stored⟩
  | @map left right keys items tail =>
    obtain ⟨leftNames, leftBelow⟩ := isTree_map_iff.mp leftTree
    obtain ⟨rightNames, rightBelow⟩ := isTree_map_iff.mp rightTree
    obtain ⟨item, storing, rfl⟩ := (store_map_eq_ok_iff leftNames).mp done
    have reordered : Record.Reordered Eq left right := ⟨keys, items⟩
    have storable : right.Storable := by
      intro name second held given
      obtain ⟨first, found, same⟩ := reordered.symm.exists_get? leftNames held
      obtain ⟨sent, stored, -⟩ :=
        Record.get?_storeEntries leftNames storing found (same.isUnset_eq ▸ given)
      obtain ⟨other, storedOther, -⟩ := tail name first second found held
        (leftBelow name first found) (rightBelow name second held) stored
      exact ⟨other, storedOther⟩
    obtain ⟨other, storingOther⟩ := (Record.exists_storeEntries_iff rightNames).mpr storable
    refine ⟨.map other, (store_map_eq_ok_iff rightNames).mpr ⟨other, storingOther, rfl⟩,
      .map (reordered.perm_keys_storeEntries leftNames rightNames storing storingOther) ?_⟩
    intro name sent again present there
    obtain ⟨first, found, -, stored⟩ := (Record.get?_storeEntries_iff leftNames storing).mp present
    obtain ⟨second, held, -, storedSecond⟩ :=
      (Record.get?_storeEntries_iff rightNames storingOther).mp there
    obtain ⟨made, storedMade, same⟩ := tail name first second found held
      (leftBelow name first found) (rightBelow name second held) stored
    cases storedMade.symm.trans storedSecond
    exact same

/-- Records that differ in the order of entries only are stored alike. -/
theorem Record.Reordered.exists_store {left right : Record} {item : Item}
    (reordered : Record.Reordered Eq left right) (leftTree : left.isTree = true)
    (rightTree : right.isTree = true) (done : left.store = .ok item) :
    ∃ other, right.store = .ok other ∧ (Attribute.map item).Reordered (.map other) := by
  have leftNames := (Value.isTree_map_iff.mp leftTree).1
  have rightNames := (Value.isTree_map_iff.mp rightTree).1
  have storing := (store_eq_ok_iff leftNames).mp done
  have whole : Value.Reordered Eq (.map left) (.map right) := .map reordered.1 reordered.2
  obtain ⟨stored, made, same⟩ := whole.exists_store leftTree rightTree
    ((Value.store_map_eq_ok_iff leftNames).mpr ⟨item, storing, rfl⟩)
  obtain ⟨other, storingOther, rfl⟩ := (Value.store_map_eq_ok_iff rightNames).mp made
  exact ⟨other, (store_eq_ok_iff rightNames).mpr storingOther, same⟩

end RecordMerge

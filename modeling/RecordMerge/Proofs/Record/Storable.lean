import RecordMerge.Proofs.Record.Position
import RecordMerge.Proofs.Record.Stored

/-! Which records can be stored. A record can be stored if each of its values can, whichever way they
came into it, and its stored form has at each position the stored form of what the record has there. -/

set_option autoImplicit false

namespace RecordMerge

/-- The stored value at a path of names. -/
def Attribute.at? : List String → Attribute → Option Attribute
  | [], stored => some stored
  | name :: rest, .map entries => (Entries.get? entries name).bind (at? rest)
  | _ :: _, _ => none

/-- Whether there is a stored form of the value. -/
def Value.Storable (value : Value) : Prop :=
  ∃ stored, value.store = .ok stored

/-- Unset values are left out, and all other ones can be stored. -/
def Record.Storable (record : Record) : Prop :=
  ∀ name value, record.get? name = some value → value.isUnset = false → value.Storable

namespace Value

-- A map is first brought into plain form as a whole and then written, the entries of a record one
-- after another. That makes a difference only for the fault that is found.
theorem storeEntries_eq_ok_iff {entries : Record} {item : Item} :
    entries.storeEntries = .ok item ↔
      ∃ pairs, plainEntries entries = .ok pairs ∧
        encodeEntries (pairs.map fun pair => (.text pair.1, pair.2)) = .ok item := by
  induction entries generalizing item with
  | nil => simp [Record.storeEntries, plainEntries, encodeEntries]
  | cons entry rest tail =>
    obtain ⟨key, value⟩ := entry
    rw [Record.storeEntries, plainEntries]
    split
    · exact tail
    · cases key.toText? with
      | none => simp
      | some name =>
        simp only [bind_eq_ok_iff, store, tail]
        constructor
        · rintro ⟨first, ⟨plainFirst, plained, encoded⟩, others, ⟨pairs, plainRest, following⟩, built⟩
          cases built
          refine ⟨_, ⟨plainFirst, plained, pairs, plainRest, rfl⟩, ?_⟩
          simp [encodeEntries, bind_eq_ok_iff, encoded, following]
        · rintro ⟨all, ⟨plainFirst, plained, pairs, plainRest, built⟩, encoded⟩
          cases built
          simp only [List.map_cons, encodeEntries, bind_eq_ok_iff, toText_text] at encoded
          obtain ⟨first, written, others, following, built⟩ := encoded
          exact ⟨first, ⟨plainFirst, plained, written⟩, others, ⟨pairs, plainRest, following⟩, built⟩

theorem keys_plainEntries {entries : Record} {pairs : List (String × Value)}
    (names : entries.named = true) (done : plainEntries entries = .ok pairs) :
    pairs.map (fun pair => Value.text pair.1) =
      (entries.filter fun entry => !entry.2.isUnset).map Prod.fst := by
  fun_induction Record.named entries generalizing pairs with
  | case1 =>
    cases done
    rfl
  | case2 key value rest tail =>
    obtain ⟨-, others⟩ := (Record.named_cons_iff value).mp names
    rw [plainEntries] at done
    split at done
    · next unset => simp [unset, tail others done]
    · next given =>
      simp only [toText?_text, bind_eq_ok_iff] at done
      obtain ⟨first, -, remaining, following, built⟩ := done
      cases built
      simp [given, tail others following]
  | case3 => cases names

theorem nodup_plainEntries {entries : Record} {pairs : List (String × Value)}
    (names : entries.named = true) (done : plainEntries entries = .ok pairs) :
    (pairs.map Prod.fst).Nodup := by
  have kept : ((entries.filter fun entry => !entry.2.isUnset).map Prod.fst).Nodup :=
    (Record.nodup_of_named names).sublist (List.filter_sublist.map _)
  rw [← keys_plainEntries names done] at kept
  apply List.Nodup.of_map Value.text
  rw [List.map_map]
  exact kept

/-- The stored form of a map has the stored forms of its entries. -/
theorem store_map_eq_ok_iff {entries : Record} {stored : Attribute} (names : entries.named = true) :
    (Value.map entries).store = .ok stored ↔
      ∃ item, entries.storeEntries = .ok item ∧ stored = .map item := by
  simp only [store, plain, bind_eq_ok_iff, storeEntries_eq_ok_iff]
  constructor
  · rintro ⟨whole, ⟨pairs, plained, built⟩, encoded⟩
    cases built
    rw [Entries.ofPairs_of_nodup (nodup_plainEntries names plained)] at encoded
    obtain ⟨item, written, built⟩ := bind_eq_ok_iff.mp encoded
    cases built
    exact ⟨item, ⟨pairs, plained, written⟩, rfl⟩
  · rintro ⟨item, ⟨pairs, plained, written⟩, rfl⟩
    refine ⟨_, ⟨pairs, plained, rfl⟩, ?_⟩
    rw [Entries.ofPairs_of_nodup (nodup_plainEntries names plained)]
    exact bind_eq_ok_iff.mpr ⟨item, written, rfl⟩

end Value

namespace Record

variable {record : Record}

theorem store_eq_ok_iff {item : Item} (names : record.named = true) :
    record.store = .ok item ↔ record.storeEntries = .ok item := by
  constructor
  · intro done
    obtain ⟨entries, stored, built⟩ := bind_eq_ok_iff.mp done
    cases built
    rw [Entries.ofPairs_of_nodup (nodup_storeEntries names stored)]
    exact stored
  · intro stored
    refine bind_eq_ok_iff.mpr ⟨item, stored, ?_⟩
    rw [Entries.ofPairs_of_nodup (nodup_storeEntries names stored)]

theorem exists_storeEntries_iff (names : record.named = true) :
    (∃ item, record.storeEntries = .ok item) ↔ record.Storable := by
  constructor
  · rintro ⟨item, done⟩ name value found given
    obtain ⟨sent, stored, -⟩ := get?_storeEntries names done found given
    exact ⟨sent, stored⟩
  · intro storable
    fun_induction named record with
    | case1 => exact ⟨[], rfl⟩
    | case2 key value rest tail =>
      obtain ⟨fresh, others⟩ := (named_cons_iff value).mp names
      have below : Storable rest := by
        intro name held found
        apply storable name held
        rw [get?, if_neg (ne_of_get? fresh found)]
        exact found
      obtain ⟨item, following⟩ := tail others below
      cases unset : value.isUnset with
      | true => exact ⟨item, by rw [storeEntries_cons_unset unset, following]⟩
      | false =>
        obtain ⟨first, stored⟩ := storable key value (by simp [get?]) unset
        refine ⟨(key, first) :: item, ?_⟩
        rw [storeEntries]
        simp [unset, stored, following, bind_eq_ok_iff]
    | case3 => cases names

theorem exists_store_iff (names : record.named = true) :
    (∃ item, record.store = .ok item) ↔ record.Storable := by
  simp only [store_eq_ok_iff names, exists_storeEntries_iff names]

theorem storable_map_iff {entries : Record} (names : entries.named = true) :
    (Value.map entries).Storable ↔ entries.Storable := by
  rw [← exists_storeEntries_iff names]
  simp only [Value.Storable, Value.store_map_eq_ok_iff names]
  constructor
  · rintro ⟨stored, item, done, -⟩
    exact ⟨item, done⟩
  · rintro ⟨item, done⟩
    exact ⟨_, item, done, rfl⟩

theorem Storable.set {name : String} {value : Value} (storable : record.Storable)
    (written : value.Storable) : Storable (record.set name value) := by
  intro other held found given
  rw [get?_set] at found
  split at found
  · cases found
    exact written
  · exact storable other held found given

theorem Storable.branch (storable : record.Storable) (tree : record.isTree = true)
    (name : String) : Storable (record.branch name) := by
  unfold Record.branch
  split
  · next entries found =>
    have below : (Value.map entries).isTree = true := (Value.isTree_map_iff.mp tree).2 name _ found
    exact (storable_map_iff (Value.isTree_map_iff.mp below).1).mp (storable name _ found rfl)
  · intro other held found
    cases found

-- A write makes new maps on its way. Each of them has what was there before and one entry more, so
-- that the induction needs no more than the two ways in which a value comes into a map.
theorem Storable.write {value : Value} {keep : Bool} {path : List String}
    (storable : record.Storable) (tree : record.isTree = true) (written : value.Storable)
    (writtenTree : value.isTree = true) : Storable (record.write value keep path) := by
  fun_induction Record.write value keep path record with
  | case1 => exact storable
  | case2 => exact storable
  | case3 => exact storable.set written
  | case4 name rest record longer tail =>
    have below := isTree_branch tree name
    apply storable.set
    apply (storable_map_iff (Value.isTree_map_iff.mp (isTree_write below writtenTree)).1).mpr
    exact tail (storable.branch tree name) below

end Record

/-- The stored form of a tree has at each position the stored form of the value that is there. -/
theorem Value.at?_store {path : List String} {value held : Value} {stored : Attribute}
    (tree : value.isTree = true) (done : value.store = .ok stored)
    (found : value.at? path = some held) (given : held.isUnset = false) :
    ∃ sent, held.store = .ok sent ∧ stored.at? path = some sent := by
  induction path generalizing value stored with
  | nil =>
    rw [at?_nil] at found
    cases found
    exact ⟨stored, done, by simp [Attribute.at?]⟩
  | cons name rest tail =>
    cases value with
    | map entries =>
      obtain ⟨names, below⟩ := isTree_map_iff.mp tree
      obtain ⟨item, storing, rfl⟩ := (store_map_eq_ok_iff names).mp done
      obtain ⟨step, reached, further⟩ := Option.bind_eq_some_iff.mp found
      have set : step.isUnset = false := by
        cases rest with
        | nil =>
          rw [at?_nil] at further
          cases further
          exact given
        | cons => cases step <;> first | rfl | cases further
      obtain ⟨sent, stored, present⟩ := Record.get?_storeEntries names storing reached set
      obtain ⟨last, storedLast, there⟩ := tail (below name step reached) stored further
      exact ⟨last, storedLast, by simp [Attribute.at?, present, there]⟩
    | _ => cases found

theorem Record.at?_store {record : Record} {item : Item} {path : List String} {held : Value}
    (tree : record.isTree = true) (done : record.store = .ok item)
    (found : record.at? path = some held) (given : held.isUnset = false) :
    ∃ sent, held.store = .ok sent ∧ (Attribute.map item).at? path = some sent := by
  have names := (Value.isTree_map_iff.mp tree).1
  have whole : (Value.map record).store = .ok (.map item) :=
    (Value.store_map_eq_ok_iff names).mpr ⟨item, (store_eq_ok_iff names).mp done, rfl⟩
  exact Value.at?_store tree whole found given

end RecordMerge

import RecordMerge.Proofs.Attribute.Wire
import RecordMerge.Proofs.Record.Storable

/-! The stored forms of rows and sets, and of the values that stored values stand for. -/

set_option autoImplicit false

namespace RecordMerge

open Attribute (Kept)
open Number (Bounds Decimal Quantity)

namespace Value

theorem plainAll_eq_ok_iff {elements plained : List Value} :
    plainAll true elements = .ok plained ↔
      List.Forall₂ (fun value made => plain value = .ok made)
        (elements.filter fun value => !value.isUnset) plained := by
  induction elements generalizing plained with
  | nil => cases plained <;> simp [plainAll]
  | cons value rest tail =>
    cases unset : value.isUnset with
    | true => simp [plainAll, unset, tail]
    | false =>
      simp only [plainAll, unset, Bool.and_false, Bool.false_eq_true, if_false, bind_eq_ok_iff,
        tail, List.filter_cons, Bool.not_false, if_true, List.forall₂_cons_left_iff, Except.ok.injEq]
      exact ⟨fun ⟨first, here, others, later, built⟩ => ⟨first, others, here, later, built.symm⟩,
        fun ⟨first, others, here, later, built⟩ => ⟨first, here, others, later, built.symm⟩⟩

theorem encodeAll_eq_ok_iff {plained : List Value} {stored : List Attribute} :
    encodeAll plained = .ok stored ↔
      List.Forall₂ (fun value made => encode value = .ok made) plained stored :=
  row_eq_ok_iff rfl fun _ _ => rfl

/-- A row is stored element by element, without the unset ones. -/
theorem store_list_eq_ok_iff {elements : List Value} {stored : Attribute} :
    (Value.list elements).store = .ok stored ↔
      ∃ made, List.Forall₂ (fun value made => value.store = .ok made)
        (elements.filter fun value => !value.isUnset) made ∧ stored = .list made := by
  have both (made : List Attribute) :
      (∃ plained, plainAll true elements = .ok plained ∧ encodeAll plained = .ok made) ↔
        List.Forall₂ (fun value made => value.store = .ok made)
          (elements.filter fun value => !value.isUnset) made := by
    simp only [plainAll_eq_ok_iff, encodeAll_eq_ok_iff, store, bind_eq_ok_iff]
    exact exists_forall₂_iff
  simp only [← both]
  simp only [store, plain, bind_eq_ok_iff]
  constructor
  · rintro ⟨whole, ⟨plained, plaining, built⟩, encoded⟩
    cases built
    obtain ⟨made, encoding, built⟩ := bind_eq_ok_iff.mp encoded
    exact ⟨made, ⟨plained, plaining, encoding⟩, (Except.ok.inj built).symm⟩
  · rintro ⟨made, ⟨plained, plaining, encoding⟩, rfl⟩
    exact ⟨_, ⟨plained, plaining, rfl⟩, bind_eq_ok_iff.mpr ⟨made, encoding, rfl⟩⟩

theorem store_tuple (elements : List Value) :
    (Value.tuple elements).store = (Value.list elements).store := by
  simp only [store, plain]

theorem plainMembers_eq_ok_iff {elements members : List Value} :
    plainMembers elements = .ok members ↔
      List.Forall₂ (fun value member => plain value = .ok member ∧ member.canBeKey = true)
        elements members :=
  members_eq_ok_iff rfl fun _ _ => rfl

/-- A set is stored with the first of each of its elements that are equal in plain form. -/
theorem store_set_eq_ok_iff {frozen : Bool} {elements : List Value} {stored : Attribute} :
    (Value.set frozen elements).store = .ok stored ↔
      elements ≠ [] ∧ ∃ members, List.Forall₂
        (fun value member => plain value = .ok member ∧ member.canBeKey = true) elements members ∧
          storeSet false (distinct members) = .ok stored := by
  cases elements with
  | nil => simp [store, plain, bind_eq_ok_iff]
  | cons first rest =>
    simp only [store, plain, bind_eq_ok_iff, ← plainMembers_eq_ok_iff, setOf_eq]
    constructor
    · rintro ⟨whole, ⟨members, plained, built⟩, encoded⟩
      cases built
      exact ⟨List.cons_ne_nil _ _, members, plained, encoded⟩
    · rintro ⟨-, members, plained, encoded⟩
      exact ⟨_, ⟨members, plained, rfl⟩, encoded⟩

theorem readAll_map {Element Item : Type} {read : Value → Option Item} {value : Element → Value}
    {item : Element → Item} (elements : List Element)
    (reads : ∀ element ∈ elements, read (value element) = some (item element)) :
    readAll read (elements.map value) = some (elements.map item) := by
  induction elements with
  | nil => rfl
  | cons first rest tail =>
    obtain ⟨here, others⟩ := List.forall_mem_cons.mp reads
    simp [readAll, here, tail others]

theorem readAll_eq_none {Item : Type} {read : Value → Option Item} {elements : List Value}
    (nonempty : elements ≠ []) (refused : ∀ element ∈ elements, read element = none) :
    readAll read elements = none := by
  cases elements with
  | nil => exact absurd rfl nonempty
  | cons first rest => simp [readAll, refused first List.mem_cons_self]

/-- A finite number is stored as it is, or not at all. -/
theorem storeNumber_iff {amount stored : Decimal}
    (finite : ∃ negative coefficient exponent, amount = .finite negative coefficient exponent) :
    storeNumber amount = .ok stored ↔ Kept amount ∧ stored = amount := by
  obtain ⟨negative, coefficient, exponent, rfl⟩ := id finite
  rw [Kept, and_iff_right finite, storeNumber]
  cases fits : Bounds.storage.fit (.finite negative coefficient exponent) with
  | error signal => simp
  | ok kept =>
    cases Bounds.fit_finite fits
    simp [eq_comm]

theorem mapM_storeNumber_eq_ok_iff {amounts stored : List Decimal} :
    amounts.mapM storeNumber = .ok stored ↔
      List.Forall₂ (fun amount made => storeNumber amount = .ok made) amounts stored :=
  row_eq_ok_iff rfl fun _ _ => List.mapM_cons

theorem mapM_storeNumber_iff {amounts stored : List Decimal}
    (finite : ∀ amount ∈ amounts,
      ∃ negative coefficient exponent, amount = .finite negative coefficient exponent) :
    amounts.mapM storeNumber = .ok stored ↔
      (∀ amount ∈ amounts, Kept amount) ∧ stored = amounts := by
  have alone : List.Forall₂ (· = ·) amounts amounts := List.forall₂_same.mpr fun _ _ => rfl
  have each : List.Forall₂ (fun amount made => storeNumber amount = .ok made) amounts stored ↔
      (∀ amount ∈ amounts, Kept amount) ∧ stored = amounts.map id := by
    refine forall₂_iff_of_each alone fun amount member first made same => ?_
    rw [same]
    exact storeNumber_iff (finite amount member)
  rw [mapM_storeNumber_eq_ok_iff, each, List.map_id]

theorem storeSet_decimals {frozen : Bool} {elements : List Decimal}
    (kept : ∀ amount ∈ elements, Kept amount) :
    storeSet frozen (elements.map .decimal) = .ok (.numbers elements) := by
  have numbers : readAll decimal? (elements.map .decimal) = some (elements.map id) :=
    readAll_map elements fun _ _ => rfl
  have stored := (mapM_storeNumber_iff fun amount member => (kept amount member).1).mpr ⟨kept, rfl⟩
  rw [storeSet, numbers, List.map_id]
  simp [stored, bind_eq_ok_iff]

theorem storeSet_texts {frozen : Bool} {elements : List String} (nonempty : elements ≠ []) :
    storeSet frozen (elements.map .text) = .ok (.texts elements) := by
  have texts : readAll text? (elements.map .text) = some (elements.map id) :=
    readAll_map elements fun _ _ => rfl
  have numbers : readAll decimal? (elements.map .text) = none :=
    readAll_eq_none (by simpa using nonempty) (by simp [decimal?])
  rw [storeSet, numbers, texts, List.map_id]

theorem storeSet_bytes {frozen : Bool} {rows : List (List UInt8)} (nonempty : rows ≠ []) :
    storeSet frozen (rows.map (.bytes .fixed)) = .ok (.binaries (rows.map (false, ·))) := by
  have binaries : readAll bytes? (rows.map (.bytes .fixed)) = some (rows.map (false, ·)) :=
    readAll_map rows fun _ _ => rfl
  have numbers : readAll decimal? (rows.map (.bytes .fixed)) = none :=
    readAll_eq_none (by simpa using nonempty) (by simp [decimal?])
  have texts : readAll text? (rows.map (.bytes .fixed)) = none :=
    readAll_eq_none (by simpa using nonempty) (by simp [text?])
  rw [storeSet, numbers, texts, binaries]

/-- A set of elements that are in plain form already, and different from each other, is stored with
all of them. -/
theorem store_set_of_plain {frozen : Bool} {elements : List Value} {stored : Attribute}
    (nonempty : elements ≠ []) (whole : setOf false elements = .set false elements)
    (each : ∀ element ∈ elements, plain element = .ok element ∧ element.canBeKey = true)
    (done : storeSet false elements = .ok stored) :
    (Value.set frozen elements).store = .ok stored := by
  rw [setOf_eq, Value.set.injEq] at whole
  refine store_set_eq_ok_iff.mpr ⟨nonempty, elements, List.forall₂_same.mpr each, ?_⟩
  rw [whole.2, done]

end Value

/-- A named record is stored entry by entry, without the unset ones. -/
theorem Record.storeEntries_eq_ok_iff {record : Record} {item : Item}
    (names : record.named = true) :
    record.storeEntries = .ok item ↔
      List.Forall₂ (fun entry sent => entry.1 = .text sent.1 ∧ entry.2.store = .ok sent.2)
        (record.filter fun entry => !entry.2.isUnset) item := by
  fun_induction Record.named record generalizing item with
  | case1 => cases item <;> simp [storeEntries]
  | case2 key value rest tail =>
    obtain ⟨-, others⟩ := (named_cons_iff value).mp names
    cases unset : value.isUnset with
    | true => simp [storeEntries, unset, tail others]
    | false =>
      simp only [storeEntries, unset, Bool.false_eq_true, if_false, Value.toText?_text,
        bind_eq_ok_iff, List.filter_cons, Bool.not_false, if_true, List.forall₂_cons_left_iff,
        tail others]
      constructor
      · rintro ⟨first, stored, remaining, following, built⟩
        exact ⟨(key, first), remaining, ⟨rfl, stored⟩, following, (Except.ok.inj built).symm⟩
      · rintro ⟨⟨name, first⟩, remaining, ⟨same, stored⟩, following, rfl⟩
        cases same
        exact ⟨first, stored, remaining, following, rfl⟩
  | case3 => cases names

namespace Attribute

open Value

theorem isUnset_native (stored : Attribute) : stored.native.isUnset = false := by
  cases stored <;> rfl

theorem named_nativeEntries {entries : Item} (distinct : (entries.map Prod.fst).Nodup) :
    Record.named (nativeEntries entries) = true := by
  have keys : (nativeEntries entries).map Prod.fst = (entries.map Prod.fst).map Value.text := by
    rw [nativeEntries_eq_map, List.map_map, List.map_map]
    rfl
  rw [Record.named_iff, keys]
  refine ⟨distinct.map fun _ _ => Value.text.inj, fun key member => ?_⟩
  obtain ⟨name, -, rfl⟩ := List.mem_map.mp member
  exact ⟨name, rfl⟩

/-- What a store can hold is stored again from the value that it stands for. -/
theorem store_native {stored : Attribute} (sound : stored.Sound) :
    stored.native.store = .ok stored := by
  induction sound with
  | null => rfl
  | bool flag => rfl
  | text content => rfl
  | binary content => rfl
  | @number amount kept =>
    have written := (storeNumber_iff kept.1).mpr ⟨kept, rfl⟩
    obtain ⟨⟨negative, coefficient, exponent, rfl⟩, -⟩ := kept
    simp [native, store, plain, encode, written, bind_eq_ok_iff]
  | @numbers elements nonempty kept distinct =>
    refine store_set_of_plain (by simpa using nonempty) (setOf_decimals kept distinct) ?_
      (storeSet_decimals kept)
    rw [List.forall_mem_map]
    intro amount member
    obtain ⟨⟨negative, coefficient, exponent, rfl⟩, -⟩ := kept amount member
    exact ⟨rfl, rfl⟩
  | texts nonempty distinct =>
    refine store_set_of_plain (by simpa using nonempty) (setOf_texts distinct) ?_
      (storeSet_texts nonempty)
    exact List.forall_mem_map.mpr fun _ _ => ⟨rfl, rfl⟩
  | @binaries rows nonempty distinct =>
    have values : (rows.map (false, ·)).map (fun row => Value.bytes .fixed row.2) =
        rows.map (.bytes .fixed) := by
      rw [List.map_map]
      rfl
    rw [native, values]
    refine store_set_of_plain (by simpa using nonempty) (setOf_bytes .fixed distinct) ?_
      (storeSet_bytes nonempty)
    exact List.forall_mem_map.mpr fun _ _ => ⟨rfl, rfl⟩
  | @list elements sound each =>
    have set : (elements.map native).filter (fun value => !value.isUnset) = elements.map native := by
      rw [List.filter_eq_self, List.forall_mem_map]
      exact fun element _ => by rw [isUnset_native, Bool.not_false]
    rw [native, nativeAll_eq_map, store_list_eq_ok_iff, set]
    refine ⟨elements, ?_, rfl⟩
    rw [List.forall₂_map_left_iff, List.forall₂_same]
    exact each
  | @map entries distinct sound each =>
    have names := named_nativeEntries distinct
    have set : (nativeEntries entries).filter (fun entry => !entry.2.isUnset) =
        nativeEntries entries := by
      rw [List.filter_eq_self, nativeEntries_eq_map, List.forall_mem_map]
      exact fun entry _ => by rw [isUnset_native, Bool.not_false]
    rw [native, store_map_eq_ok_iff names]
    refine ⟨entries, ?_, rfl⟩
    rw [Record.storeEntries_eq_ok_iff names, set, nativeEntries_eq_map, List.forall₂_map_left_iff,
      List.forall₂_same]
    exact fun entry member => ⟨rfl, each entry member⟩

end Attribute

end RecordMerge

import RecordMerge.Proofs.Attribute.Native
import RecordMerge.Proofs.Number.Reading
import RecordMerge.Proofs.Value.Distinct

/-! What is received reads as what it stands for, and nothing else. A stored value is sent in one of
the forms that spell it out. -/

set_option autoImplicit false

namespace RecordMerge

open Attribute (Kept Numeral Spells tagged)
open Number (Bounds Decimal Quantity)

namespace Value

theorem loadAttribute_tagged (tag : Attribute.Tag) (content : Value) :
    loadAttribute (tagged tag content) = loadTagged tag content := by
  rw [tagged, loadAttribute, toText?_text]
  simp only [Attribute.Tag.ofName?_name]

theorem loadAll_eq_ok_iff {received loaded : List Value} :
    loadAll received = .ok loaded ↔
      List.Forall₂ (fun value made => loadAttribute value = .ok made) received loaded :=
  row_eq_ok_iff rfl fun _ _ => rfl

theorem unwrappedAll_eq_ok_iff {wrapped loaded : List Value} :
    unwrappedAll wrapped = .ok loaded ↔
      List.Forall₂ (fun value made => unwrapped value = .ok made) wrapped loaded :=
  row_eq_ok_iff rfl fun _ _ => rfl

theorem load_tagged_iff {tag : Attribute.Tag} {content loaded : Value} :
    (tagged tag content).load = .ok loaded ↔
      ∃ read, loadTagged tag content = .ok read ∧ unwrapped read = .ok loaded := by
  rw [load, loadAttribute_tagged, bind_eq_ok_iff]

theorem load_tagged_list_iff {received : List Value} {loaded : Value} :
    (tagged .list (.list received)).load = .ok loaded ↔
      ∃ elements, List.Forall₂ (fun value made => value.load = .ok made) received elements ∧
        loaded = .list elements := by
  have both {elements : List Value} : (∃ wrapped, loadAll received = .ok wrapped ∧
      unwrappedAll wrapped = .ok elements) ↔
        List.Forall₂ (fun value made => value.load = .ok made) received elements := by
    simp only [loadAll_eq_ok_iff, unwrappedAll_eq_ok_iff, load, bind_eq_ok_iff]
    exact exists_forall₂_iff
  simp only [load_tagged_iff, loadTagged, bind_eq_ok_iff, Except.ok.injEq, ← both]
  constructor
  · rintro ⟨read, ⟨wrapped, loading, rfl⟩, freeing⟩
    obtain ⟨elements, freed, built⟩ := bind_eq_ok_iff.mp freeing
    exact ⟨elements, ⟨wrapped, loading, freed⟩, (Except.ok.inj built).symm⟩
  · rintro ⟨elements, ⟨wrapped, loading, freed⟩, rfl⟩
    exact ⟨_, ⟨wrapped, loading, rfl⟩, bind_eq_ok_iff.mpr ⟨elements, freed, rfl⟩⟩

-- A map is read as a whole and then freed of wrappings as a whole, a record entry by entry.
theorem load_entries_iff {received record : Record} :
    (∃ wrapped, loadEntries received = .ok wrapped ∧ unwrappedEntries wrapped = .ok record) ↔
      received.load = .ok record := by
  induction received generalizing record with
  | nil => simp [loadEntries, unwrappedEntries, Record.load]
  | cons entry rest tail =>
    obtain ⟨key, value⟩ := entry
    simp only [loadEntries, Record.load, load, bind_eq_ok_iff, ← tail, Except.ok.injEq]
    constructor
    · rintro ⟨wrapped, ⟨first, read, others, reads, rfl⟩, freeing⟩
      simp only [unwrappedEntries, bind_eq_ok_iff, Except.ok.injEq] at freeing
      obtain ⟨last, freed, remaining, frees, rfl⟩ := freeing
      exact ⟨last, ⟨first, read, freed⟩, remaining, ⟨others, reads, frees⟩, rfl⟩
    · rintro ⟨last, ⟨first, read, freed⟩, remaining, ⟨others, reads, frees⟩, rfl⟩
      refine ⟨_, ⟨first, read, others, reads, rfl⟩, ?_⟩
      simp [unwrappedEntries, bind_eq_ok_iff, freed, frees]

theorem load_tagged_map_iff {received : Record} {loaded : Value} :
    (tagged .map (.map received)).load = .ok loaded ↔
      ∃ record, received.load = .ok record ∧ loaded = .map record := by
  simp only [load_tagged_iff, loadTagged, bind_eq_ok_iff, Except.ok.injEq, ← load_entries_iff]
  constructor
  · rintro ⟨read, ⟨wrapped, loading, rfl⟩, freeing⟩
    obtain ⟨record, freed, built⟩ := bind_eq_ok_iff.mp freeing
    exact ⟨record, ⟨wrapped, loading, freed⟩, (Except.ok.inj built).symm⟩
  · rintro ⟨record, ⟨wrapped, loading, freed⟩, rfl⟩
    exact ⟨_, ⟨wrapped, loading, rfl⟩, bind_eq_ok_iff.mpr ⟨record, freed, rfl⟩⟩

theorem load_eq_ok_iff {received record : Record} :
    received.load = .ok record ↔ record.map Prod.fst = received.map Prod.fst ∧
      List.Forall₂ (fun value made => value.load = .ok made)
        (received.map Prod.snd) (record.map Prod.snd) := by
  induction received generalizing record with
  | nil => cases record <;> simp [Record.load]
  | cons entry rest tail =>
    obtain ⟨key, value⟩ := entry
    simp only [Record.load, bind_eq_ok_iff, tail]
    constructor
    · rintro ⟨first, read, others, ⟨keys, reads⟩, built⟩
      cases built
      exact ⟨by simp [keys], .cons read reads⟩
    · rintro ⟨keys, reads⟩
      cases record with
      | nil => cases keys
      | cons entry others =>
        obtain ⟨name, first⟩ := entry
        obtain ⟨read, following⟩ := List.forall₂_cons.mp reads
        obtain ⟨same, later⟩ := List.cons.inj keys
        cases same
        exact ⟨first, read, others, ⟨later, following⟩, rfl⟩

theorem unwrapped_map_eq_ok {Element : Type} {wrapping meant : Element → Value}
    (elements : List Element)
    (each : ∀ element, unwrapped (wrapping element) = .ok (meant element)) :
    unwrappedAll (elements.map wrapping) = .ok (elements.map meant) := by
  rw [unwrappedAll_eq_ok_iff, List.forall₂_map_left_iff, List.forall₂_map_right_iff,
    List.forall₂_same]
  exact fun element _ => each element

/-- Members are made one after another, each checked before the next. -/
theorem members_eq_ok_iff {make : Value → Except Failure Value} {refused : Value → Failure}
    {row : List Value → Except Failure (List Value)} {elements members : List Value}
    (nil : row [] = .ok [])
    (cons : ∀ value rest, row (value :: rest) = do
      let member ← make value
      if member.canBeKey then
        let others ← row rest
        .ok (member :: others)
      else .error (refused member)) :
    row elements = .ok members ↔
      List.Forall₂ (fun value member => make value = .ok member ∧ member.canBeKey = true)
        elements members := by
  apply walk_iff_forall₂ elements members
  · intro made
    rw [nil, Except.ok.injEq, eq_comm]
  intro value rest made
  rw [cons, bind_eq_ok_iff]
  constructor
  · rintro ⟨member, found, later⟩
    split at later
    · next key =>
      obtain ⟨others, following, built⟩ := bind_eq_ok_iff.mp later
      exact ⟨member, others, ⟨found, key⟩, following, (Except.ok.inj built).symm⟩
    · cases later
  · rintro ⟨member, others, ⟨found, key⟩, following, rfl⟩
    exact ⟨member, found, by simp [key, following, bind_eq_ok_iff]⟩

theorem loadMembers_eq_ok_iff {read : Value → Except Failure Value}
    {received members : List Value} :
    loadMembers read received = .ok members ↔
      List.Forall₂ (fun value member => read value = .ok member ∧ member.canBeKey = true)
        received members :=
  members_eq_ok_iff rfl fun _ _ => rfl

theorem loadNumber_iff {written loaded : Value} {amount : Decimal}
    (numeral : Numeral written amount) :
    loadNumber written = .ok loaded ↔ Kept amount ∧ loaded = .decimal amount := by
  obtain ⟨text, negative, coefficient, exponent, rfl, rfl, reads⟩ := numeral
  have finite : Kept (.finite negative coefficient exponent) ↔
      Bounds.storage.fit (.finite negative coefficient exponent) =
        .ok (.finite negative coefficient exponent) :=
    and_iff_right ⟨negative, coefficient, exponent, rfl⟩
  have read : Bounds.storage.read text =
      Bounds.storage.fit (.finite negative coefficient exponent) := by rw [Bounds.read, reads]
  rw [loadNumber, read, finite]
  cases fits : Bounds.storage.fit (.finite negative coefficient exponent) with
  | error signal => simp [loadNumber.number]
  | ok kept =>
    cases Bounds.fit_finite fits
    simp [loadNumber.number, eq_comm]

theorem same_decimal {first second : Decimal} (left : Kept first) (right : Kept second) :
    same (.decimal first) (.decimal second) =
      (Quantity.ofDecimal? first == Quantity.ofDecimal? second) := by
  obtain ⟨⟨negative, coefficient, exponent, rfl⟩, -⟩ := left
  obtain ⟨⟨negative', coefficient', exponent', rfl⟩, -⟩ := right
  simp [same, compare?, compareNumbers?, isNumeric, isSignaling, sameQuantity, quantity?,
    Quantity.ofDecimal?]

theorem same_bytes (form form' : BytesForm) (first second : List UInt8) :
    same (.bytes form first) (.bytes form' second) = (first == second) := by
  by_cases equal : first = second <;> simp [same, compare?, equal]

/-- Elements that are told apart by what they denote make a set without losing one. -/
theorem setOf_map {Element Denoted : Type} {value : Element → Value} {denoted : Element → Denoted}
    {elements : List Element} (frozen : Bool) (distinct : (elements.map denoted).Nodup)
    (apart : ∀ first ∈ elements, ∀ second ∈ elements, denoted first ≠ denoted second →
      same (value first) (value second) = false) :
    setOf frozen (elements.map value) = .set frozen (elements.map value) := by
  rw [setOf_eq, distinct_of_unequal]
  refine List.pairwise_map.mpr ((List.pairwise_map.mp distinct).imp_of_mem ?_)
  exact fun member other differs => apart _ member _ other differs

end Value

namespace Attribute

open Value

theorem setOf_decimals {elements : List Decimal} (kept : ∀ amount ∈ elements, Kept amount)
    (distinct : (elements.map Quantity.ofDecimal?).Nodup) :
    setOf false (elements.map .decimal) = .set false (elements.map .decimal) := by
  refine setOf_map false distinct fun first member second other differs => ?_
  rw [same_decimal (kept first member) (kept second other)]
  exact beq_eq_false_iff_ne.mpr differs

theorem setOf_texts {elements : List String} (distinct : elements.Nodup) :
    setOf false (elements.map .text) = .set false (elements.map .text) := by
  refine setOf_map false ((List.map_id elements).symm ▸ distinct) fun first _ second _ differs => ?_
  simpa using differs

theorem setOf_bytes {rows : List (List UInt8)} (form : BytesForm) (distinct : rows.Nodup) :
    setOf false (rows.map (.bytes form)) = .set false (rows.map (.bytes form)) := by
  refine setOf_map false ((List.map_id rows).symm ▸ distinct) fun first _ second _ differs => ?_
  simpa [same_bytes] using differs

/-- A set that is read element by element, if freeing its elements leaves it a set of the same
elements. -/
theorem load_set_iff {tag : Tag} {read : Value → Except Failure Value}
    {received members freed : List Value} {loaded : Value} {sound : Prop}
    (reading : loadTagged tag (.list received) = loadSet read (.list received))
    (reads : ∀ made, loadMembers read received = .ok made ↔ sound ∧ made = members)
    (whole : sound → setOf false members = .set false members)
    (frees : unwrappedAll members = .ok freed) :
    (tagged tag (.list received)).load = .ok loaded ↔ sound ∧ loaded = .set false freed := by
  have row : (Value.list received).asRow = .ok received := rfl
  have free : unwrapped (.set false members) = .ok (.set false freed) :=
    bind_eq_ok_iff.mpr ⟨freed, frees, rfl⟩
  simp only [load_tagged_iff, reading, loadSet, row, bind_eq_ok_iff, reads, Except.ok.injEq,
    exists_eq_left']
  constructor
  · rintro ⟨made, ⟨members, ⟨given, rfl⟩, rfl⟩, freeing⟩
    rw [whole given, free] at freeing
    exact ⟨given, (Except.ok.inj freeing).symm⟩
  · rintro ⟨given, rfl⟩
    exact ⟨_, ⟨members, ⟨given, rfl⟩, rfl⟩, by rw [whole given, free]⟩

theorem load_numbers_iff {written : List Value} {elements : List Decimal} {loaded : Value}
    (numerals : List.Forall₂ Numeral written elements)
    (distinct : (elements.map Quantity.ofDecimal?).Nodup) :
    (tagged .numbers (.list written)).load = .ok loaded ↔
      (∀ amount ∈ elements, Kept amount) ∧ loaded = .set false (elements.map .decimal) := by
  refine load_set_iff rfl (fun made => ?_) (fun kept => setOf_decimals kept distinct)
    (unwrapped_map_eq_ok elements fun amount => rfl)
  rw [loadMembers_eq_ok_iff]
  refine forall₂_iff_of_each numerals fun amount _ value member numeral => ?_
  rw [loadNumber_iff numeral]
  constructor
  · exact And.left
  · rintro ⟨kept, rfl⟩
    obtain ⟨⟨negative, coefficient, exponent, rfl⟩, -⟩ := id kept
    exact ⟨⟨kept, rfl⟩, rfl⟩

theorem load_set_of_each {Element : Type} {tag : Tag} {read : Value → Except Failure Value}
    {elements : List Element} {written member freed : Element → Value}
    (reading : ∀ row, loadTagged tag (.list row) = loadSet read (.list row))
    (each : ∀ element, read (written element) = .ok (member element) ∧
      (member element).canBeKey = true)
    (whole : setOf false (elements.map member) = .set false (elements.map member))
    (frees : ∀ element, unwrapped (member element) = .ok (freed element)) :
    (tagged tag (.list (elements.map written))).load = .ok (.set false (elements.map freed)) := by
  have members : loadMembers read (elements.map written) = .ok (elements.map member) := by
    rw [loadMembers_eq_ok_iff, List.forall₂_map_left_iff, List.forall₂_map_right_iff,
      List.forall₂_same]
    exact fun element _ => each element
  refine (load_set_iff (reading _) (fun made => ?_) (fun _ => whole)
    (unwrapped_map_eq_ok elements frees)).mpr ⟨trivial, rfl⟩
  rw [members, true_and, Except.ok.injEq, eq_comm]

theorem load_texts {elements : List String} (distinct : elements.Nodup) :
    (tagged .texts (.list (elements.map .text))).load = .ok (.set false (elements.map .text)) :=
  load_set_of_each (fun _ => rfl) (fun _ => ⟨rfl, rfl⟩) (setOf_texts distinct) fun _ => rfl

theorem load_binaries {rows : List (List UInt8)} (distinct : rows.Nodup) :
    (tagged .binaries (.list (rows.map (.bytes .fixed)))).load =
      .ok (.set false (rows.map (.bytes .fixed))) :=
  load_set_of_each (fun _ => rfl) (fun _ => ⟨rfl, rfl⟩) (setOf_bytes (.wrapped false) distinct)
    fun _ => rfl

theorem load_number_iff {written loaded : Value} {amount : Decimal}
    (numeral : Numeral written amount) :
    (tagged .number written).load = .ok loaded ↔ Kept amount ∧ loaded = .decimal amount := by
  have reading : loadTagged .number written = loadNumber written := by
    obtain ⟨text, -, -, -, rfl, -⟩ := numeral
    rfl
  rw [load_tagged_iff, reading]
  simp only [loadNumber_iff numeral]
  constructor
  · rintro ⟨read, ⟨kept, rfl⟩, freed⟩
    exact ⟨kept, (Except.ok.inj freed).symm⟩
  · rintro ⟨kept, rfl⟩
    exact ⟨_, ⟨kept, rfl⟩, rfl⟩

theorem sound_number_iff {amount : Decimal} : (Attribute.number amount).Sound ↔ Kept amount := by
  constructor
  · intro sound
    cases sound
    assumption
  · exact .number

theorem sound_numbers_iff {elements : List Decimal} (nonempty : elements ≠ [])
    (distinct : (elements.map Quantity.ofDecimal?).Nodup) :
    (Attribute.numbers elements).Sound ↔ ∀ amount ∈ elements, Kept amount := by
  constructor
  · intro sound
    cases sound
    assumption
  · exact fun kept => .numbers nonempty kept distinct

theorem sound_list_iff {elements : List Attribute} :
    (Attribute.list elements).Sound ↔ ∀ element ∈ elements, element.Sound := by
  constructor
  · intro sound
    cases sound
    assumption
  · exact .list

theorem sound_map_iff {entries : Item} (distinct : (entries.map Prod.fst).Nodup) :
    (Attribute.map entries).Sound ↔ ∀ entry ∈ entries, entry.2.Sound := by
  constructor
  · intro sound
    cases sound
    assumption
  · exact .map distinct

theorem map_eq_native_iff {entries : Item} {record : Record} :
    Value.map record = (Attribute.map entries).native ↔
      record.map Prod.fst = entries.map (fun entry => Value.text entry.1) ∧
        record.map Prod.snd = (entries.map Prod.snd).map native := by
  rw [native, nativeEntries_eq_map, Value.map.injEq]
  constructor
  · rintro rfl
    simp [Function.comp_def]
  · rintro ⟨keys, values⟩
    rw [List.zip_of_prod keys values, eq_comm]
    exact List.zip_of_prod (by simp [Function.comp_def]) (by simp [Function.comp_def])

theorem sizeOf_lt_list {element : Attribute} {elements : List Attribute}
    (member : element ∈ elements) :
    sizeOf element < sizeOf (Attribute.list elements) := by
  have smaller := List.sizeOf_lt_of_mem member
  simp only [list.sizeOf_spec]
  omega

theorem sizeOf_lt_map {element : Attribute} {entries : Item}
    (member : element ∈ entries.map Prod.snd) :
    sizeOf element < sizeOf (Attribute.map entries) := by
  obtain ⟨⟨name, element⟩, inside, rfl⟩ := List.mem_map.mp member
  have smaller := List.sizeOf_lt_of_mem inside
  simp only [Prod.mk.sizeOf_spec] at smaller
  simp only [map.sizeOf_spec]
  omega

theorem load_iff_of_eq {received loaded : Value} {stored : Attribute}
    (done : received.load = .ok stored.native) (sound : stored.Sound) :
    received.load = .ok loaded ↔ stored.Sound ∧ loaded = stored.native := by
  rw [done, and_iff_right sound, Except.ok.injEq, eq_comm]

/-- A row reads as the row of what its elements stand for. -/
theorem load_list_iff {received : List Value} {elements : List Attribute} {loaded : Value}
    (spells : List.Forall₂ Spells received elements)
    (each : ∀ element ∈ elements, ∀ value read, Spells value element →
      (value.load = .ok read ↔ element.Sound ∧ read = element.native)) :
    (tagged .list (.list received)).load = .ok loaded ↔
      (Attribute.list elements).Sound ∧ loaded = (Attribute.list elements).native := by
  have all (made : List Value) :
      List.Forall₂ (fun value read => value.load = .ok read) received made ↔
        (∀ element ∈ elements, element.Sound) ∧ made = elements.map native :=
    forall₂_iff_of_each spells each
  simp only [load_tagged_list_iff, sound_list_iff, native, nativeAll_eq_map, all]
  constructor
  · rintro ⟨made, ⟨sound, rfl⟩, rfl⟩
    exact ⟨sound, rfl⟩
  · rintro ⟨sound, rfl⟩
    exact ⟨_, ⟨sound, rfl⟩, rfl⟩

/-- A map reads as the map of what its entries stand for. -/
theorem load_map_iff {received : Record} {entries : Item} {loaded : Value}
    (distinct : (entries.map Prod.fst).Nodup)
    (keys : received.map Prod.fst = entries.map fun entry => Value.text entry.1)
    (spells : List.Forall₂ Spells (received.map Prod.snd) (entries.map Prod.snd))
    (each : ∀ element ∈ entries.map Prod.snd, ∀ value read, Spells value element →
      (value.load = .ok read ↔ element.Sound ∧ read = element.native)) :
    (tagged .map (.map received)).load = .ok loaded ↔
      (Attribute.map entries).Sound ∧ loaded = (Attribute.map entries).native := by
  have all (made : List Value) :
      List.Forall₂ (fun value read => value.load = .ok read) (received.map Prod.snd) made ↔
        (∀ element ∈ entries.map Prod.snd, element.Sound) ∧
          made = (entries.map Prod.snd).map native :=
    forall₂_iff_of_each spells each
  simp only [load_tagged_map_iff, sound_map_iff distinct, load_eq_ok_iff, all]
  constructor
  · rintro ⟨record, ⟨names, sound, values⟩, rfl⟩
    refine ⟨fun entry member => sound _ (List.mem_map_of_mem member), ?_⟩
    exact map_eq_native_iff.mpr ⟨names.trans keys, values⟩
  · rintro ⟨sound, rfl⟩
    obtain ⟨record, built⟩ : ∃ record, (Attribute.map entries).native = .map record :=
      ⟨_, native.eq_def _⟩
    obtain ⟨names, values⟩ := map_eq_native_iff.mp built.symm
    exact ⟨record, ⟨names.trans keys.symm, List.forall_mem_map.mpr sound, values⟩, built⟩

/-- What spells a stored value reads as the value that it stands for, if it reads at all; and it
reads exactly if the store could hold the value. -/
theorem load_iff {received loaded : Value} {stored : Attribute} (spells : Spells received stored) :
    received.load = .ok loaded ↔ stored.Sound ∧ loaded = stored.native := by
  -- Elements and entries are smaller than the value that holds them.
  induction size : sizeOf stored using Nat.strongRecOn generalizing received loaded stored with
  | ind bound smaller =>
    subst size
    cases spells with
    | null => exact load_iff_of_eq (load_tagged_iff.mpr ⟨_, rfl, rfl⟩) .null
    | bool flag => exact load_iff_of_eq (load_tagged_iff.mpr ⟨_, rfl, rfl⟩) (.bool flag)
    | text content => exact load_iff_of_eq (load_tagged_iff.mpr ⟨_, rfl, rfl⟩) (.text content)
    | binary content => exact load_iff_of_eq (load_tagged_iff.mpr ⟨_, rfl, rfl⟩) (.binary content)
    | number numeral => rw [sound_number_iff, native, load_number_iff numeral]
    | numbers numerals nonempty distinct =>
      rw [sound_numbers_iff nonempty distinct, native, load_numbers_iff numerals distinct]
    | texts nonempty distinct =>
      exact load_iff_of_eq (load_texts distinct) (.texts nonempty distinct)
    | binaries nonempty distinct =>
      refine load_iff_of_eq ?_ (.binaries nonempty distinct)
      rw [load_binaries distinct, native, List.map_map]
      rfl
    | list spells =>
      exact load_list_iff spells fun element member value read here =>
        smaller _ (sizeOf_lt_list member) here rfl
    | map distinct keys spells =>
      exact load_map_iff distinct keys spells fun element member value read here =>
        smaller _ (sizeOf_lt_map member) here rfl

theorem numeral_text {amount : Decimal} (kept : Kept amount) :
    Numeral (.text amount.text) amount := by
  obtain ⟨⟨negative, coefficient, exponent, rfl⟩, -⟩ := kept
  exact ⟨_, negative, coefficient, exponent, rfl, rfl, Decimal.ofText?_text ..⟩

/-- What a store can hold is sent in a form that spells it. -/
theorem spells_wire {stored : Attribute} (sound : stored.Sound) : Spells stored.wire stored := by
  induction sound with
  | null => exact .null
  | bool flag => exact .bool flag
  | number kept => exact .number (numeral_text kept)
  | text content => exact .text content
  | binary content => exact .binary content
  | numbers nonempty kept distinct =>
    refine .numbers ?_ nonempty distinct
    rw [List.forall₂_map_left_iff, List.forall₂_same]
    exact fun amount member => numeral_text (kept amount member)
  | texts nonempty distinct => exact .texts nonempty distinct
  | @binaries rows nonempty distinct =>
    have sent : (rows.map (false, ·)).map (fun row => bytesValue row.1 row.2) =
        rows.map (.bytes .fixed) := by
      rw [List.map_map]
      rfl
    rw [wire, sent]
    exact .binaries nonempty distinct
  | list _ each =>
    rw [wire, wireAll_eq_map]
    refine .list ?_
    rw [List.forall₂_map_left_iff, List.forall₂_same]
    exact each
  | map distinct _ each =>
    rw [wire, wireEntries_eq_map]
    refine .map distinct (by simp [Function.comp_def]) ?_
    rw [List.map_map, List.forall₂_map_left_iff, List.forall₂_map_right_iff, List.forall₂_same]
    exact each

end Attribute

end RecordMerge

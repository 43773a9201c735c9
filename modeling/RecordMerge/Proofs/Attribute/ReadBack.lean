import RecordMerge.Proofs.Attribute.Normal
import RecordMerge.Proofs.Value.Comparison

/-! What is read back of a value once it is stored: a row of what is read back of its elements, a map
of what is read back of its entries, and a set of elements that cannot be told from its own. -/

set_option autoImplicit false

namespace RecordMerge

open Attribute (tagged wireEntries)
open Number (Decimal Quantity)

namespace Value

/-- The second value is what is read where the first one was stored. -/
def ReadBack (value read : Value) : Prop :=
  ∃ stored, value.store = .ok stored ∧ stored.wire.load = .ok read

theorem ReadBack.of_list {elements : List Value} {read : Value}
    (back : ReadBack (.list elements) read) : ∃ reads, read = .list reads ∧
      List.Forall₂ ReadBack (elements.filter fun value => !value.isUnset) reads := by
  obtain ⟨stored, storing, loading⟩ := back
  obtain ⟨made, each, rfl⟩ := store_list_eq_ok_iff.mp storing
  rw [Attribute.wire, Attribute.wireAll_eq_map, load_tagged_list_iff] at loading
  obtain ⟨reads, loads, rfl⟩ := loading
  exact ⟨reads, rfl, exists_forall₂_iff.mp ⟨made, each, List.forall₂_map_left_iff.mp loads⟩⟩

end Value

theorem Record.load_wireEntries_iff {item : Item} {record : Record} :
    Record.load (wireEntries item) = .ok record ↔
      List.Forall₂ (fun sent entry => entry.1 = Value.text sent.1 ∧ sent.2.wire.load = .ok entry.2)
        item record := by
  induction item generalizing record with
  | nil => simp [wireEntries, Record.load, eq_comm]
  | cons sent rest tail =>
    simp only [wireEntries, Record.load, bind_eq_ok_iff, tail, List.forall₂_cons_left_iff]
    constructor
    · rintro ⟨first, here, others, later, built⟩
      exact ⟨_, others, ⟨rfl, here⟩, later, (Except.ok.inj built).symm⟩
    · rintro ⟨⟨key, first⟩, others, ⟨same, here⟩, later, rfl⟩
      exact ⟨first, here, others, later, by rw [← same]⟩

/-- A named record is read back entry by entry, without the unset ones. -/
theorem Record.readBack_entries {record read : Record} {item : Item} (names : record.named = true)
    (stored : record.storeEntries = .ok item) (loaded : Record.load (wireEntries item) = .ok read) :
    List.Forall₂ (fun entry other => entry.1 = other.1 ∧ Value.ReadBack entry.2 other.2)
      (record.filter fun entry => !entry.2.isUnset) read := by
  refine (exists_forall₂_iff.mp ⟨item, (storeEntries_eq_ok_iff names).mp stored,
    load_wireEntries_iff.mp loaded⟩).imp ?_
  rintro entry other ⟨sent, ⟨key, storing⟩, text, loading⟩
  exact ⟨key.trans text.symm, sent.2, storing, loading⟩

/-- Each name is there once, and it is the text of a key that has a value. -/
def Record.Lends (record : Record) (names : List String) : Prop :=
  names.Nodup ∧
    ∀ name ∈ names, ∃ entry ∈ record, entry.2.isUnset = false ∧ entry.1.toText? = some name

namespace Value

theorem exists_entry_of_plainEntries {entries : Record} {pairs : List (String × Value)}
    (done : plainEntries entries = .ok pairs) {name : String} (member : name ∈ pairs.map Prod.fst) :
    ∃ entry ∈ entries, entry.2.isUnset = false ∧ entry.1.toText? = some name := by
  induction entries generalizing pairs with
  | nil =>
    cases done
    cases member
  | cons entry rest tail =>
    obtain ⟨key, value⟩ := entry
    have later {others : List (String × Value)} (following : plainEntries rest = .ok others)
        (inside : name ∈ others.map Prod.fst) : ∃ entry ∈ (key, value) :: rest,
          entry.2.isUnset = false ∧ entry.1.toText? = some name := by
      obtain ⟨entry, held, fits⟩ := tail following inside
      exact ⟨entry, List.mem_cons_of_mem _ held, fits⟩
    rw [plainEntries] at done
    split at done
    · exact later done member
    · next given =>
      split at done
      · cases done
      · next text =>
        obtain ⟨first, -, following⟩ := bind_eq_ok_iff.mp done
        obtain ⟨others, remaining, built⟩ := bind_eq_ok_iff.mp following
        cases built
        rcases List.mem_cons.mp member with rfl | inside
        · exact ⟨_, List.mem_cons_self, by simpa using given, text⟩
        · exact later remaining inside

theorem keys_encodeEntries {pairs : List (String × Value)} {item : Item}
    (done : encodeEntries (pairs.map fun pair => (.text pair.1, pair.2)) = .ok item) :
    item.map Prod.fst = pairs.map Prod.fst := by
  induction pairs generalizing item with
  | nil =>
    cases done
    rfl
  | cons pair rest tail =>
    obtain ⟨first, -, later⟩ := bind_eq_ok_iff.mp done
    obtain ⟨others, following, built⟩ := bind_eq_ok_iff.mp later
    cases built
    simp [tail following]

/-- The names of a stored map are lent by the keys of the map. -/
theorem lends_of_store {entries : Record} {stored : Attribute}
    (done : (Value.map entries).store = .ok stored) :
    ∃ item, stored = .map item ∧ entries.Lends (item.map Prod.fst) := by
  obtain ⟨whole, plaining, encoding⟩ := bind_eq_ok_iff.mp done
  obtain ⟨pairs, plained, built⟩ := bind_eq_ok_iff.mp plaining
  cases built
  obtain ⟨item, written, built⟩ := bind_eq_ok_iff.mp encoding
  cases built
  obtain ⟨distinct, same⟩ := Entries.keys_ofPairs pairs
  refine ⟨item, rfl, ?_⟩
  rw [Record.Lends, keys_encodeEntries written]
  exact ⟨distinct, fun name member => exists_entry_of_plainEntries plained ((same name).mp member)⟩

end Value

theorem Record.lends_of_store {record : Record} {item : Item} (done : record.store = .ok item) :
    record.Lends (item.map Prod.fst) := by
  obtain ⟨written, storing, built⟩ := bind_eq_ok_iff.mp done
  cases built
  obtain ⟨pairs, plained, encoded⟩ := Value.storeEntries_eq_ok_iff.mp storing
  obtain ⟨distinct, same⟩ := Entries.keys_ofPairs written
  refine ⟨distinct, fun name member => Value.exists_entry_of_plainEntries plained ?_⟩
  rw [← Value.keys_encodeEntries encoded]
  exact (same name).mp member

theorem Record.keys_load_wireEntries {item : Item} {read : Record}
    (loaded : Record.load (wireEntries item) = .ok read) :
    read.map Prod.fst = (item.map Prod.fst).map Value.text := by
  rw [keys_load loaded, Attribute.wireEntries_eq_map, List.map_map, List.map_map]
  rfl

/-- If what is kept of a row has as many different keys as the row has elements, then all of the row
is kept, and its keys are different. -/
theorem filter_eq_self_of_keys {Element Key : Type} {key : Element → Key} {keeps : Element → Bool}
    {elements : List Element} {keys : List Key} (distinct : keys.Nodup)
    (within : keys ⊆ (elements.filter keeps).map key) (count : keys.length = elements.length) :
    elements.filter keeps = elements ∧ (elements.map key).Nodup := by
  have sub := List.subperm_of_subset distinct within
  have whole : elements.filter keeps = elements := by
    have fewer := sub.length_le
    rw [count, List.length_map] at fewer
    exact List.filter_sublist.eq_of_length_le fewer
  have order := sub.perm_of_length_le (by rw [count, List.length_map, whole])
  rw [whole] at order
  exact ⟨whole, order.nodup_iff.mp distinct⟩

/-- A record that is equal to what is read back of it has names for keys and no unset entries. -/
theorem Record.named_of_same {record read : Record} {item : Item}
    (lent : record.Lends (item.map Prod.fst)) (loaded : Record.load (wireEntries item) = .ok read)
    (same : Value.same (.map record) (.map read) = true) :
    record.named = true ∧ ∀ entry ∈ record, entry.2.isUnset = false := by
  obtain ⟨distinct, lends⟩ := lent
  have keys := keys_load_wireEntries loaded
  have once : (read.map Prod.fst).Nodup := keys ▸ distinct.map fun _ _ => Value.text.inj
  have readNames : read.named = true := by
    refine named_iff.mpr ⟨once, fun key member => ?_⟩
    obtain ⟨name, -, text⟩ := List.mem_map.mp (keys ▸ member)
    exact ⟨name, text.symm⟩
  obtain ⟨length, texts⟩ := Value.texts_of_same readNames same
  -- Each name that is read is the key of an entry with a value, and there are as many of them as
  -- entries.
  have given : read.map Prod.fst ⊆
      (record.filter fun entry => !entry.2.isUnset).map Prod.fst := by
    intro key member
    obtain ⟨name, held, rfl⟩ := List.mem_map.mp (keys ▸ member)
    obtain ⟨entry, inside, set, text⟩ := lends name held
    obtain ⟨other, same⟩ := texts entry inside
    rw [same, Value.toText?_text, Option.some.injEq] at text
    exact List.mem_map.mpr ⟨entry, List.mem_filter.mpr ⟨inside, by simp [set]⟩, by rw [same, text]⟩
  obtain ⟨whole, different⟩ := filter_eq_self_of_keys once given (by rw [List.length_map, length])
  refine ⟨named_iff.mpr ⟨different, List.forall_mem_map.mpr texts⟩, fun entry member => ?_⟩
  simpa using List.filter_eq_self.mp whole entry member

namespace Value

/-- A float as the decimal of its shortest text, and any other value as it is. -/
def asDecimal : Value → Value
  | .float number => .decimal number.shortestDecimal
  | value => value

/-- What can be an element of a set once it is plain has no parts of its own. -/
theorem plain_eq_asDecimal {value member : Value} (plained : plain value = .ok member)
    (key : member.canBeKey = true) : member = value.asDecimal := by
  cases value with
  | list | tuple | map =>
    obtain ⟨parts, -, built⟩ := bind_eq_ok_iff.mp plained
    cases built
    cases key
  | set frozen elements =>
    cases elements with
    | nil => cases plained
    | cons first rest =>
      obtain ⟨parts, -, built⟩ := bind_eq_ok_iff.mp plained
      cases built
      cases key
  | _ =>
    cases plained
    rfl

/-- A number other than a not-a-number is read back as it was stored. -/
theorem load_stored_number {amount kept : Decimal} {quantity : Quantity}
    (denoted : Quantity.ofDecimal? amount = some quantity) (stored : storeNumber amount = .ok kept) :
    loadNumber (.text kept.text) = .ok (.decimal amount) := by
  cases amount with
  | finite negative coefficient exponent =>
    obtain ⟨fits, rfl⟩ := (storeNumber_iff ⟨_, _, _, rfl⟩).mp stored
    exact (loadNumber_iff (Attribute.numeral_text fits)).mpr ⟨fits, rfl⟩
  | infinite negative =>
    cases negative with
    | false => cases stored
    | true =>
      cases stored
      rfl
  | nan => cases denoted

theorem ReadBack.of_number {value read : Value} {amount : Decimal} {quantity : Quantity}
    (denoted : Quantity.ofDecimal? amount = some quantity)
    (writes : value.store = do .ok (.number (← storeNumber amount))) (back : ReadBack value read) :
    read = .decimal amount := by
  obtain ⟨stored, storing, loading⟩ := back
  rw [writes] at storing
  obtain ⟨kept, written, built⟩ := bind_eq_ok_iff.mp storing
  cases built
  obtain ⟨loaded, number, freed⟩ := load_tagged_iff.mp loading
  cases number.symm.trans (load_stored_number denoted written)
  cases freed
  rfl

theorem unequal_of_alike {first second : List Value} (alike : List.Forall₂ Alike first second)
    (unequal : Unequal first) : Unequal second := by
  induction alike with
  | nil => exact .nil
  | @cons known made rest others here pairs tail =>
    obtain ⟨fresh, later⟩ := List.pairwise_cons.mp unequal
    refine List.pairwise_cons.mpr ⟨forall_right_of_each pairs ?_, tail later⟩
    exact fun value member other there => (same_congr here there).symm.trans (fresh value member)

theorem denotes_of_decimal? {member : Value} {amount : Decimal}
    (denoted : ∀ number, member = .decimal number →
      ∃ quantity, Quantity.ofDecimal? number = some quantity)
    (found : decimal? member = some amount) :
    ∃ quantity, member.quantity? = some quantity ∧ Quantity.ofDecimal? amount = some quantity := by
  cases member with
  | bool | int =>
    cases found
    exact ⟨_, rfl, rfl⟩
  | decimal number =>
    cases found
    obtain ⟨quantity, same⟩ := denoted _ rfl
    exact ⟨quantity, same, same⟩
  | _ => cases found

theorem canBeKey_of_quantity {number : Decimal} {quantity : Quantity}
    (denoted : Quantity.ofDecimal? number = some quantity) :
    (Value.decimal number).canBeKey = true := by
  cases number with
  | finite | infinite => rfl
  | nan => cases denoted

theorem load_stored_amounts {amounts kept : List Decimal}
    (denoted : ∀ amount ∈ amounts, ∃ quantity, Quantity.ofDecimal? amount = some quantity)
    (stored : amounts.mapM storeNumber = .ok kept) :
    loadMembers loadNumber (kept.map fun amount => .text amount.text) =
      .ok (amounts.map .decimal) := by
  rw [loadMembers_eq_ok_iff, List.forall₂_map_left_iff, List.forall₂_map_right_iff]
  have written := mapM_storeNumber_eq_ok_iff.mp stored
  refine List.Forall₂.flip (((List.forall₂_and_left _ _).mpr ⟨denoted, written⟩).imp ?_)
  rintro amount made ⟨⟨quantity, same⟩, written⟩
  exact ⟨load_stored_number same written, canBeKey_of_quantity same⟩

/-- A set of numbers without a not-a-number is read back as the set of what they denote. -/
theorem load_stored_numbers {members : List Value} {amounts kept : List Decimal} {read : Value}
    (unequal : Unequal members)
    (pairs : List.Forall₂ (fun member amount => ∃ quantity, member.quantity? = some quantity ∧
      Quantity.ofDecimal? amount = some quantity) members amounts)
    (stored : amounts.mapM storeNumber = .ok kept)
    (loaded : (Attribute.numbers kept).wire.load = .ok read) :
    List.Forall₂ Alike members (amounts.map .decimal) ∧
      read = .set false (amounts.map .decimal) := by
  have alike : List.Forall₂ Alike members (amounts.map .decimal) := by
    refine List.forall₂_map_right_iff.mpr (pairs.imp ?_)
    rintro member amount ⟨quantity, left, right⟩
    exact alike_of_quantity left right
  have texts := load_stored_amounts (forall_right_of_each pairs fun _ _ _ pair =>
    pair.imp fun _ => And.right) stored
  have whole : setOf false (amounts.map .decimal) = .set false (amounts.map .decimal) := by
    rw [setOf_eq, distinct_of_unequal (unequal_of_alike alike unequal)]
  have loads : (Attribute.numbers kept).wire.load = .ok read ↔
      True ∧ read = .set false (amounts.map .decimal) :=
    Attribute.load_set_iff rfl (fun made => by rw [texts, Except.ok.injEq, true_and, eq_comm])
      (fun _ => whole) (unwrapped_map_eq_ok amounts fun _ => rfl)
  exact ⟨alike, (loads.mp loaded).2⟩

/-- What is written of bytes that can be elements of a set is never growable. -/
theorem exists_contents {members : List Value} {rows : List (Bool × List UInt8)}
    (pairs : List.Forall₂ (fun member row => member.canBeKey = true ∧ bytes? member = some row)
      members rows) :
    ∃ contents : List (List UInt8), rows = contents.map (false, ·) ∧
      List.Forall₂ Alike members (contents.map (.bytes .fixed)) := by
  induction pairs with
  | nil => exact ⟨[], rfl, .nil⟩
  | @cons member row members rows pair pairs tail =>
    obtain ⟨contents, rfl, alike⟩ := tail
    obtain ⟨key, read⟩ := pair
    cases member with
    | bytes form content =>
      refine ⟨content :: contents, ?_, .cons (alike_bytes form .fixed content) alike⟩
      match form with
      | .fixed | .wrapped false =>
        cases read
        rfl
      | .growable | .wrapped true => cases key
    | _ => cases read

theorem load_stored_texts {members : List Value} {texts : List String} {read : Value}
    (unequal : Unequal members) (found : readAll text? members = some texts)
    (loaded : (Attribute.texts texts).wire.load = .ok read) :
    List.Forall₂ Alike members (texts.map .text) ∧ read = .set false (texts.map .text) := by
  obtain ⟨-, same⟩ : (∀ text ∈ texts, True) ∧ texts.map Value.text = members.map id :=
    row_of_each (readAll_eq_some_iff.mp found) fun member _ text read => by
      cases member <;> cases read
      exact ⟨trivial, rfl⟩
  rw [List.map_id] at same
  subst same
  have distinct : texts.Nodup := by
    rw [← List.map_id texts]
    exact nodup_of_unequal unequal fun first _ second _ equal => by
      simp [show first = second from equal]
  rw [Attribute.wire, Attribute.load_texts distinct] at loaded
  exact ⟨List.forall₂_same.mpr fun member _ => alike_refl member, (Except.ok.inj loaded).symm⟩

theorem load_stored_binaries {members : List Value} {rows : List (Bool × List UInt8)} {read : Value}
    (unequal : Unequal members) (keys : ∀ member ∈ members, member.canBeKey = true)
    (found : readAll bytes? members = some rows)
    (loaded : (Attribute.binaries rows).wire.load = .ok read) :
    ∃ contents : List (List UInt8), List.Forall₂ Alike members (contents.map (.bytes .fixed)) ∧
      read = .set false (contents.map (.bytes .fixed)) := by
  have pairs := (List.forall₂_and_left _ _).mpr ⟨keys, readAll_eq_some_iff.mp found⟩
  obtain ⟨contents, rfl, alike⟩ := exists_contents pairs
  have distinct : contents.Nodup := by
    rw [← List.map_id contents]
    exact nodup_of_unequal (unequal_of_alike alike unequal) fun first _ second _ equal => by
      simp [same_bytes, show first = second from equal]
  have sent : (Attribute.binaries (contents.map (false, ·))).wire =
      tagged .binaries (.list (contents.map (.bytes .fixed))) := by
    rw [Attribute.wire, List.map_map]
    rfl
  rw [sent, Attribute.load_binaries distinct] at loaded
  exact ⟨contents, alike, (Except.ok.inj loaded).symm⟩

theorem exists_load_storeSet {members : List Value} {stored : Attribute} {read : Value}
    (unequal : Unequal members) (keys : ∀ member ∈ members, member.canBeKey = true)
    (denoted : ∀ member ∈ members, ∀ number, member = .decimal number →
      ∃ quantity, Quantity.ofDecimal? number = some quantity)
    (done : storeSet false members = .ok stored) (loaded : stored.wire.load = .ok read) :
    ∃ reads, read = .set false reads ∧ List.Forall₂ Alike members reads := by
  unfold storeSet at done
  split at done
  · next amounts found =>
    obtain ⟨kept, storing, built⟩ := bind_eq_ok_iff.mp done
    cases built
    have pairs := (List.forall₂_and_left _ _).mpr ⟨denoted, readAll_eq_some_iff.mp found⟩
    obtain ⟨alike, same⟩ := load_stored_numbers unequal
      (pairs.imp fun member amount pair => denotes_of_decimal? pair.1 pair.2) storing loaded
    exact ⟨_, same, alike⟩
  · next texts _ found =>
    cases done
    obtain ⟨alike, same⟩ := load_stored_texts unequal found loaded
    exact ⟨_, same, alike⟩
  · next rows _ _ found =>
    cases done
    obtain ⟨contents, alike, same⟩ := load_stored_binaries unequal keys found loaded
    exact ⟨_, same, alike⟩
  · cases done

/-- A set is read back as a set of elements that cannot be told from its own, as decimals where they
are floats. -/
theorem ReadBack.of_set {frozen : Bool} {elements : List Value} {read : Value}
    (denoted : ∀ element ∈ elements, ∀ number, element.asDecimal = .decimal number →
      ∃ quantity, Quantity.ofDecimal? number = some quantity)
    (back : ReadBack (.set frozen elements) read) :
    ∃ reads, read = .set false reads ∧
      List.Forall₂ Alike (distinct (elements.map asDecimal)) reads := by
  obtain ⟨stored, storing, loaded⟩ := back
  obtain ⟨-, members, plained, done⟩ := store_set_eq_ok_iff.mp storing
  obtain ⟨keys, same⟩ := row_of_each plained fun element _ member made =>
    ⟨made.2, (plain_eq_asDecimal made.1 made.2 : id member = element.asDecimal)⟩
  rw [List.map_id] at same
  subst same
  refine exists_load_storeSet (unequal_distinct _)
    (fun member held => keys member (mem_of_mem_distinct held)) (fun member held => ?_) done loaded
  obtain ⟨element, inside, rfl⟩ := List.mem_map.mp (mem_of_mem_distinct held)
  exact denoted element inside

end Value

end RecordMerge

import RecordMerge.Proofs.Attribute.ReadBack
import RecordMerge.Proofs.Value.Size

/-! Values that are equal to what is read back of them once they are stored. -/

set_option autoImplicit false

namespace RecordMerge

open Attribute (wireEntries wireItem)
open Number (Binary64 Decimal Quantity)

namespace Value

mutual

/-- Whether the value equals what is read back of it. A tuple does not, and neither does a float whose
shortest text denotes another number, what has an unset element or entry, or a map with a key that is
not a text. -/
def settled : Value → Bool
  | .unset | .tuple _ => false
  | .float number => same (.float number) (.decimal number.shortestDecimal)
  | .decimal number => (Quantity.ofDecimal? number).isSome
  | .set frozen elements => same (.set frozen elements) (setOf false (elements.map asDecimal))
  | .list elements => settledAll elements
  | .map entries => Record.named entries && settledEntries entries
  | _ => true

def settledAll : List Value → Bool
  | [] => true
  | value :: rest => settled value && settledAll rest

def settledEntries : Record → Bool
  | [] => true
  | (_, value) :: rest => settled value && settledEntries rest

end

theorem settledAll_iff {elements : List Value} :
    settledAll elements = true ↔ ∀ element ∈ elements, element.settled = true := by
  induction elements with
  | nil => simp [settledAll]
  | cons value rest tail => simp [settledAll, tail]

theorem settledEntries_iff {entries : Record} :
    settledEntries entries = true ↔ ∀ entry ∈ entries, entry.2.settled = true := by
  induction entries with
  | nil => simp [settledEntries]
  | cons entry rest tail =>
    rw [List.forall_mem_cons, ← tail, settledEntries, Bool.and_eq_true]

theorem isUnset_of_settled {value : Value} (settled : value.settled = true) :
    value.isUnset = false := by
  cases value with
  | unset => cases settled
  | _ => rfl

theorem same_list_of_readBack {elements : List Value} {read : Value}
    (each : ∀ element ∈ elements, ∀ value, ReadBack element value →
      same element value = element.settled)
    (back : ReadBack (.list elements) read) : same (.list elements) read = settledAll elements := by
  obtain ⟨reads, rfl, pairs⟩ := back.of_list
  have whole (given : (elements.filter fun value => !value.isUnset) = elements) :
      List.Forall₂ (fun element value => same element value = true) elements reads ↔
        ∀ element ∈ elements, element.settled = true := by
    rw [given] at pairs
    refine forall₂_iff_of_left (((List.forall₂_and_left _ _).mpr ⟨each, pairs⟩).imp ?_)
    exact fun element value both => by rw [both.1 value both.2]
  rw [Bool.eq_iff_iff, same_list_iff, settledAll_iff]
  constructor
  · intro equal
    refine (whole (List.filter_sublist.eq_of_length ?_)).mp equal
    rw [pairs.length_eq, equal.length_eq]
  · intro settled
    refine (whole (List.filter_eq_self.mpr fun element member => ?_)).mpr settled
    rw [isUnset_of_settled (settled element member), Bool.not_false]

/-- A named record without unset entries is read back name by name. -/
theorem exists_readBack {record read : Record} {item : Item} (names : record.named = true)
    (given : ∀ entry ∈ record, entry.2.isUnset = false) (stored : record.storeEntries = .ok item)
    (loaded : Record.load (wireEntries item) = .ok read) :
    read.named = true ∧ record.length = read.length ∧
      ∀ entry ∈ record, ∃ name value, entry.1 = .text name ∧ read.get? name = some value ∧
        ReadBack entry.2 value := by
  have pairs := Record.readBack_entries names stored loaded
  have whole : (record.filter fun entry => !entry.2.isUnset) = record :=
    List.filter_eq_self.mpr fun entry member => by rw [given entry member, Bool.not_false]
  rw [whole] at pairs
  have keys : (∀ other ∈ read, True) ∧ read.map Prod.fst = record.map Prod.fst :=
    row_of_each pairs fun _ _ _ pair => ⟨trivial, pair.1.symm⟩
  have readNames : read.named = true := by
    rw [Record.named_iff, keys.2]
    exact Record.named_iff.mp names
  refine ⟨readNames, pairs.length_eq, forall_right_of_each pairs.flip ?_⟩
  rintro other member entry ⟨same, back⟩
  obtain ⟨name, text, found⟩ := Record.get?_of_mem readNames member
  exact ⟨name, other.2, same.trans text, found, back⟩

theorem same_map_of_readBack {record read : Record} {item : Item}
    (lent : record.Lends (item.map Prod.fst))
    (stored : record.named = true → record.storeEntries = .ok item)
    (loaded : Record.load (wireEntries item) = .ok read)
    (each : ∀ entry ∈ record, ∀ value, ReadBack entry.2 value →
      same entry.2 value = entry.2.settled) :
    same (.map record) (.map read) = (Value.map record).settled := by
  rw [Bool.eq_iff_iff, settled, Bool.and_eq_true, settledEntries_iff]
  constructor
  · intro equal
    obtain ⟨names, given⟩ := Record.named_of_same lent loaded equal
    obtain ⟨readNames, -, backs⟩ := exists_readBack names given (stored names) loaded
    refine ⟨names, fun entry member => ?_⟩
    obtain ⟨name, value, text, found, back⟩ := backs entry member
    obtain ⟨-, equals⟩ := (same_map_iff names readNames).mp equal
    obtain ⟨other, held, again, there, alike⟩ := equals entry member
    cases text.symm.trans again
    cases found.symm.trans there
    rw [← each entry member value back, alike]
  · rintro ⟨names, settled⟩
    obtain ⟨readNames, length, backs⟩ := exists_readBack names
      (fun entry member => isUnset_of_settled (settled entry member)) (stored names) loaded
    refine (same_map_iff names readNames).mpr ⟨length, fun entry member => ?_⟩
    obtain ⟨name, value, text, found, back⟩ := backs entry member
    exact ⟨name, value, text, found, (each entry member value back).trans (settled entry member)⟩

/-- The decimal of a float denotes a quantity exactly if the float does. -/
theorem denotes_float (number : Binary64) :
    (∃ quantity, (Value.float number).quantity? = some quantity ∧
      ∃ other, (Value.decimal number.shortestDecimal).quantity? = some other) ∨
    (Value.float number).quantity? = none ∧ number.shortestDecimal = .nan false false 0 := by
  cases number with
  | finite negative biased fraction =>
    obtain ⟨quantity, denoted⟩ := exists_quantity_float negative biased fraction
    obtain ⟨coefficient, exponent, shortest⟩ :=
      Binary64.exists_shortestDecimal negative biased fraction
    exact .inl ⟨quantity, denoted, _, by rw [shortest]; rfl⟩
  | infinite negative => exact .inl ⟨_, rfl, .infinite negative, by cases negative <;> decide +kernel⟩
  | nan => exact .inr ⟨rfl, by decide +kernel⟩

theorem exists_quantity_asDecimal {element : Value} {number : Decimal}
    (equals : ¬(element.isNumeric = true ∧ element.quantity? = none))
    (same : element.asDecimal = .decimal number) :
    ∃ quantity, Quantity.ofDecimal? number = some quantity := by
  cases element with
  | float held =>
    cases same
    rcases denotes_float held with ⟨-, -, denoted⟩ | ⟨none, -⟩
    · exact denoted
    · exact absurd ⟨rfl, none⟩ equals
  | decimal =>
    cases same
    exact Option.ne_none_iff_exists'.mp fun none => equals ⟨rfl, none⟩
  | _ => cases same

theorem same_set_of_readBack {frozen : Bool} {elements : List Value} {read : Value}
    (back : ReadBack (.set frozen elements) read) :
    same (.set frozen elements) read = (Value.set frozen elements).settled := by
  rw [settled, setOf_eq]
  by_cases alone : ∃ element ∈ elements, element.isNumeric = true ∧ element.quantity? = none
  · obtain ⟨element, member, numeric, none⟩ := alone
    rw [same_set_of_alone member (same_of_no_quantity numeric none),
      same_set_of_alone member (same_of_no_quantity numeric none)]
  · obtain ⟨reads, rfl, alike⟩ := back.of_set fun element member number =>
      exists_quantity_asDecimal fun none => alone ⟨element, member, none⟩
    rw [same_set_congr alike]

theorem ReadBack.eq {value read expected : Value} {stored : Attribute} (back : ReadBack value read)
    (storing : value.store = .ok stored) (loading : stored.wire.load = .ok expected) :
    read = expected := by
  obtain ⟨sent, sending, reading⟩ := back
  cases sending.symm.trans storing
  exact Except.ok.inj (reading.symm.trans loading)

theorem ReadBack.of_bytes {form : BytesForm} {content : List UInt8} {read : Value}
    (back : ReadBack (.bytes form content) read) : read = .bytes .fixed content := by
  have fixed (writes : (Value.bytes form content).store = .ok (.binary false content)) :
      read = .bytes .fixed content := back.eq writes (load_tagged_iff.mpr ⟨_, rfl, rfl⟩)
  have growable (writes : (Value.bytes form content).store = .ok (.binary true content)) : False := by
    obtain ⟨stored, storing, loading⟩ := back
    cases storing.symm.trans writes
    obtain ⟨loaded, reading, freeing⟩ := load_tagged_iff.mp loading
    cases reading
    cases freeing
  match form with
  | .fixed | .wrapped false => exact fixed rfl
  | .growable | .wrapped true => exact (growable rfl).elim

theorem same_number_of_readBack {value read : Value} {amount : Decimal} {left right : Quantity}
    (denotes : value.quantity? = some left) (denoted : Quantity.ofDecimal? amount = some right)
    (writes : value.store = do .ok (.number (← storeNumber amount))) (back : ReadBack value read) :
    same value read = (left == right) := by
  rw [back.of_number denoted writes]
  exact same_of_quantity denotes denoted

/-- What is read back of a value equals it exactly if it is settled. -/
theorem same_of_readBack {value read : Value} (back : ReadBack value read) :
    same value read = value.settled := by
  -- Elements and entries are smaller than the value that holds them.
  induction size : sizeOf value using Nat.strongRecOn generalizing value read with
  | ind bound smaller =>
    subst size
    cases value with
    | null =>
      rw [back.eq rfl (load_tagged_iff.mpr ⟨_, rfl, rfl⟩)]
      rfl
    | bool flag =>
      rw [back.eq rfl (load_tagged_iff.mpr ⟨_, rfl, rfl⟩)]
      cases flag <;> rfl
    | text content =>
      rw [back.eq rfl (load_tagged_iff.mpr ⟨_, rfl, rfl⟩)]
      exact (same_text content content).trans (beq_self_eq_true content)
    | int number =>
      exact (same_number_of_readBack rfl rfl rfl back).trans (beq_self_eq_true _)
    | float number =>
      rcases denotes_float number with ⟨-, -, other, denoted⟩ | ⟨-, none⟩
      · rw [back.of_number denoted rfl, settled]
      · obtain ⟨stored, storing, -⟩ := back
        rw [store, plain, none] at storing
        cases storing
    | decimal number =>
      rw [settled]
      cases denoted : Quantity.ofDecimal? number with
      | none =>
        have alone : (Value.decimal number).quantity? = none := denoted
        exact same_of_no_quantity rfl alone read
      | some quantity =>
        have denotes : (Value.decimal number).quantity? = some quantity := denoted
        exact (same_number_of_readBack denotes denoted rfl back).trans (beq_self_eq_true _)
    | bytes form content =>
      rw [back.of_bytes, same_bytes]
      exact beq_self_eq_true content
    | list elements =>
      refine same_list_of_readBack (fun element member value here => ?_) back
      exact smaller _ (sizeOf_lt_list member) here rfl
    | tuple elements =>
      have row : ReadBack (.list elements) read := by simpa only [ReadBack, store_tuple] using back
      obtain ⟨reads, rfl, -⟩ := row.of_list
      exact same_tuple_list elements reads
    | set frozen elements => exact same_set_of_readBack back
    | map entries =>
      obtain ⟨stored, storing, loading⟩ := back
      obtain ⟨item, rfl, lent⟩ := lends_of_store storing
      obtain ⟨loaded, reading, rfl⟩ := load_tagged_map_iff.mp loading
      refine same_map_of_readBack lent (fun names => ?_) reading fun entry member value here => ?_
      · obtain ⟨sent, written, built⟩ := (store_map_eq_ok_iff names).mp storing
        cases built
        exact written
      · exact smaller _ (sizeOf_lt_map member) here rfl
    | unset | unsetCopy | anything | date =>
      obtain ⟨stored, storing, -⟩ := back
      cases storing

end Value

/-- A record equals what is read where it was stored exactly if it is settled. -/
theorem Record.same_of_loadItem {record read : Record} {item : Item}
    (stored : record.store = .ok item) (loaded : (wireItem item).loadItem = .ok read) :
    Value.same (.map record) (.map read) = (Value.map record).settled :=
  Value.same_map_of_readBack (lends_of_store stored)
    (fun names => (store_eq_ok_iff names).mp stored) loaded fun _ _ _ back =>
      Value.same_of_readBack back

end RecordMerge

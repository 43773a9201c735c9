import RecordMerge.Failure.Kind
import RecordMerge.Proofs.Attribute.Stored
import RecordMerge.Proofs.Number.Reading
import RecordMerge.Proofs.Value.Size

/-! The numbers of a value, and what comes of it when they are stored: which numbers are written, and
which ones end the storing with something else than an invalid value. -/

set_option autoImplicit false

namespace RecordMerge

open Attribute (Kept)
open Number (Binary64 Bounds Decimal Signal)

/-- Infinity and not-a-number as the check for them knows them; a not-a-number whose payload is too
long loses its payload first. -/
def Number.Decimal.Noticed : Decimal → Prop
  | .finite _ _ _ => False
  | .infinite negative => negative = false
  | .nan negative signaling payload =>
    (negative = false ∧ signaling = false ∧ payload = 0) ∨
      Bounds.storage.precision < (Number.numeral payload).length

/-- Neither finite nor noticed: minus infinity, and a not-a-number with a sign, a signal or a
payload. -/
def Number.Decimal.Unnoticed (amount : Decimal) : Prop :=
  (∀ negative coefficient exponent, amount ≠ .finite negative coefficient exponent) ∧
    ¬ amount.Noticed

namespace Value

/-- What comes of a number: it is written as it is, or nothing is. -/
theorem storeNumber_cases (amount : Decimal) :
    (Kept amount ∨ amount.Unnoticed) ∧ storeNumber amount = .ok amount ∨
      (∃ signal, Bounds.storage.fit amount = .error signal ∧
        storeNumber amount = .error (.arithmetic signal)) ∨
      amount.Noticed ∧ storeNumber amount = .error (.storage .notFinite) := by
  cases amount with
  | finite negative coefficient exponent =>
    cases fits : Bounds.storage.fit (.finite negative coefficient exponent) with
    | error signal => exact .inr (.inl ⟨signal, rfl, by rw [storeNumber, fits]⟩)
    | ok kept =>
      cases Bounds.fit_finite fits
      exact .inl ⟨.inl ⟨⟨_, _, _, rfl⟩, fits⟩, by rw [storeNumber, fits]; simp⟩
  | infinite negative =>
    cases negative <;> simp [storeNumber, Bounds.fit, Decimal.Unnoticed, Decimal.Noticed]
  | nan negative signaling payload =>
    have one : (Number.numeral 0).length ≤ Bounds.storage.precision := by decide
    rcases Nat.lt_or_ge Bounds.storage.precision (Number.numeral payload).length with long | short
    · have marked : payload ≠ 0 := by
        rintro rfl
        exact absurd one (Nat.not_le.mpr long)
      simp [storeNumber, Bounds.fit, Decimal.Noticed, long, marked]
    · have kept : Bounds.storage.fit (.nan negative signaling payload) =
          .ok (.nan negative signaling payload) := by
        simp [Bounds.fit, Nat.not_lt.mpr short]
      by_cases bare : negative = false ∧ signaling = false ∧ payload = 0
      · obtain ⟨rfl, rfl, rfl⟩ := bare
        exact .inr (.inr ⟨.inl ⟨rfl, rfl, rfl⟩, rfl⟩)
      · simp [storeNumber, kept, Decimal.Unnoticed, Decimal.Noticed, bare, Nat.not_lt.mpr short]

/-- The number that a value stands for, as it is written. -/
def number? : Value → Option Decimal
  | .float number => some number.shortestDecimal
  | value => value.decimal?

/-- A number at some place of a value. Keys of maps are texts, whatever they were. -/
inductive Holds (amount : Decimal) : Value → Prop where
  | here {value : Value} (written : value.number? = some amount) : Holds amount value
  | inside {part value : Value} (inner : part.PartOf value) (held : Holds amount part) :
      Holds amount value

end Value

/-- A number at some place of a stored value, also in a set. -/
inductive Attribute.Holds (amount : Decimal) : Attribute → Prop where
  | number : Holds amount (.number amount)
  | numbers {elements : List Decimal} (member : amount ∈ elements) : Holds amount (.numbers elements)
  | list {elements : List Attribute} {element : Attribute} (member : element ∈ elements)
      (held : Holds amount element) : Holds amount (.list elements)
  | map {entries : Item} {name : String} {element : Attribute} (member : (name, element) ∈ entries)
      (held : Holds amount element) : Holds amount (.map entries)

namespace Value

section Plain

variable {failure : Failure}

theorem exists_of_plainAll_eq_error {dropUnset : Bool} {elements : List Value}
    (failed : plainAll dropUnset elements = .error failure) :
    ∃ element ∈ elements, plain element = .error failure := by
  induction elements with
  | nil => simp [plainAll] at failed
  | cons first rest tail =>
    rw [plainAll] at failed
    split at failed
    · obtain ⟨element, member, here⟩ := tail failed
      exact ⟨element, List.mem_cons_of_mem _ member, here⟩
    · simp only [bind_eq_error_iff] at failed
      rcases failed with here | ⟨made, -, later | ⟨others, -, built⟩⟩
      · exact ⟨first, List.mem_cons_self, here⟩
      · obtain ⟨element, member, there⟩ := tail later
        exact ⟨element, List.mem_cons_of_mem _ member, there⟩
      · cases built

theorem exists_of_plainMembers_eq_error {elements : List Value}
    (failed : plainMembers elements = .error failure) :
    (∃ element ∈ elements, plain element = .error failure) ∨
      ∃ member, failure = .storage (.unhashable member) := by
  induction elements with
  | nil => simp [plainMembers] at failed
  | cons first rest tail =>
    rw [plainMembers, bind_eq_error_iff] at failed
    rcases failed with here | ⟨member, -, later⟩
    · exact .inl ⟨first, List.mem_cons_self, here⟩
    split at later
    · rcases bind_eq_error_iff.mp later with following | ⟨others, -, built⟩
      · exact (tail following).imp_left fun ⟨element, inner, there⟩ =>
          ⟨element, List.mem_cons_of_mem _ inner, there⟩
      · cases built
    · cases later
      exact .inr ⟨member, rfl⟩

theorem exists_of_plainEntries_eq_error {entries : Record}
    (failed : plainEntries entries = .error failure) :
    (∃ key value, (key, value) ∈ entries ∧ plain value = .error failure) ∨
      failure = .storage .keyWithoutText := by
  induction entries with
  | nil => simp [plainEntries] at failed
  | cons entry rest tail =>
    obtain ⟨key, value⟩ := entry
    have later (following : plainEntries rest = .error failure) :
        (∃ other held, (other, held) ∈ (key, value) :: rest ∧ plain held = .error failure) ∨
          failure = .storage .keyWithoutText := by
      refine (tail following).imp_left ?_
      rintro ⟨other, held, inner, there⟩
      exact ⟨other, held, List.mem_cons_of_mem _ inner, there⟩
    rw [plainEntries] at failed
    split at failed
    · exact later failed
    · split at failed
      · cases failed
        exact .inr rfl
      · simp only [bind_eq_error_iff] at failed
        rcases failed with here | ⟨first, -, following | ⟨others, -, built⟩⟩
        · exact .inl ⟨key, value, List.mem_cons_self, here⟩
        · exact later following
        · cases built

/-- A value that has no plain form has no stored form either. -/
theorem fault_of_plain_eq_error {value : Value} (failed : plain value = .error failure) :
    ∃ fault, failure = .storage fault := by
  induction value using part_induction with
  | step value parts =>
    cases value with
    | list elements =>
      rw [plain, bind_eq_error_iff] at failed
      rcases failed with inner | ⟨made, -, built⟩
      · obtain ⟨element, member, there⟩ := exists_of_plainAll_eq_error inner
        exact parts element (.list member) there
      · cases built
    | tuple elements =>
      rw [plain, bind_eq_error_iff] at failed
      rcases failed with inner | ⟨made, -, built⟩
      · obtain ⟨element, member, there⟩ := exists_of_plainAll_eq_error inner
        exact parts element (.tuple member) there
      · cases built
    | set frozen elements =>
      cases elements with
      | nil =>
        cases failed
        exact ⟨_, rfl⟩
      | cons first rest =>
        rw [plain, bind_eq_error_iff] at failed
        · rcases failed with inner | ⟨made, -, built⟩
          · rcases exists_of_plainMembers_eq_error inner with ⟨element, member, there⟩ | ⟨_, rfl⟩
            · exact parts element (.set member) there
            · exact ⟨_, rfl⟩
          · cases built
        · exact List.cons_ne_nil first rest
    | map entries =>
      rw [plain, bind_eq_error_iff] at failed
      rcases failed with inner | ⟨made, -, built⟩
      · rcases exists_of_plainEntries_eq_error inner with ⟨key, held, member, there⟩ | rfl
        · exact parts held (.map member) there
        · exact ⟨_, rfl⟩
      · cases built
    | _ => simp [plain] at failed

theorem exists_of_mem_plainEntries {entries : Record} {pairs : List (String × Value)}
    {pair : String × Value} (plained : plainEntries entries = .ok pairs) (member : pair ∈ pairs) :
    ∃ key value, (key, value) ∈ entries ∧ plain value = .ok pair.2 := by
  induction entries generalizing pairs with
  | nil =>
    cases plained
    cases member
  | cons entry rest tail =>
    obtain ⟨key, value⟩ := entry
    have later {others : List (String × Value)} (following : plainEntries rest = .ok others)
        (inner : pair ∈ others) :
        ∃ other held, (other, held) ∈ (key, value) :: rest ∧ plain held = .ok pair.2 := by
      obtain ⟨other, held, member, there⟩ := tail following inner
      exact ⟨other, held, List.mem_cons_of_mem _ member, there⟩
    rw [plainEntries] at plained
    split at plained
    · exact later plained member
    · split at plained
      · cases plained
      · simp only [bind_eq_ok_iff] at plained
        obtain ⟨first, here, others, following, built⟩ := plained
        cases built
        rcases List.mem_cons.mp member with rfl | inner
        · exact ⟨key, value, List.mem_cons_self, here⟩
        · exact later following inner

theorem exists_of_mem_plainAll {elements plained : List Value} {part : Value}
    (done : plainAll true elements = .ok plained) (member : part ∈ plained) :
    ∃ source ∈ elements, plain source = .ok part := by
  have each : ∀ made ∈ plained, ∃ source ∈ elements, plain source = .ok made :=
    forall_right_of_each (plainAll_eq_ok_iff.mp done) fun source inner made here =>
      ⟨source, List.mem_of_mem_filter inner, here⟩
  exact each part member

/-- Each part of a plain form is the plain form of a part. -/
theorem exists_of_partOf_plain {value made part : Value} (plained : plain value = .ok made)
    (inner : part.PartOf made) : ∃ source : Value, source.PartOf value ∧ plain source = .ok part := by
  cases value with
  | list elements =>
    obtain ⟨row, done, built⟩ := bind_eq_ok_iff.mp plained
    cases built
    cases inner with
    | list member =>
      obtain ⟨source, found, here⟩ := exists_of_mem_plainAll done member
      exact ⟨source, .list found, here⟩
  | tuple elements =>
    obtain ⟨row, done, built⟩ := bind_eq_ok_iff.mp plained
    cases built
    cases inner with
    | list member =>
      obtain ⟨source, found, here⟩ := exists_of_mem_plainAll done member
      exact ⟨source, .tuple found, here⟩
  | set frozen elements =>
    cases elements with
    | nil => cases plained
    | cons first rest =>
      obtain ⟨members, done, built⟩ := bind_eq_ok_iff.mp plained
      cases built
      cases inner with
      | set member =>
        have each : ∀ made ∈ members, ∃ source : Value,
            source.PartOf (.set frozen (first :: rest)) ∧ plain source = .ok made :=
          forall_right_of_each (plainMembers_eq_ok_iff.mp done) fun source found made here =>
            ⟨source, .set found, here.1⟩
        exact each part (mem_of_mem_distinct member)
  | map entries =>
    obtain ⟨pairs, done, built⟩ := bind_eq_ok_iff.mp plained
    cases built
    cases inner with
    | map member =>
      obtain ⟨pair, found, same⟩ := List.mem_map.mp member
      cases same
      obtain ⟨key, source, found, here⟩ :=
        exists_of_mem_plainEntries done (Entries.mem_of_mem_ofPairs found)
      exact ⟨source, .map found, here⟩
  | _ =>
    cases plained
    cases inner

theorem number?_of_plain {value made : Value} (plained : plain value = .ok made) :
    made.number? = value.number? := by
  cases value with
  | list elements | tuple elements | map entries =>
    obtain ⟨row, -, built⟩ := bind_eq_ok_iff.mp plained
    cases built
    rfl
  | set frozen elements =>
    cases elements with
    | nil => cases plained
    | cons first rest =>
      obtain ⟨row, -, built⟩ := bind_eq_ok_iff.mp plained
      cases built
      rfl
  | _ =>
    cases plained
    rfl

/-- The numbers of a plain form are numbers of the value. -/
theorem holds_of_plain {value made : Value} {amount : Decimal} (plained : plain value = .ok made)
    (held : made.Holds amount) : value.Holds amount := by
  induction held generalizing value with
  | here written => exact .here (number?_of_plain plained ▸ written)
  | inside inner held within =>
    obtain ⟨source, found, there⟩ := exists_of_partOf_plain plained inner
    exact .inside found (within there)

end Plain

section Encode

theorem number?_of_decimal? {value : Value} {amount : Decimal} (read : value.decimal? = some amount) :
    value.number? = some amount := by
  cases value <;> simp_all [number?, decimal?]

theorem number?_of_mem_readAll {elements : List Value} {amounts : List Decimal} {amount : Decimal}
    (read : readAll decimal? elements = some amounts) (member : amount ∈ amounts) :
    ∃ element ∈ elements, element.number? = some amount := by
  induction elements generalizing amounts with
  | nil =>
    cases read
    cases member
  | cons first rest tail =>
    simp only [readAll, bind, Option.bind_eq_some_iff, Option.some.injEq] at read
    obtain ⟨number, here, others, following, rfl⟩ := read
    rcases List.mem_cons.mp member with rfl | later
    · exact ⟨first, List.mem_cons_self, number?_of_decimal? here⟩
    · obtain ⟨element, inner, there⟩ := tail following later
      exact ⟨element, List.mem_cons_of_mem _ inner, there⟩

theorem storeNumber_eq_ok {amount stored : Decimal} (done : storeNumber amount = .ok stored) :
    stored = amount ∧ (Kept amount ∨ amount.Unnoticed) := by
  rcases storeNumber_cases amount with ⟨kept, written⟩ | ⟨signal, -, written⟩ | ⟨-, written⟩
  · exact ⟨Except.ok.inj (done.symm.trans written), kept⟩
  · cases done.symm.trans written
  · cases done.symm.trans written

theorem exists_of_mem_encodeAll {elements : List Value} {row : List Attribute} {stored : Attribute}
    (done : encodeAll elements = .ok row) (member : stored ∈ row) :
    ∃ source ∈ elements, encode source = .ok stored := by
  have each : ∀ made ∈ row, ∃ source ∈ elements, encode source = .ok made :=
    forall_right_of_each (encodeAll_eq_ok_iff.mp done) fun source inner made here =>
      ⟨source, inner, here⟩
  exact each stored member

/-- Entries are written as the row of their values is, each under the text of its key. -/
theorem encodeEntries_eq_zip (entries : Record) :
    encodeEntries entries = encodeAll (entries.map Prod.snd) >>= fun row =>
      .ok ((entries.map fun entry => entry.1.toText).zip row) := by
  induction entries with
  | nil => rfl
  | cons entry rest tail =>
    simp only [encodeEntries, tail, List.map_cons, encodeAll]
    cases encode entry.2 with
    | error failure => rfl
    | ok first => cases encodeAll (rest.map Prod.snd) <;> rfl

theorem exists_of_mem_encodeEntries {entries : Record} {item : Item} {name : String}
    {stored : Attribute} (done : encodeEntries entries = .ok item) (member : (name, stored) ∈ item) :
    ∃ key value, (key, value) ∈ entries ∧ encode value = .ok stored := by
  rw [encodeEntries_eq_zip, bind_eq_ok_iff] at done
  obtain ⟨row, written, built⟩ := done
  cases built
  obtain ⟨value, held, here⟩ := exists_of_mem_encodeAll written (List.of_mem_zip member).2
  obtain ⟨⟨key, _⟩, found, rfl⟩ := List.mem_map.mp held
  exact ⟨key, _, found, here⟩

theorem holds_of_storeSet {frozen : Bool} {elements : List Value} {stored : Attribute}
    {amount : Decimal} (done : storeSet frozen elements = .ok stored) (held : stored.Holds amount) :
    (Value.set frozen elements).Holds amount ∧ (Kept amount ∨ amount.Unnoticed) := by
  rw [storeSet] at done
  split at done
  · next amounts read =>
    obtain ⟨row, written, built⟩ := bind_eq_ok_iff.mp done
    cases built
    cases held with
    | numbers member =>
      have each : ∀ made ∈ row, made ∈ amounts ∧ (Kept made ∨ made.Unnoticed) :=
        forall_right_of_each (mapM_storeNumber_eq_ok_iff.mp written) fun source inner made here => by
          obtain ⟨rfl, kept⟩ := storeNumber_eq_ok here
          exact ⟨inner, kept⟩
      obtain ⟨inner, kept⟩ := each amount member
      obtain ⟨element, found, read⟩ := number?_of_mem_readAll read inner
      exact ⟨.inside (.set found) (.here read), kept⟩
  · cases done
    cases held
  · cases done
    cases held
  · cases done

/-- Every number that is written is one of the value. -/
theorem holds_of_encode {value : Value} {stored : Attribute} {amount : Decimal}
    (done : encode value = .ok stored) (held : stored.Holds amount) :
    value.Holds amount ∧ (Kept amount ∨ amount.Unnoticed) := by
  induction value using part_induction generalizing stored with
  | step value parts =>
    cases value with
    | int number | decimal number =>
      obtain ⟨made, written, built⟩ := bind_eq_ok_iff.mp done
      obtain ⟨rfl, kept⟩ := storeNumber_eq_ok written
      cases built
      cases held
      exact ⟨.here rfl, kept⟩
    | list elements =>
      obtain ⟨row, written, built⟩ := bind_eq_ok_iff.mp done
      cases built
      cases held with
      | list member held =>
        obtain ⟨source, found, here⟩ := exists_of_mem_encodeAll written member
        exact (parts source (.list found) here held).imp_left (.inside (.list found))
    | tuple elements =>
      obtain ⟨row, written, built⟩ := bind_eq_ok_iff.mp done
      cases built
      cases held with
      | list member held =>
        obtain ⟨source, found, here⟩ := exists_of_mem_encodeAll written member
        exact (parts source (.tuple found) here held).imp_left (.inside (.tuple found))
    | map entries =>
      obtain ⟨item, written, built⟩ := bind_eq_ok_iff.mp done
      cases built
      cases held with
      | map member held =>
        obtain ⟨key, source, found, here⟩ := exists_of_mem_encodeEntries written member
        exact (parts source (.map found) here held).imp_left (.inside (.map found))
    | set frozen elements => exact holds_of_storeSet done held
    | bytes form content => cases form <;> cases done <;> cases held
    | null | bool | text =>
      cases done
      cases held
    | _ => cases done

theorem exists_of_encodeAll_eq_error {elements : List Value} {failure : Failure}
    (failed : encodeAll elements = .error failure) :
    ∃ element ∈ elements, encode element = .error failure := by
  have first : encodeAll elements = .error failure ↔ FirstFault encode elements failure :=
    row_eq_error_iff rfl fun _ _ => rfl
  exact (first.mp failed).exists

theorem exists_of_mapM_eq_error {amounts : List Decimal} {failure : Failure}
    (failed : amounts.mapM storeNumber = .error failure) :
    ∃ amount ∈ amounts, storeNumber amount = .error failure := by
  have first : amounts.mapM storeNumber = .error failure ↔ FirstFault storeNumber amounts failure :=
    row_eq_error_iff rfl fun _ _ => List.mapM_cons
  exact (first.mp failed).exists

theorem exists_of_encodeEntries_eq_error {entries : Record} {failure : Failure}
    (failed : encodeEntries entries = .error failure) :
    ∃ key value, (key, value) ∈ entries ∧ encode value = .error failure := by
  rw [encodeEntries_eq_zip, bind_eq_error_iff] at failed
  rcases failed with inner | ⟨row, -, built⟩
  · obtain ⟨value, held, here⟩ := exists_of_encodeAll_eq_error inner
    obtain ⟨⟨key, _⟩, found, rfl⟩ := List.mem_map.mp held
    exact ⟨key, _, found, here⟩
  · cases built

/-- The value has no stored form, or a number of it does not fit. -/
def Blamed (value : Value) (failure : Failure) : Prop :=
  (∃ fault, failure = .storage fault) ∨
    ∃ amount signal, value.Holds amount ∧ Bounds.storage.fit amount = .error signal ∧
      failure = .arithmetic signal

theorem Blamed.of_part {part value : Value} {failure : Failure} (blamed : part.Blamed failure)
    (inner : part.PartOf value) : value.Blamed failure :=
  blamed.imp_right fun ⟨amount, signal, held, lost, same⟩ =>
    ⟨amount, signal, .inside inner held, lost, same⟩

theorem blamed_of_storeNumber {value : Value} {amount : Decimal} {failure : Failure}
    (written : value.number? = some amount) (failed : storeNumber amount = .error failure) :
    value.Blamed failure := by
  rcases storeNumber_cases amount with ⟨-, stored⟩ | ⟨signal, lost, refused⟩ | ⟨-, refused⟩
  · cases failed.symm.trans stored
  · exact .inr ⟨amount, signal, .here written, lost, Except.error.inj (failed.symm.trans refused)⟩
  · cases failed.symm.trans refused
    exact .inl ⟨_, rfl⟩

theorem blamed_of_storeSet {frozen : Bool} {elements : List Value} {failure : Failure}
    (failed : storeSet frozen elements = .error failure) :
    (Value.set frozen elements).Blamed failure := by
  rw [storeSet] at failed
  split at failed
  · next amounts read =>
    rcases bind_eq_error_iff.mp failed with refused | ⟨row, -, built⟩
    · obtain ⟨amount, member, here⟩ := exists_of_mapM_eq_error refused
      obtain ⟨element, found, number⟩ := number?_of_mem_readAll read member
      exact (blamed_of_storeNumber number here).of_part (.set found)
    · cases built
  · cases failed
  · cases failed
  · cases failed
    exact .inl ⟨_, rfl⟩

/-- What fails when a value is written is the value, or one of its numbers. -/
theorem blamed_of_encode {value : Value} {failure : Failure}
    (failed : encode value = .error failure) : value.Blamed failure := by
  induction value using part_induction with
  | step value parts =>
    cases value with
    | int number | decimal number =>
      rcases bind_eq_error_iff.mp failed with refused | ⟨made, -, built⟩
      · exact blamed_of_storeNumber rfl refused
      · cases built
    | list elements =>
      rcases bind_eq_error_iff.mp failed with refused | ⟨row, -, built⟩
      · obtain ⟨element, found, here⟩ := exists_of_encodeAll_eq_error refused
        exact (parts element (.list found) here).of_part (.list found)
      · cases built
    | tuple elements =>
      rcases bind_eq_error_iff.mp failed with refused | ⟨row, -, built⟩
      · obtain ⟨element, found, here⟩ := exists_of_encodeAll_eq_error refused
        exact (parts element (.tuple found) here).of_part (.tuple found)
      · cases built
    | map entries =>
      rcases bind_eq_error_iff.mp failed with refused | ⟨item, -, built⟩
      · obtain ⟨key, held, found, here⟩ := exists_of_encodeEntries_eq_error refused
        exact (parts held (.map found) here).of_part (.map found)
      · cases built
    | set frozen elements => exact blamed_of_storeSet failed
    | bytes form content => cases form <;> cases failed
    | null | bool | text => cases failed
    | _ =>
      cases failed
      exact .inl ⟨_, rfl⟩

end Encode

/-- A value that is not stored has no stored form, or has a number that does not fit. -/
theorem blamed_of_store {value : Value} {failure : Failure} (failed : value.store = .error failure) :
    value.Blamed failure := by
  rcases bind_eq_error_iff.mp failed with here | ⟨made, plained, encoded⟩
  · exact .inl (fault_of_plain_eq_error here)
  · refine (blamed_of_encode encoded).imp_right ?_
    rintro ⟨amount, signal, held, lost, same⟩
    exact ⟨amount, signal, holds_of_plain plained held, lost, same⟩

/-- Storing the value ends with an invalid value, or every number that is written has the text of a
finite one. -/
def StoresFinite (value : Value) : Prop :=
  (∀ failure, value.store = .error failure → failure.kind? = some .invalid) ∧
    ∀ stored, value.store = .ok stored → ∀ amount, stored.Holds amount →
      ∃ negative coefficient exponent,
        Decimal.ofText? amount.text = some (.finite negative coefficient exponent)

/-- What comes of the numbers of a value when it is stored. -/
structure Accounts (value : Value) : Prop where
  /-- A number by itself is kept within the bounds, lost outside them, or noticed. -/
  alone : ∀ amount, value.number? = some amount → (∀ flag, value ≠ .bool flag) →
    (Kept amount ∨ amount.Unnoticed) ∧ value.store = .ok (.number amount) ∨
      (∃ signal, Bounds.storage.fit amount = .error signal ∧
        value.store = .error (.arithmetic signal)) ∨
      amount.Noticed ∧ value.store = .error (.storage .notFinite)
  /-- A value that is not stored is an invalid one, or a number of it does not fit. -/
  refused : ∀ failure, value.store = .error failure → failure.kind? = some .invalid ∨
    ∃ amount signal, value.Holds amount ∧ Bounds.storage.fit amount = .error signal ∧
      failure = .arithmetic signal
  /-- Each number that is written is one of the value, with a finite text unless it is unnoticed. -/
  written : ∀ stored, value.store = .ok stored → ∀ amount, stored.Holds amount →
    value.Holds amount ∧
      (Kept amount ∧ Decimal.ofText? amount.text = some amount ∨ amount.Unnoticed)
  finite : (∀ amount, value.Holds amount →
      ¬ amount.Unnoticed ∧ ∃ kept, Bounds.storage.fit amount = .ok kept) →
    value.StoresFinite

theorem store_number {value : Value} {amount : Decimal} (written : value.number? = some amount)
    (number : ∀ flag, value ≠ .bool flag) :
    value.store = (storeNumber amount).map Attribute.number := by
  cases value with
  | bool flag => exact absurd rfl (number flag)
  | int | float | decimal =>
    cases written
    simp only [store, plain, bind, Except.bind, encode]
    cases storeNumber _ <;> rfl
  | _ => cases written

/-- Numbers end the storing only if they do not fit, and no other than finite ones are written except
those that no check notices. -/
theorem store_accounts (value : Value) : value.Accounts := by
  have refused (failure : Failure) (failed : value.store = .error failure) :
      failure.kind? = some .invalid ∨ ∃ amount signal, value.Holds amount ∧
        Bounds.storage.fit amount = .error signal ∧ failure = .arithmetic signal := by
    refine (blamed_of_store failed).imp_left ?_
    rintro ⟨fault, rfl⟩
    rfl
  have written (stored : Attribute) (done : value.store = .ok stored) (amount : Decimal)
      (held : stored.Holds amount) : value.Holds amount ∧
        (Kept amount ∧ Decimal.ofText? amount.text = some amount ∨ amount.Unnoticed) := by
    obtain ⟨made, plained, encoded⟩ := bind_eq_ok_iff.mp done
    obtain ⟨inner, kept⟩ := holds_of_encode encoded held
    refine ⟨holds_of_plain plained inner, kept.imp_left fun kept => ⟨kept, ?_⟩⟩
    obtain ⟨⟨negative, coefficient, exponent, rfl⟩, -⟩ := kept
    exact Decimal.ofText?_text negative coefficient exponent
  refine ⟨fun amount number plain => ?_, refused, written, fun fits => ⟨?_, ?_⟩⟩
  · rw [store_number number plain]
    rcases storeNumber_cases amount with ⟨kept, stored⟩ | ⟨signal, lost, failed⟩ | ⟨noticed, failed⟩
    · exact .inl ⟨kept, by rw [stored]; rfl⟩
    · exact .inr (.inl ⟨signal, lost, by rw [failed]; rfl⟩)
    · exact .inr (.inr ⟨noticed, by rw [failed]; rfl⟩)
  · intro failure failed
    rcases refused failure failed with invalid | ⟨amount, signal, held, lost, -⟩
    · exact invalid
    · obtain ⟨-, kept, whole⟩ := fits amount held
      cases lost.symm.trans whole
  · intro stored done amount held
    obtain ⟨inner, ⟨kept, text⟩ | unnoticed⟩ := written stored done amount held
    · obtain ⟨⟨negative, coefficient, exponent, rfl⟩, -⟩ := kept
      exact ⟨negative, coefficient, exponent, text⟩
    · exact absurd unnoticed (fits amount inner).1

/-- A row of numbers, and a set of numbers with a truth value among them. -/
def readings : Value :=
  .map [(.text "level", .tuple [.int (-7), .decimal (.finite false 1250 (-2))]),
    (.text "marks", .set true [.bool true, .decimal (.finite false 25 (-1))])]

theorem holds_readings {amount : Decimal} (held : readings.Holds amount) :
    amount ∈ [.finite true 7 0, .finite false 1250 (-2), .finite false 1 0,
      Decimal.finite false 25 (-1)] := by
  cases held with
  | here written => cases written
  | inside outer held =>
    cases outer with
    | map member =>
      simp only [List.mem_cons, Prod.mk.injEq, List.not_mem_nil, or_false] at member
      obtain ⟨-, rfl⟩ | ⟨-, rfl⟩ := member
      all_goals
        cases held with
        | here written => cases written
        | inside inner held =>
          cases inner
          rename_i member
          simp only [List.mem_cons, List.not_mem_nil, or_false] at member
          obtain rfl | rfl := member
          all_goals
            cases held with
            | here written =>
              cases written
              decide
            | inside none => cases none

theorem store_accounts_readings :
    readings.store = .ok (.map [
        ("level", .list [.number (.finite true 7 0), .number (.finite false 1250 (-2))]),
        ("marks", .numbers [.finite false 1 0, .finite false 25 (-1)])]) ∧
      readings.StoresFinite := by
  refine ⟨rfl, (store_accounts readings).finite fun amount held => ?_⟩
  have listed := holds_readings held
  simp only [List.mem_cons, List.not_mem_nil, or_false] at listed
  obtain rfl | rfl | rfl | rfl := listed
  all_goals exact ⟨fun unnoticed => unnoticed.1 _ _ _ rfl, _, rfl⟩

/-- Minus infinity is written, and a whole number of too many digits ends the storing as no invalid
value does. -/
theorem minus_infinity_stored :
    (Value.list [.float (.infinite true)]).store = .ok (.list [.number (.infinite true)]) ∧
      (Decimal.infinite true).text = "-Infinity" ∧
      ¬ (Value.list [.float (.infinite true)]).StoresFinite ∧
      (Value.int (10 ^ 38 + 1)).store = .error (.arithmetic .inexact) ∧
      ¬ (Value.int (10 ^ 38 + 1)).StoresFinite := by
  have stored : (Value.list [.float (.infinite true)]).store =
      .ok (.list [.number (.infinite true)]) := rfl
  have lost : (Value.int (10 ^ 38 + 1)).store = .error (.arithmetic .inexact) := rfl
  refine ⟨stored, by decide, fun finite => ?_, lost, fun finite => ?_⟩
  · obtain ⟨negative, coefficient, exponent, read⟩ :=
      finite.2 _ stored _ (.list List.mem_cons_self .number)
    have infinite : Decimal.ofText? (Decimal.infinite true).text = some (.infinite true) := by decide
    cases infinite.symm.trans read
  · cases finite.1 _ lost

end Value

end RecordMerge

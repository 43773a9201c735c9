import Mathlib.Data.List.Forall2
import RecordMerge.Proofs.Record.Names
import RecordMerge.Value.Equality

/-! Equality of rows, maps and numbers: element by element, name by name, and by what numbers
denote. -/

set_option autoImplicit false

namespace RecordMerge.Value

open Number (Binary64 Quantity)

/-- A comparison goes on after a first pair exactly if that pair is equal. -/
theorem compare?_bind_iff {left right : Value} {rest : Option Bool} :
    ((compare? left right).bind fun equal => if equal then rest else some false) = some true ↔
      same left right = true ∧ rest = some true := by
  rw [same, beq_iff_eq]
  cases compare? left right with
  | none => simp
  | some equal => cases equal <;> simp

theorem compareElements?_iff {first second : List Value} :
    compareElements? first second = some true ↔
      List.Forall₂ (fun left right => same left right = true) first second := by
  induction first generalizing second with
  | nil => cases second <;> simp [compareElements?]
  | cons left rest tail =>
    cases second with
    | nil => simp [compareElements?]
    | cons right others => rw [compareElements?, compare?_bind_iff, tail, List.forall₂_cons]

/-- Two lists are equal exactly if their elements are, one by one. -/
theorem same_list_iff {first second : List Value} :
    same (.list first) (.list second) = true ↔
      List.Forall₂ (fun left right => same left right = true) first second := by
  rw [← compareElements?_iff, same, beq_iff_eq, compare?]
  split
  · rfl
  · next differ =>
    rw [compareElements?_iff]
    constructor
    · intro equal
      cases equal
    · exact fun pairs => absurd pairs.length_eq differ

theorem same_tuple_list (first second : List Value) :
    same (.tuple first) (.list second) = false := by
  simp [same, compare?, compareNumbers?, isNumeric]

theorem eq_text_of_compare? {key : Value} {name : String}
    (equal : compare? key (.text name) = some true) : key = .text name := by
  cases key with
  | text content => simpa using equal
  | _ => simp [compare?, compareNumbers?, isNumeric] at equal

theorem exists_key_of_compareEntries? {first second : Record}
    (equal : compareEntries? first second = some true) {entry : Value × Value}
    (member : entry ∈ first) : ∃ other ∈ second, compare? entry.1 other.1 = some true := by
  induction first with
  | nil => cases member
  | cons pair rest tail =>
    obtain ⟨key, value⟩ := pair
    rw [compareEntries?] at equal
    split at equal
    · cases equal
    · next other found =>
      rcases List.mem_cons.mp member with rfl | later
      · exact ⟨other, List.mem_of_find?_eq_some found, by simpa using List.find?_some found⟩
      · exact tail (compare?_bind_iff.mp equal).2 later

/-- A map that equals a named one has as many entries, and texts for keys. -/
theorem texts_of_same {first second : Record} (names : second.named = true)
    (equal : same (.map first) (.map second) = true) :
    first.length = second.length ∧ ∀ entry ∈ first, ∃ name, entry.1 = .text name := by
  rw [same, beq_iff_eq, compare?] at equal
  split at equal
  · next length =>
    refine ⟨length, fun entry member => ?_⟩
    obtain ⟨other, held, alike⟩ := exists_key_of_compareEntries? equal member
    obtain ⟨name, text, -⟩ := Record.get?_of_mem names held
    exact ⟨name, eq_text_of_compare? (text ▸ alike)⟩
  · cases equal

/-- The entry under an equal key is the one that has the name. -/
theorem find?_entry {record : Record} (names : record.named = true) (name : String) :
    (record.find? fun entry => compare? (.text name) entry.1 == some true) =
      (record.get? name).map fun value => (.text name, value) := by
  fun_induction Record.named record with
  | case1 => rfl
  | case2 key value rest tail =>
    obtain ⟨-, others⟩ := (Record.named_cons_iff value).mp names
    by_cases same : key = name
    · simp [Record.get?, same]
    · simp [Record.get?, same, Ne.symm same, tail others]
  | case3 => cases names

theorem compareEntries?_iff {first second : Record} (names : first.named = true)
    (others : second.named = true) :
    compareEntries? first second = some true ↔ ∀ entry ∈ first,
      ∃ name value, entry.1 = .text name ∧ second.get? name = some value ∧
        same entry.2 value = true := by
  fun_induction Record.named first with
  | case1 => simp [compareEntries?]
  | case2 key value rest tail =>
    obtain ⟨-, later⟩ := (Record.named_cons_iff value).mp names
    rw [compareEntries?, find?_entry others, List.forall_mem_cons, ← tail later]
    cases found : second.get? key with
    | none => simp [found]
    | some other => simp [found, compare?_bind_iff]
  | case3 => cases names

/-- Two named maps are equal exactly if they have as many entries and equal values by name. -/
theorem same_map_iff {first second : Record} (names : first.named = true)
    (others : second.named = true) :
    same (.map first) (.map second) = true ↔ first.length = second.length ∧ ∀ entry ∈ first,
      ∃ name value, entry.1 = .text name ∧ second.get? name = some value ∧
        same entry.2 value = true := by
  rw [← compareEntries?_iff names others, same, beq_iff_eq, compare?]
  split <;> simp [*]

theorem includedIn_iff {first second : List Value} :
    includedIn first second = true ↔
      ∀ element ∈ first, ∃ other ∈ second, same element other = true := by
  induction first with
  | nil => simp [includedIn]
  | cons element rest tail =>
    rw [includedIn, Bool.and_eq_true, List.any_eq_true, tail, List.forall_mem_cons]
    rfl

/-- Two sets are equal exactly if they have as many elements and the second one has an equal element
to each of the first one. -/
theorem same_set_iff {frozen frozen' : Bool} {first second : List Value} :
    same (.set frozen first) (.set frozen' second) = true ↔ first.length = second.length ∧
      ∀ element ∈ first, ∃ other ∈ second, same element other = true := by
  rw [← includedIn_iff, same, beq_iff_eq, compare?, Option.some.injEq, Bool.and_eq_true, beq_iff_eq]

theorem exists_quantity_float (negative : Bool) (biased : Fin 2047)
    (fraction : Fin 4503599627370496) :
    ∃ quantity, Quantity.ofBinary64? (.finite negative biased fraction) = some quantity := by
  rw [Quantity.ofBinary64?, Binary64.toDecimal]
  dsimp only
  split <;> exact ⟨_, rfl⟩

theorem numeric_of_quantity {value : Value} {quantity : Quantity}
    (denoted : value.quantity? = some quantity) :
    value.isNumeric = true ∧ value.isSignaling = false := by
  cases value with
  | bool | int | float => exact ⟨rfl, rfl⟩
  | decimal number =>
    cases number with
    | finite | infinite => exact ⟨rfl, rfl⟩
    | nan => cases denoted
  | _ => cases denoted

theorem compare?_of_numeric {first : Value} (numeric : first.isNumeric = true) (second : Value) :
    compare? first second = compareNumbers? first second := by
  cases first with
  | bool | int | float | decimal => cases second <;> rfl
  | _ => cases numeric

/-- Two numbers are equal exactly if they denote the same quantity. -/
theorem same_of_quantity {first second : Value} {left right : Quantity}
    (denotesLeft : first.quantity? = some left) (denotesRight : second.quantity? = some right) :
    same first second = (left == right) := by
  obtain ⟨numericLeft, silentLeft⟩ := numeric_of_quantity denotesLeft
  obtain ⟨numericRight, silentRight⟩ := numeric_of_quantity denotesRight
  rw [same, compare?_of_numeric numericLeft, compareNumbers?, numericLeft, numericRight, silentLeft,
    silentRight, sameQuantity, denotesLeft, denotesRight]
  simp

/-- A number that is none equals nothing. -/
theorem same_of_no_quantity {value : Value} (numeric : value.isNumeric = true)
    (none : value.quantity? = none) (other : Value) : same value other = false := by
  rw [same, compare?_of_numeric numeric, compareNumbers?, sameQuantity, none]
  split
  · split <;> rfl
  · rfl

/-- No value can tell the two apart. -/
def Alike (first second : Value) : Prop :=
  ∀ value, compare? first value = compare? second value ∧
    compare? value first = compare? value second

theorem compare?_of_numeric_right {second : Value} (numeric : second.isNumeric = true)
    (first : Value) : compare? first second = compareNumbers? first second := by
  cases second with
  | bool | int | float | decimal => cases first <;> rfl
  | _ => cases numeric

theorem alike_of_quantity {first second : Value} {quantity : Quantity}
    (left : first.quantity? = some quantity) (right : second.quantity? = some quantity) :
    Alike first second := by
  obtain ⟨numericLeft, silentLeft⟩ := numeric_of_quantity left
  obtain ⟨numericRight, silentRight⟩ := numeric_of_quantity right
  intro value
  constructor
  · rw [compare?_of_numeric numericLeft, compare?_of_numeric numericRight]
    simp only [compareNumbers?, sameQuantity, numericLeft, numericRight, silentLeft, silentRight, left,
      right]
  · rw [compare?_of_numeric_right numericLeft, compare?_of_numeric_right numericRight]
    simp only [compareNumbers?, sameQuantity, numericLeft, numericRight, silentLeft, silentRight, left,
      right]

theorem alike_refl (value : Value) : Alike value value :=
  fun _ => ⟨rfl, rfl⟩

theorem alike_bytes (form form' : BytesForm) (content : List UInt8) :
    Alike (.bytes form content) (.bytes form' content) := by
  intro value
  cases value <;> exact ⟨rfl, rfl⟩

theorem same_congr {first second first' second' : Value} (left : Alike first first')
    (right : Alike second second') : same first second = same first' second' := by
  rw [same, same, (left second).1, (right first').2]

/-- A set with an element that equals nothing equals nothing. -/
theorem same_set_of_alone {frozen : Bool} {elements : List Value} {element : Value}
    (member : element ∈ elements) (alone : ∀ other, same element other = false) (other : Value) :
    same (.set frozen elements) other = false := by
  cases other with
  | set frozen' others =>
    rw [Bool.eq_false_iff]
    intro equal
    obtain ⟨known, -, same⟩ := (same_set_iff.mp equal).2 element member
    cases (alone known).symm.trans same
  | _ => simp [same, compare?, compareNumbers?, isNumeric]

theorem exists_same_iff {element : Value} {members reads : List Value}
    (alike : List.Forall₂ Alike members reads) :
    (∃ member ∈ members, same element member = true) ↔ ∃ value ∈ reads, same element value = true := by
  induction alike with
  | nil => rfl
  | cons here alike tail => simp [same_congr (alike_refl element) here, tail]

theorem same_set_congr {frozen frozen' : Bool} {elements members reads : List Value}
    (alike : List.Forall₂ Alike members reads) :
    same (.set frozen elements) (.set frozen' members) =
      same (.set frozen elements) (.set frozen' reads) := by
  rw [Bool.eq_iff_iff, same_set_iff, same_set_iff, alike.length_eq]
  simp only [exists_same_iff alike]

end RecordMerge.Value

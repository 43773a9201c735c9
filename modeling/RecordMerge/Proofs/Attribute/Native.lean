import Mathlib.Data.List.Forall2
import RecordMerge.Attribute.Load
import RecordMerge.Attribute.Store
import RecordMerge.Proofs.Outcome

/-!
Stored values and the values that they stand for.

A stored value spells out as a received one in more than one way, because a number has many
numerals. What the received value stands for does not depend on the numeral.
-/

set_option autoImplicit false

namespace RecordMerge

open Number (Bounds Decimal Quantity)

namespace Attribute

mutual

/-- The value that a stored value stands for. -/
def native : Attribute → Value
  | .null => .null
  | .bool flag => .bool flag
  | .number amount => .decimal amount
  | .text content => .text content
  | .binary _ content => .bytes .fixed content
  | .numbers elements => .set false (elements.map .decimal)
  | .texts elements => .set false (elements.map .text)
  | .binaries elements => .set false (elements.map fun element => .bytes .fixed element.2)
  | .list elements => .list (nativeAll elements)
  | .map entries => .map (nativeEntries entries)

def nativeAll : List Attribute → List Value
  | [] => []
  | first :: rest => native first :: nativeAll rest

def nativeEntries : List (String × Attribute) → Record
  | [] => []
  | (name, first) :: rest => (.text name, native first) :: nativeEntries rest

end

theorem nativeAll_eq_map (elements : List Attribute) :
    nativeAll elements = elements.map native := by
  induction elements with
  | nil => rfl
  | cons first rest tail => simp [nativeAll, tail]

theorem nativeEntries_eq_map (entries : Item) :
    nativeEntries entries = entries.map fun entry => (Value.text entry.1, native entry.2) := by
  induction entries with
  | nil => rfl
  | cons entry rest tail => simp [nativeEntries, tail]

/-- The number is finite, and the store keeps it as it is. -/
def Kept (amount : Decimal) : Prop :=
  (∃ negative coefficient exponent, amount = .finite negative coefficient exponent) ∧
    Bounds.storage.fit amount = .ok amount

/-- What a store can hold: kept numbers, fixed bytes, sets that have elements but no two equal ones,
and maps that have each name once. -/
inductive Sound : Attribute → Prop where
  | null : Sound .null
  | bool (flag : Bool) : Sound (.bool flag)
  | number {amount : Decimal} : Kept amount → Sound (.number amount)
  | text (content : String) : Sound (.text content)
  | binary (content : List UInt8) : Sound (.binary false content)
  | numbers {elements : List Decimal} : elements ≠ [] → (∀ amount ∈ elements, Kept amount) →
      (elements.map Quantity.ofDecimal?).Nodup → Sound (.numbers elements)
  | texts {elements : List String} : elements ≠ [] → elements.Nodup → Sound (.texts elements)
  | binaries {rows : List (List UInt8)} : rows ≠ [] → rows.Nodup →
      Sound (.binaries (rows.map (false, ·)))
  | list {elements : List Attribute} : (∀ element ∈ elements, Sound element) → Sound (.list elements)
  | map {entries : Item} : (entries.map Prod.fst).Nodup → (∀ entry ∈ entries, Sound entry.2) →
      Sound (.map entries)

/-- The text is a numeral of a finite number. -/
def Numeral (written : Value) (amount : Decimal) : Prop :=
  ∃ text negative coefficient exponent, written = .text text ∧
    amount = .finite negative coefficient exponent ∧ Decimal.ofText? text = some amount

/-- A received value that has one tag, in upper case, and under it what the stored value holds. Each
number may be spelled in any way; no set is empty or has two elements that denote the same. -/
inductive Spells : Value → Attribute → Prop where
  | null : Spells (tagged .null (.bool true)) .null
  | bool (flag : Bool) : Spells (tagged .bool (.bool flag)) (.bool flag)
  | number {written : Value} {amount : Decimal} : Numeral written amount →
      Spells (tagged .number written) (.number amount)
  | text (content : String) : Spells (tagged .text (.text content)) (.text content)
  | binary (content : List UInt8) :
      Spells (tagged .binary (.bytes .fixed content)) (.binary false content)
  | numbers {written : List Value} {elements : List Decimal} :
      List.Forall₂ Numeral written elements → elements ≠ [] → (elements.map Quantity.ofDecimal?).Nodup →
      Spells (tagged .numbers (.list written)) (.numbers elements)
  | texts {elements : List String} : elements ≠ [] → elements.Nodup →
      Spells (tagged .texts (.list (elements.map .text))) (.texts elements)
  | binaries {rows : List (List UInt8)} : rows ≠ [] → rows.Nodup →
      Spells (tagged .binaries (.list (rows.map (.bytes .fixed)))) (.binaries (rows.map (false, ·)))
  | list {written : List Value} {elements : List Attribute} : List.Forall₂ Spells written elements →
      Spells (tagged .list (.list written)) (.list elements)
  | map {written : Record} {entries : Item} : (entries.map Prod.fst).Nodup →
      written.map Prod.fst = entries.map (fun entry => Value.text entry.1) →
      List.Forall₂ Spells (written.map Prod.snd) (entries.map Prod.snd) →
      Spells (tagged .map (.map written)) (.map entries)

end Attribute

end RecordMerge

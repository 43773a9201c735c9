import RecordMerge.Number.Shortest

/-! Values of records, as callers hold them. -/

set_option autoImplicit false

namespace RecordMerge

open Number (Binary64 Decimal)

/-- How a row of bytes is held: as it is, in a growable row, or wrapped around either. The content
alone decides equality. -/
inductive BytesForm where
  | fixed
  | growable
  | wrapped (growable : Bool)
  deriving DecidableEq, Repr

/-- Any value a record can be given. `unset` marks an attribute as not given at all; a copy of that
mark is `unsetCopy`, which is an ordinary value that cannot be stored. `anything` stands for every
value in the expectation of a request. A set and a map have no two equal elements or keys. Values are
trees: one map that stands at two places, so that a change at one of them shows at the other, is not
covered. -/
inductive Value where
  | null
  | bool (flag : Bool)
  | int (number : Int)
  | float (number : Binary64)
  | decimal (number : Decimal)
  | text (content : String)
  | bytes (form : BytesForm) (content : List UInt8)
  | list (elements : List Value)
  | tuple (elements : List Value)
  | set (frozen : Bool) (elements : List Value)
  | map (entries : List (Value × Value))
  | unset
  | unsetCopy
  | anything
  | date (year month day : Nat)
  deriving Repr, Inhabited

/-- A map from attribute names to values, in insertion order. -/
abbrev Record := List (Value × Value)

namespace Value

/-- Whether the value counts as present: not null, false, zero, empty or unset. -/
def truthy : Value → Bool
  | .null | .unset | .unsetCopy => false
  | .bool flag => flag
  | .int number => number != 0
  | .float number => !number.isZero
  | .decimal number => !number.isZero
  | .text content => content != ""
  | .bytes (.wrapped _) _ => true
  | .bytes _ content => !content.isEmpty
  | .list elements | .tuple elements | .set _ elements => !elements.isEmpty
  | .map entries => !entries.isEmpty
  | .anything | .date _ _ _ => true

def isMapNode : Value → Bool
  | .map entries => !entries.isEmpty
  | _ => false

def isUnset : Value → Bool
  | .unset => true
  | _ => false

def isNull : Value → Bool
  | .null => true
  | _ => false

def text? : Value → Option String
  | .text content => some content
  | _ => none

def entries? : Value → Option Record
  | .map entries => some entries
  | _ => none

/-- The number of elements, entries, characters or bytes of a value that has them. -/
def size? : Value → Option Nat
  | .text content => some content.length
  | .bytes (.wrapped _) _ => none
  | .bytes _ content => some content.length
  | .list elements | .tuple elements | .set _ elements => some elements.length
  | .map entries => some entries.length
  | _ => none

/-- What a walk over the value meets: elements, keys, characters or bytes. -/
def iterate? : Value → Option (List Value)
  | .text content => some (content.toList.map fun char => .text (String.singleton char))
  | .bytes (.wrapped _) _ => none
  | .bytes _ content => some (content.map fun byte => .int byte.toNat)
  | .list elements | .tuple elements | .set _ elements => some elements
  | .map entries => some (entries.map Prod.fst)
  | _ => none

/-- A map from names written as text. -/
def ofNames (entries : List (String × Value)) : Value :=
  .map (entries.map fun entry => (.text entry.1, entry.2))

mutual

def copied : Value → Value
  | .unset => .unsetCopy
  | .list elements => .list (copiedAll elements)
  | .tuple elements => .tuple (copiedAll elements)
  | .set frozen elements => .set frozen (copiedAll elements)
  | .map entries => .map (copiedEntries entries)
  | value => value

def copiedAll : List Value → List Value
  | [] => []
  | value :: rest => copied value :: copiedAll rest

def copiedEntries : List (Value × Value) → List (Value × Value)
  | [] => []
  | (key, value) :: rest => (copied key, copied value) :: copiedEntries rest

end

end Value

namespace Record

def get? (name : String) : Record → Option Value
  | [] => none
  | (.text key, value) :: rest => if key = name then some value else get? name rest
  | _ :: rest => get? name rest

/-- Give a named attribute a value, in place if the record has it and at the end otherwise. -/
def set (name : String) (value : Value) : Record → Record
  | [] => [(.text name, value)]
  | (.text key, kept) :: rest =>
    if key = name then (.text key, value) :: rest else (.text key, kept) :: set name value rest
  | entry :: rest => entry :: set name value rest

def contains (name : String) (record : Record) : Bool :=
  (record.get? name).isSome

theorem get?_set_self (name : String) (value : Value) (record : Record) :
    get? name (set name value record) = some value := by
  fun_induction set name value record <;> simp_all [get?]

theorem get?_set_of_ne {name other : String} (value : Value) (record : Record)
    (differs : name ≠ other) : get? other (set name value record) = get? other record := by
  fun_induction set name value record <;> simp_all [get?]

end Record

end RecordMerge

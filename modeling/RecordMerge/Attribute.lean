import RecordMerge.Value

/-! Attribute values as they are stored: each carries one type tag. -/

set_option autoImplicit false

namespace RecordMerge

open Number (Decimal)

/-- A stored value. Numbers are decimals, and a set holds elements of one type only. -/
inductive Attribute where
  | null
  | bool (flag : Bool)
  | number (amount : Decimal)
  | text (content : String)
  | binary (growable : Bool) (content : List UInt8)
  | numbers (elements : List Decimal)
  | texts (elements : List String)
  | binaries (elements : List (Bool × List UInt8))
  | list (elements : List Attribute)
  | map (entries : List (String × Attribute))
  deriving Repr, Inhabited

/-- A stored record: attribute names with stored values, in insertion order. -/
abbrev Item := List (String × Attribute)

namespace Attribute

/-- The type tags, in upper case. -/
inductive Tag where
  | null
  | bool
  | number
  | text
  | binary
  | numbers
  | texts
  | binaries
  | list
  | map
  deriving DecidableEq, Repr

def Tag.name : Tag → String
  | .null => "NULL"
  | .bool => "BOOL"
  | .number => "N"
  | .text => "S"
  | .binary => "B"
  | .numbers => "NS"
  | .texts => "SS"
  | .binaries => "BS"
  | .list => "L"
  | .map => "M"

def Tag.all : List Tag :=
  [.null, .bool, .number, .text, .binary, .numbers, .texts, .binaries, .list, .map]

/-- The tag of a name in any letter case. No letter outside ASCII has one of the tag letters as its
lower case. -/
def Tag.ofName? (name : String) : Option Tag :=
  all.find? fun tag => tag.name.toList.map Char.toLower == name.toList.map Char.toLower

theorem Tag.ofName?_name (tag : Tag) : ofName? tag.name = some tag := by
  cases tag <;> decide +kernel

def tagged (tag : Tag) (content : Value) : Value :=
  .map [(.text tag.name, content)]

def bytesValue (growable : Bool) (content : List UInt8) : Value :=
  .bytes (if growable then .growable else .fixed) content

mutual

def wire : Attribute → Value
  | .null => tagged .null (.bool true)
  | .bool flag => tagged .bool (.bool flag)
  | .number amount => tagged .number (.text amount.text)
  | .text content => tagged .text (.text content)
  | .binary growable content => tagged .binary (bytesValue growable content)
  | .numbers elements => tagged .numbers (.list (elements.map fun amount => .text amount.text))
  | .texts elements => tagged .texts (.list (elements.map .text))
  | .binaries elements =>
    tagged .binaries (.list (elements.map fun element => bytesValue element.1 element.2))
  | .list elements => tagged .list (.list (wireAll elements))
  | .map entries => tagged .map (.map (wireEntries entries))

def wireAll : List Attribute → List Value
  | [] => []
  | first :: rest => wire first :: wireAll rest

def wireEntries : List (String × Attribute) → List (Value × Value)
  | [] => []
  | (name, first) :: rest => (.text name, wire first) :: wireEntries rest

end

theorem wireAll_eq_map (attributes : List Attribute) : wireAll attributes = attributes.map wire := by
  induction attributes with
  | nil => rfl
  | cons first rest tail => simp [wireAll, tail]

theorem wireEntries_eq_map (entries : List (String × Attribute)) :
    wireEntries entries = entries.map fun entry => (Value.text entry.1, wire entry.2) := by
  induction entries with
  | nil => rfl
  | cons first rest tail =>
    obtain ⟨name, held⟩ := first
    simp [wireEntries, tail]

end Attribute

end RecordMerge

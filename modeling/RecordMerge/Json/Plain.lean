import RecordMerge.Json
import RecordMerge.Value

/-! Documents as the plain values that they spell. -/

set_option autoImplicit false

namespace RecordMerge.Json

/-- A number of plain digits is whole, any other one is a binary number. -/
def plainNumber (spelling : List Char) : Value :=
  match int? (.number spelling) with
  | some whole => .int whole
  | none => .float ((Number.Binary64.ofText? (String.ofList spelling)).getD .nan)

mutual

/-- The value with the same structure: elements in a list, entries in a map by names. -/
def plain : Json → Value
  | .null => .null
  | .bool flag => .bool flag
  | .number spelling => plainNumber spelling
  | .text content => .text content
  | .list elements => .list (plainAll elements)
  | .object entries => .map (plainEntries entries)

def plainAll : List Json → List Value
  | [] => []
  | first :: rest => plain first :: plainAll rest

def plainEntries : List (String × Json) → Record
  | [] => []
  | (name, first) :: rest => (.text name, plain first) :: plainEntries rest

end

end RecordMerge.Json

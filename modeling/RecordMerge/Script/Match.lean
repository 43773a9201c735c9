import RecordMerge.Failure
import RecordMerge.Value.Equality

/-! Matching of a request against what is expected of it: maps may have further entries, lists must
agree in length, and anything else must be equal. -/

set_option autoImplicit false

namespace RecordMerge.Script

def lookup (key : Value) : List (Value × Value) → Option Value
  | [] => none
  | (name, value) :: rest => if name.same key then some value else lookup key rest

/-- The path of a map entry, unless its key cannot be shown. -/
def entryPath (path : String) (key : Value) : Except Failure String :=
  match key.toText? with
  | some name => .ok (path ++ "." ++ name)
  | none => .error (.reading .wrongKind)

def elementPath (path : String) (index : Nat) : String :=
  path ++ "[" ++ String.ofList (Number.numeral index) ++ "]"

def differs (difference : Mismatch) : Except Failure Unit :=
  .error (.script (.mismatch difference))

mutual

/-- Walk through what is expected, up to the first difference or to values that cannot be
compared. -/
def agree (path : String) (actual : Value) : Value → Except Failure Unit
  | .anything => .ok ()
  | .map entries =>
    match actual with
    | .map given => entriesAgree path given entries
    | _ => differs (.notMap path actual)
  | .list elements =>
    match actual with
    | .list given =>
      if given.length = elements.length then elementsAgree path 0 given elements
      else differs (.lengthDiffers path elements.length given.length)
    | _ => differs (.notList path actual)
  | expected =>
    match expected.compare? actual with
    | some true => .ok ()
    | some false => differs (.valueDiffers path expected actual)
    | none => .error .incomparable

def entriesAgree (path : String) (given : List (Value × Value)) :
    List (Value × Value) → Except Failure Unit
  | [] => .ok ()
  | (key, expected) :: rest =>
    match lookup key given with
    | none => differs (.missingKey path key)
    | some actual => do
      agree (← entryPath path key) actual expected
      entriesAgree path given rest

def elementsAgree (path : String) (index : Nat) : List Value → List Value → Except Failure Unit
  | actual :: others, expected :: rest => do
    agree (elementPath path index) actual expected
    elementsAgree path (index + 1) others rest
  | _, _ => .ok ()

end

end RecordMerge.Script

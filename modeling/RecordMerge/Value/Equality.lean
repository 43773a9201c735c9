import RecordMerge.Value.KeyForm
import RecordMerge.Number.Quantity
import RecordMerge.Text.Search

/-! Equality of values as callers understand it: numbers by the quantity they denote, whatever their
form; byte rows by content; sets and maps without regard to order. A signaling not-a-number cannot
be compared with a number, so that some questions have no answer. -/

set_option autoImplicit false

namespace RecordMerge.Value

open Number (Quantity)

/-- Whether the value is a number; truth values count as one and zero. -/
def isNumeric : Value → Bool
  | .bool _ | .int _ | .float _ | .decimal _ => true
  | _ => false

/-- Whether the value is a not-a-number that no number can be compared with. -/
def isSignaling : Value → Bool
  | .decimal (.nan _ signaling _) => signaling
  | _ => false

/-- The quantity of a number. A not-a-number has none, and equals nothing. -/
def quantity? : Value → Option Quantity
  | .bool flag => some (.ofInt (if flag then 1 else 0))
  | .int number => some (.ofInt number)
  | .float number => Quantity.ofBinary64? number
  | .decimal number => Quantity.ofDecimal? number
  | _ => none

def sameQuantity (left right : Value) : Bool :=
  match left.quantity?, right.quantity? with
  | some first, some second => first == second
  | _, _ => false

/-- Equality of two values of different kinds, or of two numbers: only numbers can be equal. -/
def compareNumbers? (left right : Value) : Option Bool :=
  if left.isNumeric && right.isNumeric then
    if left.isSignaling || right.isSignaling then none else some (sameQuantity left right)
  else some false

mutual

/-- Equality of two values, if they can be compared. Lists equal no tuples, and the unset mark
equals only itself. -/
def compare? : Value → Value → Option Bool
  | .null, .null => some true
  | .text first, .text second => some (first == second)
  | .bytes _ first, .bytes _ second => some (first == second)
  | .list first, .list second =>
    if first.length = second.length then compareElements? first second else some false
  | .tuple first, .tuple second => compareElements? first second
  | .set _ first, .set _ second =>
    some (first.length == second.length && includedIn first second)
  | .map first, .map second =>
    if first.length = second.length then compareEntries? first second else some false
  | .unset, .unset => some true
  | .unsetCopy, .unsetCopy => some true
  | .anything, .anything => some true
  | .date year month day, .date year' month' day' =>
    some (year == year' && month == month' && day == day')
  | left, right => compareNumbers? left right
termination_by structural first => first

def compareElements? : List Value → List Value → Option Bool
  | [], [] => some true
  | first :: rest, second :: others =>
    (compare? first second).bind fun equal =>
      if equal then compareElements? rest others else some false
  | _, _ => some false
termination_by structural first => first

/-- Every element has an equal one in the other list. -/
def includedIn : List Value → List Value → Bool
  | [], _ => true
  | first :: rest, others =>
    (others.any fun second => compare? first second == some true) && includedIn rest others
termination_by structural first => first

/-- Every entry has one with an equal key and an equal value in the other list, looked for up to
the first difference. -/
def compareEntries? : List (Value × Value) → List (Value × Value) → Option Bool
  | [], _ => some true
  | (key, value) :: rest, others =>
    match others.find? fun entry => compare? key entry.1 == some true with
    | none => some false
    | some entry =>
      (compare? value entry.2).bind fun equal =>
        if equal then compareEntries? rest others else some false
termination_by structural first => first

end

def same (left right : Value) : Bool :=
  compare? left right == some true

instance : BEq Value := ⟨same⟩

/-- The set of the given elements: the first of equal ones is kept. -/
def setOf (frozen : Bool) (elements : List Value) : Value :=
  .set frozen (elements.foldl (fun kept element =>
    if kept.any fun known => same known element then kept else kept ++ [element]) [])

/-- Whether a part is an element of a row, a key of a map or a part of a text. Only what can be a key
can be searched for in a set or a map, and only a text in a text; other values cannot be searched. -/
def mentions? (searched part : Value) : Option Bool :=
  match searched with
  | .text content => part.text?.map fun part => Text.occursIn part.toList content.toList
  | .list elements | .tuple elements => some (elements.any fun element => same element part)
  | .set _ elements =>
    if part.canBeKey then some (elements.any fun element => same element part) else none
  | .map entries =>
    if part.canBeKey then some (entries.any fun entry => same entry.1 part) else none
  | _ => none

@[simp] theorem compare?_text (first second : String) :
    compare? (.text first) (.text second) = some (first == second) := by
  simp [compare?]

@[simp] theorem same_text (first second : String) :
    same (.text first) (.text second) = (first == second) := by
  by_cases equal : first = second <;> simp [same, equal]

end RecordMerge.Value

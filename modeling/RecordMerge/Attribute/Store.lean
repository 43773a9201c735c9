import RecordMerge.Attribute
import RecordMerge.Entries
import RecordMerge.Failure
import RecordMerge.Value.Equality

/-! From values to stored values. The whole value is first brought into plain form, and only then
written, so that a fault of form is found before a fault of content. -/

set_option autoImplicit false

namespace RecordMerge

open Number (Binary64 Bounds Decimal)

namespace Value

mutual

/-- Floats as the decimals of their shortest text, tuples as lists, map keys as texts, and unset
elements and entries dropped. A set keeps unset elements and must have an element. -/
def plain : Value → Except Failure Value
  | .float number => .ok (.decimal number.shortestDecimal)
  | .map entries => do
    let entries ← plainEntries entries
    .ok (ofNames (Entries.ofPairs entries))
  | .list elements => do .ok (.list (← plainAll true elements))
  | .tuple elements => do .ok (.list (← plainAll true elements))
  | .set _ [] => .error (.storage .emptySet)
  | .set _ elements => do .ok (setOf false (← plainMembers elements))
  | value => .ok value

/-- The elements in order; unset ones are dropped on request. -/
def plainAll (dropUnset : Bool) : List Value → Except Failure (List Value)
  | [] => .ok []
  | value :: rest => do
    if dropUnset && value.isUnset then plainAll dropUnset rest
    else
      let first ← plain value
      let others ← plainAll dropUnset rest
      .ok (first :: others)

/-- The members of a set, each checked before the next is looked at. -/
def plainMembers : List Value → Except Failure (List Value)
  | [] => .ok []
  | value :: rest => do
    let member ← plain value
    if member.canBeKey then
      let others ← plainMembers rest
      .ok (member :: others)
    else .error (.storage (.unhashable member))

def plainEntries : List (Value × Value) → Except Failure (List (String × Value))
  | [] => .ok []
  | (key, value) :: rest => do
    if value.isUnset then plainEntries rest
    else match key.toText? with
      | none => .error (.storage .keyWithoutText)
      | some name => do
        let first ← plain value
        let others ← plainEntries rest
        .ok ((name, first) :: others)

end

/-- The decimal of a whole number, a decimal or a truth value. -/
def decimal? : Value → Option Decimal
  | .bool flag => some (.ofInt (if flag then 1 else 0))
  | .int number => some (.ofInt number)
  | .decimal number => some number
  | _ => none

def bytes? : Value → Option (Bool × List UInt8)
  | .bytes .fixed content => some (false, content)
  | .bytes .growable content => some (true, content)
  | .bytes (.wrapped growable) content => some (growable, content)
  | _ => none

/-- Each value by the same reader, or nothing if one cannot be read. -/
def readAll {Item : Type} (read : Value → Option Item) : List Value → Option (List Item)
  | [] => some []
  | value :: rest => do
    let first ← read value
    let others ← readAll read rest
    some (first :: others)

/-- A number that is stored exactly. Positive infinity and the plain not-a-number are refused. -/
def storeNumber (number : Decimal) : Except Failure Decimal :=
  match Bounds.storage.fit number with
  | .error signal => .error (.arithmetic signal)
  | .ok kept =>
    if kept = .infinite false ∨ kept = .nan false false 0 then .error (.storage .notFinite)
    else .ok kept

def storeSet (frozen : Bool) (elements : List Value) : Except Failure Attribute :=
  match readAll decimal? elements, readAll text? elements, readAll bytes? elements with
  | some numbers, _, _ => do .ok (.numbers (← numbers.mapM storeNumber))
  | none, some texts, _ => .ok (.texts texts)
  | none, none, some rows => .ok (.binaries rows)
  | none, none, none => .error (.storage (.unsupported (.set frozen elements)))

mutual

def encode : Value → Except Failure Attribute
  | .null => .ok .null
  | .bool flag => .ok (.bool flag)
  | .int number => do .ok (.number (← storeNumber (.ofInt number)))
  | .decimal number => do .ok (.number (← storeNumber number))
  | .text content => .ok (.text content)
  | .bytes .fixed content => .ok (.binary false content)
  | .bytes .growable content => .ok (.binary true content)
  | .bytes (.wrapped growable) content => .ok (.binary growable content)
  | .set frozen elements => storeSet frozen elements
  | .map entries => do .ok (.map (← encodeEntries entries))
  | .list elements | .tuple elements => do .ok (.list (← encodeAll elements))
  | value => .error (.storage (.unsupported value))

def encodeAll : List Value → Except Failure (List Attribute)
  | [] => .ok []
  | value :: rest => do
    let first ← encode value
    let others ← encodeAll rest
    .ok (first :: others)

def encodeEntries : List (Value × Value) → Except Failure (List (String × Attribute))
  | [] => .ok []
  | (key, value) :: rest => do
    let first ← encode value
    let others ← encodeEntries rest
    .ok ((key.toText, first) :: others)

end

def store (value : Value) : Except Failure Attribute := do
  encode (← plain value)

end Value

namespace Record

/-- The stored forms of the entries, by the text of their keys; unset entries are dropped. -/
def storeEntries : Record → Except Failure (List (String × Attribute))
  | [] => .ok []
  | (key, value) :: rest => do
    if value.isUnset then storeEntries rest
    else match key.toText? with
      | none => .error (.reading .wrongKind)
      | some name => do
        let first ← value.store
        let others ← storeEntries rest
        .ok ((name, first) :: others)

def store (record : Record) : Except Failure Item := do
  .ok (Entries.ofPairs (← storeEntries record))

end Record

namespace Attribute

def wireItem (item : Item) : Value :=
  .map (wireEntries item)

end Attribute

/-- Stored forms of values under their own keys; no value is dropped. -/
def storeValues {Key : Type} : List (Key × Value) → Except Failure (List (Key × Attribute))
  | [] => .ok []
  | (key, value) :: rest => do
    let first ← value.store
    let others ← storeValues rest
    .ok ((key, first) :: others)

end RecordMerge

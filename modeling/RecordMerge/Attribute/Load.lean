import RecordMerge.Attribute
import RecordMerge.Entries
import RecordMerge.Failure
import RecordMerge.Value.Equality
import RecordMerge.Value.Parts

/-! From stored values, as they are received, back to values. What is received is untyped, so each
step says which fault it meets. -/

set_option autoImplicit false

namespace RecordMerge

open Number (Binary64 Bounds Decimal)

namespace Value

def loadNumber : Value → Except Failure Value
  | .text content => number (Bounds.storage.read content)
  | .int amount => number (Bounds.storage.fit (.ofInt amount))
  | .bool flag => number (Bounds.storage.fit (.ofInt (if flag then 1 else 0)))
  | .decimal amount => number (Bounds.storage.fit amount)
  | .float amount => number (Bounds.storage.fit amount.toDecimal)
  | .list parts | .tuple parts =>
    match ofParts parts with
    | .ok amount => number (Bounds.storage.fit amount)
    | .error fault => .error (.reading (.parts fault))
  | _ => .error (.reading .wrongKind)
where
  number : Except Number.Signal Decimal → Except Failure Value
    | .ok amount => .ok (.decimal amount)
    | .error signal => .error (.arithmetic signal)

def loadBinary : Value → Except Failure Value
  | .bytes .fixed content => .ok (.bytes (.wrapped false) content)
  | .bytes .growable content => .ok (.bytes (.wrapped true) content)
  | _ => .error (.reading .notBinary)

/-- The set under a set tag, each member read and checked before the next. -/
def loadMembers (read : Value → Except Failure Value) : List Value → Except Failure (List Value)
  | [] => .ok []
  | value :: rest => do
    let member ← read value
    if member.canBeKey then
      let others ← loadMembers read rest
      .ok (member :: others)
    else .error (.reading .wrongKind)

def loadSet (read : Value → Except Failure Value) (content : Value) : Except Failure Value := do
  .ok (setOf false (← loadMembers read (← content.asRow)))

def notTagged (present : Bool) : Failure :=
  .reading (if present then .noEntries else .noTag)

mutual

def loadTagged (tag : Attribute.Tag) : Value → Except Failure Value
  | content@(.map entries) =>
    match tag with
    | .map => do .ok (.map (← loadEntries entries))
    | .list => do .ok (.list (← loadKeys entries))
    | _ => loadPlain tag content
  | content@(.list elements) | content@(.tuple elements) | content@(.set _ elements) =>
    match tag with
    | .map => .error (.reading .noEntries)
    | .list => do .ok (.list (← loadAll elements))
    | _ => loadPlain tag content
  | content =>
    match tag with
    | .map => .error (.reading .noEntries)
    | .list =>
      match content.iterate? with
      | none => .error (.reading .wrongKind)
      | some [] => .ok (.list [])
      | some (first :: _) => .error (notTagged first.truthy)
    | _ => loadPlain tag content
where
  loadPlain (tag : Attribute.Tag) (content : Value) : Except Failure Value :=
    match tag with
    | .null => .ok .null
    | .bool | .text => .ok content
    | .number => loadNumber content
    | .binary => loadBinary content
    | .numbers => loadSet loadNumber content
    | .texts => loadSet .ok content
    | .binaries => loadSet loadBinary content
    | .list | .map => .error (.reading .wrongKind)

/-- A tagged value: the first key is the tag. -/
def loadAttribute : Value → Except Failure Value
  | .map ((tag, content) :: _) =>
    match tag.toText? with
    | none => .error (.reading .wrongKind)
    | some name =>
      match Attribute.Tag.ofName? name with
      | some known => loadTagged known content
      | none => .error (.reading (.unknownTag name))
  | value => .error (notTagged value.truthy)

def loadAll : List Value → Except Failure (List Value)
  | [] => .ok []
  | value :: rest => do
    let first ← loadAttribute value
    let others ← loadAll rest
    .ok (first :: others)

def loadKeys : List (Value × Value) → Except Failure (List Value)
  | [] => .ok []
  | (key, _) :: rest => do
    let first ← loadAttribute key
    let others ← loadKeys rest
    .ok (first :: others)

def loadEntries : List (Value × Value) → Except Failure (List (Value × Value))
  | [] => .ok []
  | (key, value) :: rest => do
    let first ← loadAttribute value
    let others ← loadEntries rest
    .ok ((key, first) :: others)

end

mutual

/-- Bytes freed of their wrapping throughout lists, sets and maps. -/
def unwrapped : Value → Except Failure Value
  | .bytes (.wrapped false) content => .ok (.bytes .fixed content)
  | .bytes (.wrapped true) _ => .error (.reading .wrongKind)
  | .map entries => do .ok (.map (← unwrappedEntries entries))
  | .list elements => do .ok (.list (← unwrappedAll elements))
  | .set false elements => do .ok (.set false (← unwrappedAll elements))
  | value => .ok value

def unwrappedAll : List Value → Except Failure (List Value)
  | [] => .ok []
  | value :: rest => do
    let first ← unwrapped value
    let others ← unwrappedAll rest
    .ok (first :: others)

def unwrappedEntries : List (Value × Value) → Except Failure (List (Value × Value))
  | [] => .ok []
  | (key, value) :: rest => do
    let first ← unwrapped value
    let others ← unwrappedEntries rest
    .ok ((key, first) :: others)

end

def load (value : Value) : Except Failure Value := do
  unwrapped (← loadAttribute value)

end Value

namespace Record

def load : Record → Except Failure Record
  | [] => .ok []
  | (name, value) :: rest => do
    let first ← value.load
    let others ← load rest
    .ok ((name, first) :: others)

end Record

def Value.loadItem (value : Value) : Except Failure Record := do
  (← value.asRecord).load

def Value.loadPairList (index : Nat) : List Value → Except Failure Record
  | [] => .ok []
  | pair :: rest =>
    match pair.iterate? with
    | some [key, value] => do
      if key.canBeKey then
        let others ← loadPairList (index + 1) rest
        .ok ((key, value) :: others)
      else .error (.reading .wrongKind)
    | some elements => .error (.reading (.pairLength index elements.length))
    | none => .error (.reading .wrongKind)

def Value.loadPairs (value : Value) : Except Failure Record :=
  match value.entries?, value.iterate? with
  | some entries, _ => .ok entries
  | none, some pairs => (loadPairList 0 pairs).map Entries.ofPairs
  | none, none => .error (.reading .wrongKind)

end RecordMerge

import RecordMerge.Entries
import RecordMerge.Failure
import RecordMerge.Value.Equality

/-! Merging of placeholder tables. A placeholder may be bound twice only to equal values. -/

set_option autoImplicit false

namespace RecordMerge.Bindings

variable {Key Item : Type} [BEq Key]

/-- Why a binding cannot be added: its key is bound to an unequal item, or to one that cannot be
compared with the new one. -/
inductive Obstacle (Key : Type) where
  | unequal (key : Key)
  | incomparable
  deriving Repr

/-- Add bindings one after another. The second part is the first obstacle; nothing is added from
there on. -/
def merge (compare? : Item → Item → Option Bool) (target : List (Key × Item)) :
    List (Key × Item) → List (Key × Item) × Option (Obstacle Key)
  | [] => (target, none)
  | (key, item) :: rest =>
    match Entries.get? target key with
    | some held =>
      match compare? held item with
      | some true => merge compare? (Entries.put target key item) rest
      | some false => (target, some (.unequal key))
      | none => (target, some .incomparable)
    | none => merge compare? (Entries.put target key item) rest

/-- The failure by which an obstacle is reported; `text?` shows a key. -/
def Obstacle.failure (kind : String) (text? : Key → Option String) : Obstacle Key → Failure
  | .unequal key =>
    match text? key with
    | some placeholder => .expression (.collision kind placeholder)
    | none => .reading .wrongKind
  | .incomparable => .incomparable

def merged (kind : String) (compare? : Item → Item → Option Bool)
    (target extra : List (String × Item)) : Except Failure (List (String × Item)) :=
  match merge compare? target extra with
  | (table, none) => .ok table
  | (_, some obstacle) => .error (obstacle.failure kind some)

def mergedNames (target extra : List (String × String)) : Except Failure (List (String × String)) :=
  merged "name" (fun held name => some (held == name)) target extra

def mergedValues (target extra : List (String × Value)) : Except Failure (List (String × Value)) :=
  merged "value" Value.compare? target extra

end RecordMerge.Bindings

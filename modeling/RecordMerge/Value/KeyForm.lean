import RecordMerge.Value

/-! Which values can be keys of a map and elements of a set: those whose content cannot change, and
that can be compared with every other value. -/

set_option autoImplicit false

namespace RecordMerge.Value

mutual

/-- Whether the value can be a key. A tuple can if its elements can; a frozen set always can, because
its elements are keys already. -/
def canBeKey : Value → Bool
  | .list _ | .set false _ | .map _ | .bytes .growable _ | .bytes (.wrapped true) _ => false
  | .decimal (.nan _ signaling _) => !signaling
  | .tuple elements => allCanBeKeys elements
  | _ => true

def allCanBeKeys : List Value → Bool
  | [] => true
  | first :: rest => canBeKey first && allCanBeKeys rest

end

mutual

/-- Whether all elements of sets and all keys of maps, at every depth, are values that can be keys. -/
def wellFormed : Value → Bool
  | .list elements | .tuple elements => allWellFormed elements
  | .set _ elements => allCanBeKeys elements && allWellFormed elements
  | .map entries => entriesWellFormed entries
  | _ => true

def allWellFormed : List Value → Bool
  | [] => true
  | first :: rest => wellFormed first && allWellFormed rest

def entriesWellFormed : List (Value × Value) → Bool
  | [] => true
  | (key, value) :: rest =>
    canBeKey key && wellFormed key && wellFormed value && entriesWellFormed rest

end

theorem allCanBeKeys_iff (elements : List Value) :
    allCanBeKeys elements = true ↔ ∀ element ∈ elements, element.canBeKey = true := by
  induction elements with
  | nil => simp [allCanBeKeys]
  | cons first rest tail => simp [allCanBeKeys, tail]

@[simp] theorem canBeKey_text (content : String) : canBeKey (.text content) = true := by
  simp [canBeKey]

end RecordMerge.Value

import RecordMerge.Failure
import RecordMerge.Policy
import RecordMerge.Value.KeyForm

/-! Paths of a policy as callers give them. -/

set_option autoImplicit false

namespace RecordMerge.Policy

/-- The paths among whatever can be walked over, each of which must be a value that can be a key. Only
a text is the path of anything. -/
def pathsOf (given : Value) : Except Failure (List String) := do
  let elements ← given.asRow
  if elements.all Value.canBeKey then .ok (elements.filterMap Value.text?)
  else .error (.reading .wrongKind)

theorem pathsOf_texts (paths : List String) : pathsOf (.list (paths.map .text)) = .ok paths := by
  simp [pathsOf, Value.asRow, Value.iterate?, Function.comp_def, Value.text?, bind, Except.bind]

end RecordMerge.Policy

import RecordMerge.Entries
import RecordMerge.Failure

/-! Placeholders of attribute names in an expression, and the table that resolves them. -/

set_option autoImplicit false

namespace RecordMerge.Placeholder

def isWordChar (char : Char) : Bool :=
  char.isAlphanum || char == '_'

/-- The name with an underscore for every character that a placeholder cannot have. -/
def sanitize (name : String) : String :=
  String.ofList (name.toList.map fun char => if isWordChar char then char else '_')

/-- The placeholder of a name; the empty name has none. -/
def ofName (name : String) : Except Failure String :=
  if name = "" then .error (.expression .emptyName) else .ok ("#" ++ sanitize name)

/-- The placeholder of the value with the given index, counted from zero. -/
def ofIndex (index : Nat) : String :=
  ":value" ++ String.ofList (Number.numeral (index + 1))

/-- Placeholders with the names they stand for. -/
abbrev Names := List (String × String)

/-- Add the name of one path segment. A placeholder stands for one name only. -/
def addName (names : Names) (name : String) : Except Failure (String × Names) := do
  let placeholder ← ofName name
  match Entries.get? names placeholder with
  | some known =>
    if known = name then .ok (placeholder, names)
    else .error (.expression (.collision "name" placeholder))
  | none => .ok (placeholder, Entries.put names placeholder name)

def addPath (names : Names) : List String → Except Failure (List String × Names)
  | [] => .ok ([], names)
  | name :: rest => do
    let (placeholder, names) ← addName names name
    let (placeholders, names) ← addPath names rest
    .ok (placeholder :: placeholders, names)

theorem isWordChar_of_mem_sanitize {name : String} {char : Char}
    (member : char ∈ (sanitize name).toList) : isWordChar char = true := by
  simp only [sanitize, String.toList_ofList, List.mem_map] at member
  obtain ⟨source, _, rfl⟩ := member
  by_cases word : isWordChar source = true
  · simp [word]
  · rw [if_neg word]
    decide

theorem ofIndex_inj {first second : Nat} (same : ofIndex first = ofIndex second) :
    first = second := by
  have chars := congrArg String.toList same
  simp only [ofIndex, String.toList_append, String.toList_ofList, List.append_cancel_left_eq] at chars
  have := Number.numeral_inj chars
  omega

end RecordMerge.Placeholder

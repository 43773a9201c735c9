import RecordMerge.Leaf
import RecordMerge.Placeholder

/-! The update expression of a record: one assignment for each leaf, through placeholders. -/

set_option autoImplicit false

namespace RecordMerge

open Placeholder (Names)

/-- A target path and the placeholder of its value; `keepsStored` leaves a stored value alone. -/
structure Assignment where
  target : List String
  value : String
  keepsStored : Bool
  deriving DecidableEq, Repr

/-- `target = value`, or `target = if_not_exists(target, value)`. -/
def Assignment.text (assignment : Assignment) : String :=
  let target := dotted assignment.target
  if assignment.keepsStored then
    target ++ " = if_not_exists(" ++ target ++ ", " ++ assignment.value ++ ")"
  else target ++ " = " ++ assignment.value

/-- An update with the tables that resolve its placeholders. -/
structure Update where
  assignments : List Assignment
  names : Names
  values : List (String × Value)
  deriving Repr

namespace Update

def text (update : Update) : String :=
  "SET " ++ ", ".intercalate (update.assignments.map Assignment.text)

/-- Assign the leaves in order, numbering their values from `index` on. -/
def assign (names : Names) (index : Nat) : List Leaf → Except Failure (List Assignment × Names)
  | [] => .ok ([], names)
  | leaf :: rest => do
    let (target, names) ← Placeholder.addPath names leaf.path
    let (assignments, names) ← assign names (index + 1) rest
    .ok (⟨target, Placeholder.ofIndex index, leaf.insertOnly⟩ :: assignments, names)

def valuesOf (index : Nat) : List Leaf → List (String × Value)
  | [] => []
  | leaf :: rest => (Placeholder.ofIndex index, leaf.value) :: valuesOf (index + 1) rest

/-- The update that writes the leaves of a walk; there must be one. A leaf that cannot be assigned
is found before the fault of the walk. -/
def ofWalk (walk : Walk) : Except Failure Update := do
  let (assignments, names) ← assign [] 0 walk.leaves
  let leaves ← walk.complete
  if assignments.isEmpty then .error (.expression .noUpdates)
  else .ok ⟨assignments, names, valuesOf 0 leaves⟩

def compile (record : Record) (schema : KeySchema) (policy : Policy) : Except Failure Update :=
  ofWalk (record.walk schema policy)

/-- Each leaf has one assignment, in order. -/
theorem length_assign {names result : Names} {index : Nat} {leaves : List Leaf}
    {assignments : List Assignment} (done : assign names index leaves = .ok (assignments, result)) :
    assignments.length = leaves.length := by
  induction leaves generalizing names index assignments result with
  | nil =>
    simp only [assign, Except.ok.injEq, Prod.mk.injEq] at done
    simp [← done.1]
  | cons leaf rest tail =>
    simp only [assign, bind, Except.bind] at done
    split at done
    · cases done
    · split at done
      · cases done
      · next pair found =>
        simp only [Except.ok.injEq, Prod.mk.injEq] at done
        simp [← done.1, tail found]

end Update

end RecordMerge

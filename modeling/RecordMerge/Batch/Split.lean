import RecordMerge.Value.Order
import RecordMerge.Value.Parts

/-! Splitting a batch into consecutive groups. -/

set_option autoImplicit false

namespace RecordMerge.Batch

/-- The largest group of writes, and the largest group of keys to read. -/
def writeLimit : Nat := 25

def readLimit : Nat := 100

/-- Consecutive groups of the given size; the last one may be smaller. -/
def split {Element : Type} (size : Nat) (elements : List Element) : List (List Element) :=
  match elements with
  | [] => []
  | first :: rest => (first :: rest.take (size - 1)) :: split size (rest.drop (size - 1))
termination_by elements.length
decreasing_by
  simp only [List.length_drop, List.length_cons]
  omega

/-- The elements of a value that keeps them in a row; of sets and maps, only an empty one has a row
of elements. -/
def row? (value : Value) : Option (List Value) :=
  match value with
  | .set _ elements => if elements.isEmpty then some [] else none
  | .map entries => if entries.isEmpty then some [] else none
  | other => other.iterate?

/-- The groups of a row, of a size that has to be positive and whole. -/
def groupsOf (size row : Value) : Except Failure (List (List Value)) := do
  if (← size.negative) || !size.truthy then .error (.setting .groupSize)
  else match size.whole?, row? row with
    | some size, some elements => .ok (split size.toNat elements)
    | _, _ => .error (.reading .wrongKind)

theorem flatten_split {Element : Type} (size : Nat) (elements : List Element) :
    (split size elements).flatten = elements := by
  fun_induction split size elements with
  | case1 => rfl
  | case2 first rest tail => simp [tail]

theorem length_le_of_mem_split {Element : Type} {size : Nat} (positive : 0 < size)
    {elements group : List Element} (member : group ∈ split size elements) :
    0 < group.length ∧ group.length ≤ size := by
  fun_induction split size elements with
  | case1 => simp at member
  | case2 first rest tail =>
    rcases List.mem_cons.1 member with rfl | later
    · simp only [List.length_cons, List.length_take]
      omega
    · exact tail later

end RecordMerge.Batch

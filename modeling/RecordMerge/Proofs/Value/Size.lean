import RecordMerge.Value

/-! The parts of a value are smaller than the value. What is said of values of every depth is proved by
induction on their size. -/

set_option autoImplicit false

namespace RecordMerge.Value

variable {element : Value} {elements : List Value} {entries : Record} {entry : Value × Value}

theorem sizeOf_lt_list (member : element ∈ elements) :
    sizeOf element < sizeOf (Value.list elements) := by
  have smaller := List.sizeOf_lt_of_mem member
  simp only [list.sizeOf_spec]
  omega

theorem sizeOf_lt_tuple (member : element ∈ elements) :
    sizeOf element < sizeOf (Value.tuple elements) := by
  have smaller := List.sizeOf_lt_of_mem member
  simp only [tuple.sizeOf_spec]
  omega

theorem sizeOf_lt_set {frozen : Bool} (member : element ∈ elements) :
    sizeOf element < sizeOf (Value.set frozen elements) := by
  have smaller := List.sizeOf_lt_of_mem member
  simp only [set.sizeOf_spec]
  omega

theorem sizeOf_key_lt_map (member : entry ∈ entries) :
    sizeOf entry.1 < sizeOf (Value.map entries) := by
  have smaller := List.sizeOf_lt_of_mem member
  obtain ⟨key, value⟩ := entry
  simp only [Prod.mk.sizeOf_spec] at smaller
  simp only [map.sizeOf_spec]
  omega

theorem sizeOf_lt_map (member : entry ∈ entries) : sizeOf entry.2 < sizeOf (Value.map entries) := by
  have smaller := List.sizeOf_lt_of_mem member
  obtain ⟨key, value⟩ := entry
  simp only [Prod.mk.sizeOf_spec] at smaller
  simp only [map.sizeOf_spec]
  omega

/-- An element of a row or a set, or what a map holds under a key. -/
inductive PartOf (part : Value) : Value → Prop where
  | list {elements : List Value} (member : part ∈ elements) : PartOf part (.list elements)
  | tuple {elements : List Value} (member : part ∈ elements) : PartOf part (.tuple elements)
  | set {frozen : Bool} {elements : List Value} (member : part ∈ elements) :
      PartOf part (.set frozen elements)
  | map {key : Value} {entries : Record} (member : (key, part) ∈ entries) :
      PartOf part (.map entries)

theorem PartOf.sizeOf_lt {part value : Value} (inner : part.PartOf value) :
    sizeOf part < sizeOf value := by
  cases inner with
  | list member => exact sizeOf_lt_list member
  | tuple member => exact sizeOf_lt_tuple member
  | set member => exact sizeOf_lt_set member
  | map member => exact sizeOf_lt_map member

/-- To prove something of every value, prove it of a value if it holds of its parts. -/
@[elab_as_elim]
theorem part_induction {motive : Value → Prop}
    (step : ∀ value, (∀ part, part.PartOf value → motive part) → motive value) (value : Value) :
    motive value := by
  induction size : sizeOf value using Nat.strongRecOn generalizing value with
  | ind bound smaller =>
    subst size
    exact step value fun part inner => smaller _ inner.sizeOf_lt _ rfl

end RecordMerge.Value

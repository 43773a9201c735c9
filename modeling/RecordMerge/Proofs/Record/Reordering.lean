import Mathlib.Data.List.Perm.Basic
import RecordMerge.Proofs.Record.Position
import RecordMerge.Proofs.Value.Size

/-! Equality of records up to the order in which their maps list their entries. -/

set_option autoImplicit false

namespace RecordMerge

/-- Two values are the same up to the order of entries of the maps they nest. What is held in the
maps is compared by `same`. -/
inductive Value.Reordered (same : Value → Value → Prop) : Value → Value → Prop where
  | held {left right : Value} : same left right → Reordered same left right
  | map {left right : Record} : (left.map Prod.fst).Perm (right.map Prod.fst) →
      (∀ name first second, left.get? name = some first → right.get? name = some second →
        Reordered same first second) →
      Reordered same (.map left) (.map right)

namespace Record

/-- Two records have the same names, and under each name the same value up to the order of
entries. -/
def Reordered (same : Value → Value → Prop) (left right : Record) : Prop :=
  (left.map Prod.fst).Perm (right.map Prod.fst) ∧
  ∀ name first second, left.get? name = some first → right.get? name = some second →
    Value.Reordered same first second

end Record

namespace Value

/-- What two values have at a position is equal, or it is a map in both. -/
def Agree (left right : Option Value) : Prop :=
  left = right ∨ ∃ first second, left = some (.map first) ∧ right = some (.map second)

theorem Agree.isSome {left right : Option Value} (agree : Agree left right) :
    left.isSome = right.isSome := by
  rcases agree with same | ⟨first, second, rfl, rfl⟩
  · rw [same]
  · rfl

theorem sizeOf_lt_of_get? {name : String} {record : Record} {value : Value}
    (found : record.get? name = some value) : sizeOf value < sizeOf (Value.map record) :=
  sizeOf_lt_map (Record.mem_of_get? found)

theorem perm_keys {left right : Record} (leftNames : left.named = true)
    (rightNames : right.named = true)
    (agree : ∀ name, (left.get? name).isSome = (right.get? name).isSome) :
    (left.map Prod.fst).Perm (right.map Prod.fst) := by
  have leftDistinct := Record.nodup_of_named leftNames
  have rightDistinct := Record.nodup_of_named rightNames
  rw [List.perm_ext_iff_of_nodup leftDistinct rightDistinct]
  intro key
  rw [Record.mem_keys_iff leftNames, Record.mem_keys_iff rightNames]
  have stored (name : String) :
      (∃ value, left.get? name = some value) ↔ ∃ value, right.get? name = some value := by
    rw [← Option.isSome_iff_exists, ← Option.isSome_iff_exists, agree name]
  constructor
  · rintro ⟨name, value, rfl, found⟩
    obtain ⟨other, held⟩ := (stored name).mp ⟨value, found⟩
    exact ⟨name, other, rfl, held⟩
  · rintro ⟨name, value, rfl, found⟩
    obtain ⟨other, held⟩ := (stored name).mpr ⟨value, found⟩
    exact ⟨name, other, rfl, held⟩

/-- Trees that agree at every position are the same up to the order of entries. -/
theorem reordered_of_agree {left right : Value} (leftTree : left.isTree = true)
    (rightTree : right.isTree = true) (agree : ∀ path, Agree (left.at? path) (right.at? path)) :
    Reordered Eq left right := by
  -- The positions below a name are those of a smaller value.
  induction size : sizeOf left using Nat.strongRecOn generalizing left right with
  | ind bound smaller =>
    subst size
    have top := agree []
    simp only [Agree, at?_nil, Option.some.injEq] at top
    rcases top with same | ⟨first, second, rfl, rfl⟩
    · exact .held same
    · obtain ⟨leftNames, leftBelow⟩ := isTree_map_iff.mp leftTree
      obtain ⟨rightNames, rightBelow⟩ := isTree_map_iff.mp rightTree
      refine .map (perm_keys leftNames rightNames fun name => ?_) ?_
      · rw [← at?_single, ← at?_single]
        exact (agree [name]).isSome
      · intro name inner outer found held
        refine smaller _ (sizeOf_lt_of_get? found) (leftBelow name inner found)
          (rightBelow name outer held) (fun path => ?_) rfl
        simpa [found, held] using agree (name :: path)

theorem Reordered.mono {same weaker : Value → Value → Prop}
    (implied : ∀ left right, same left right → weaker left right) {left right : Value}
    (reordered : Reordered same left right) : Reordered weaker left right := by
  induction reordered with
  | held equal => exact .held (implied _ _ equal)
  | map keys items tail => exact .map keys tail

theorem Reordered.symm {left right : Value} (reordered : Reordered Eq left right) :
    Reordered Eq right left := by
  induction reordered with
  | held equal => exact .held equal.symm
  | map keys items tail =>
    exact .map keys.symm fun name first second found held => tail name second first held found

theorem Reordered.isUnset_eq {left right : Value} (reordered : Reordered Eq left right) :
    left.isUnset = right.isUnset := by
  cases reordered with
  | held equal => rw [equal]
  | map => rfl

end Value

namespace Record

theorem reordered_of_agree {left right : Record} (leftTree : left.isTree = true)
    (rightTree : right.isTree = true)
    (agree : ∀ path, Value.Agree (left.at? path) (right.at? path)) : Reordered Eq left right := by
  have values := Value.reordered_of_agree leftTree rightTree agree
  cases values with
  | held equal =>
    cases equal
    exact ⟨List.Perm.refl _, fun name first second found held =>
      .held (Option.some.inj (found.symm.trans held))⟩
  | map keys items => exact ⟨keys, items⟩

/-- Records with the same value at one position agree on the way to it and below it. -/
theorem agree_of_not_apart {left right : Record} {path other : List String} {value : Value}
    (here : left.at? other = some value) (there : right.at? other = some value)
    (touches : ¬ Apart other path) : Value.Agree (left.at? path) (right.at? path) := by
  rcases Decidable.or_iff_not_not_and_not.mpr touches with ⟨below, rfl⟩ | ⟨way, whole⟩
  · left
    rw [at?, at?, Value.at?_append, Value.at?_append]
    exact congrArg (fun value => value.bind (Value.at? below)) (here.trans there.symm)
  · cases way with
    | nil =>
      left
      rw [← List.append_nil path, whole]
      exact here.trans there.symm
    | cons name rest =>
      right
      rw [← whole] at here there
      obtain ⟨entries, found⟩ := Value.isMap_of_at?_append here
      obtain ⟨others, held⟩ := Value.isMap_of_at?_append there
      exact ⟨entries, others, found, held⟩

/-- Records that have the same values at the paths of some leaves agree on the way to these and below
them, and elsewhere if they are alike there. -/
theorem agree_of_leaves {left right : Record} {path : List String} (leaves : List Leaf)
    (written : ∀ leaf ∈ leaves, ∃ value,
      left.at? leaf.path = some value ∧ right.at? leaf.path = some value)
    (elsewhere : (∀ leaf ∈ leaves, Apart leaf.path path) → left.at? path = right.at? path) :
    Value.Agree (left.at? path) (right.at? path) := by
  by_cases apart : ∀ leaf ∈ leaves, Apart leaf.path path
  · exact Or.inl (elsewhere apart)
  · obtain ⟨leaf, member, touches⟩ : ∃ leaf ∈ leaves, ¬ Apart leaf.path path := by
      simpa using apart
    obtain ⟨value, here, there⟩ := written leaf member
    exact agree_of_not_apart here there touches

/-- Trees that agree at every position that is not under the given names, and have values under these
that count as the same. -/
theorem reordered_of_agree_beside {same : Value → Value → Prop}
    (reflexive : ∀ value, same value value) {left right : Record} {names : List String}
    (leftTree : left.isTree = true) (rightTree : right.isTree = true)
    (agree : ∀ name rest, name ∉ names →
      Value.Agree (left.at? (name :: rest)) (right.at? (name :: rest)))
    (known : ∀ name ∈ names, ∃ first second,
      left.get? name = some first ∧ right.get? name = some second ∧ same first second) :
    Reordered same left right := by
  obtain ⟨leftNames, leftBelow⟩ := Value.isTree_map_iff.mp leftTree
  obtain ⟨rightNames, rightBelow⟩ := Value.isTree_map_iff.mp rightTree
  refine ⟨Value.perm_keys leftNames rightNames fun name => ?_, fun name inner outer found held => ?_⟩
  · by_cases given : name ∈ names
    · obtain ⟨first, second, one, two, -⟩ := known name given
      rw [one, two]
      rfl
    · rw [← at?_single, ← at?_single]
      exact (agree name [] given).isSome
  · by_cases given : name ∈ names
    · obtain ⟨first, second, one, two, equal⟩ := known name given
      cases Option.some.inj (one.symm.trans found)
      cases Option.some.inj (two.symm.trans held)
      exact .held equal
    · refine (Value.reordered_of_agree (leftBelow name inner found) (rightBelow name outer held)
        fun path => ?_).mono fun value other equal => equal ▸ reflexive value
      simpa [at?, found, held] using agree name path given

/-- Trees with the same values at the paths of some leaves and under the given names, and alike wherever
they have none of these. -/
theorem reordered_of_leaves {left right : Record} (leaves : List Leaf) (names : List String)
    (leftTree : left.isTree = true) (rightTree : right.isTree = true)
    (written : ∀ leaf ∈ leaves, ∃ value,
      left.at? leaf.path = some value ∧ right.at? leaf.path = some value)
    (elsewhere : ∀ name rest, name ∉ names → (∀ leaf ∈ leaves, Apart leaf.path (name :: rest)) →
      left.at? (name :: rest) = right.at? (name :: rest))
    (known : ∀ name ∈ names, ∃ value, left.get? name = some value ∧ right.get? name = some value) :
    Reordered Eq left right := by
  refine reordered_of_agree_beside (fun _ => rfl) leftTree rightTree (fun name rest given =>
    agree_of_leaves leaves written (elsewhere name rest given)) fun name given => ?_
  obtain ⟨value, here, there⟩ := known name given
  exact ⟨value, value, here, there, rfl⟩

theorem Reordered.mono {same weaker : Value → Value → Prop}
    (implied : ∀ left right, same left right → weaker left right) {left right : Record}
    (reordered : Reordered same left right) : Reordered weaker left right :=
  ⟨reordered.1, fun name first second found held =>
    (reordered.2 name first second found held).mono implied⟩

theorem Reordered.symm {left right : Record} (reordered : Reordered Eq left right) :
    Reordered Eq right left :=
  ⟨reordered.1.symm, fun name first second found held =>
    (reordered.2 name second first held found).symm⟩

/-- A name of one of two reordered records has values in both, and these are reordered too. -/
theorem Reordered.exists_get? {same : Value → Value → Prop} {left right : Record}
    (reordered : Reordered same left right) (names : right.named = true) {name : String}
    {first : Value} (found : left.get? name = some first) :
    ∃ second, right.get? name = some second ∧ Value.Reordered same first second := by
  have member := reordered.1.mem_iff.mp (List.mem_map_of_mem (mem_of_get? found))
  obtain ⟨other, second, text, held⟩ := (mem_keys_iff names).mp member
  cases text
  exact ⟨second, held, reordered.2 name first second found held⟩

theorem Reordered.set_right {same : Value → Value → Prop} {left right : Record}
    (reordered : Reordered same left right) {name : String} {kept given : Value}
    (stored : left.get? name = some kept) (equal : same kept given)
    (known : right.contains name = true) : Reordered same left (right.set name given) := by
  refine ⟨?_, fun other first second found held => ?_⟩
  · rw [keys_set known]
    exact reordered.1
  · rw [get?_set] at held
    split at held
    · next same =>
      subst same
      cases Option.some.inj (stored.symm.trans found)
      cases held
      exact .held equal
    · exact reordered.2 other first second found held

end Record

end RecordMerge

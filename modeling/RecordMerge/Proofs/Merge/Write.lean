import RecordMerge.Proofs.Leaf.Order

/-! Writing leaves one after another. Where no leaf stands on the path of another, each of them is
found at its path afterwards, and everything apart from all of them is as it was. -/

set_option autoImplicit false

namespace RecordMerge

namespace Value

mutual

/-- Whether no unset mark is in a value, at any depth and in keys. -/
def unsetFree : Value → Bool
  | .unset => false
  | .list elements => allUnsetFree elements
  | .tuple elements => allUnsetFree elements
  | .set _ elements => allUnsetFree elements
  | .map entries => entriesUnsetFree entries
  | _ => true

def allUnsetFree : List Value → Bool
  | [] => true
  | value :: rest => unsetFree value && allUnsetFree rest

def entriesUnsetFree : List (Value × Value) → Bool
  | [] => true
  | (key, value) :: rest => unsetFree key && unsetFree value && entriesUnsetFree rest

end

mutual

/-- A copy differs from its source in unset marks only. -/
theorem copied_of_unsetFree {value : Value} (free : value.unsetFree = true) :
    value.copied = value := by
  cases value with
  | unset => cases free
  | list elements => rw [copied, copiedAll_of_unsetFree free]
  | tuple elements => rw [copied, copiedAll_of_unsetFree free]
  | set frozen elements => rw [copied, copiedAll_of_unsetFree free]
  | map entries => rw [copied, copiedEntries_of_unsetFree free]
  | _ => rfl

theorem copiedAll_of_unsetFree {elements : List Value} (free : allUnsetFree elements = true) :
    copiedAll elements = elements := by
  cases elements with
  | nil => rfl
  | cons value rest =>
    obtain ⟨first, others⟩ := Bool.and_eq_true_iff.mp free
    rw [copiedAll, copied_of_unsetFree first, copiedAll_of_unsetFree others]

theorem copiedEntries_of_unsetFree {entries : List (Value × Value)}
    (free : entriesUnsetFree entries = true) : copiedEntries entries = entries := by
  cases entries with
  | nil => rfl
  | cons entry rest =>
    obtain ⟨key, value⟩ := entry
    obtain ⟨first, others⟩ := Bool.and_eq_true_iff.mp free
    obtain ⟨left, right⟩ := Bool.and_eq_true_iff.mp first
    rw [copiedEntries, copied_of_unsetFree left, copied_of_unsetFree right,
      copiedEntries_of_unsetFree others]

end

end Value

namespace Record

theorem unsetFree_of_get? {name : String} {record : Record} {value : Value}
    (free : Value.entriesUnsetFree record = true) (found : record.get? name = some value) :
    value.unsetFree = true := by
  have member := mem_of_get? found
  clear found
  induction record with
  | nil => cases member
  | cons entry rest tail =>
    obtain ⟨first, others⟩ := Bool.and_eq_true_iff.mp free
    rcases List.mem_cons.mp member with rfl | later
    · exact (Bool.and_eq_true_iff.mp first).2
    · exact tail others later

theorem unsetFree_of_at? {record : Record} {path : List String} {value : Value}
    (free : Value.entriesUnsetFree record = true) (found : record.at? path = some value) :
    value.unsetFree = true := by
  induction path generalizing record with
  | nil =>
    rw [at?, Value.at?_nil, Option.some.injEq] at found
    exact found ▸ free
  | cons name rest tail =>
    obtain ⟨held, reached, below⟩ := Option.bind_eq_some_iff.mp found
    have heldFree := unsetFree_of_get? free reached
    cases held with
    | map entries => exact tail heldFree below
    | _ =>
      cases rest with
      | nil =>
        rw [Value.at?_nil, Option.some.injEq] at below
        exact below ▸ heldFree
      | cons => cases below

theorem unsetFree_set {name : String} {value : Value} {record : Record}
    (free : Value.entriesUnsetFree record = true) (given : value.unsetFree = true) :
    Value.entriesUnsetFree (record.set name value) = true := by
  fun_induction set name value record with
  | case1 => simp [Value.entriesUnsetFree, Value.unsetFree, given]
  | case2 held rest => simp_all [Value.entriesUnsetFree]
  | case3 key held rest differs tail => simp_all [Value.entriesUnsetFree]
  | case4 entry rest other tail => simp_all [Value.entriesUnsetFree]

theorem unsetFree_branch {record : Record} (free : Value.entriesUnsetFree record = true)
    (name : String) : Value.entriesUnsetFree (record.branch name) = true := by
  unfold branch
  split
  · next entries found => exact unsetFree_of_get? free found
  · rfl

theorem unsetFree_write {value : Value} {keep : Bool} {path : List String} {record : Record}
    (free : Value.entriesUnsetFree record = true) (given : value.unsetFree = true) :
    Value.entriesUnsetFree (write value keep path record) = true := by
  fun_induction write value keep path record with
  | case1 => exact free
  | case2 => exact free
  | case3 => exact unsetFree_set free given
  | case4 name rest record longer tail => exact unsetFree_set free (tail (unsetFree_branch free name))

/-- What a path has already is written there without a change. -/
theorem write_of_at? {value kept : Value} {keep : Bool} {path : List String} {record : Record}
    (found : record.at? path = some kept) (same : keep = true ∨ kept = value) :
    write value keep path record = record := by
  fun_induction write value keep path record with
  | case1 => rfl
  | case2 => rfl
  | case3 name record fresh =>
    rw [at?_single] at found
    rcases same with rfl | rfl
    · simp [contains, found] at fresh
    · exact set_of_get? found
  | case4 name rest record longer tail =>
    obtain ⟨step, reached, below⟩ := Option.bind_eq_some_iff.mp found
    cases rest with
    | nil => exact absurd rfl longer
    | cons next rest =>
      cases step with
      | map entries =>
        have branched : record.branch name = entries := by simp [branch, reached]
        rw [tail (by rw [branched]; exact below), branched]
        exact set_of_get? reached
      | _ => cases below

variable {leaves : List Leaf} {record : Record}

-- Leaves are written in their order into the record as it is by then. What is found at a path
-- afterwards is what the one leaf with that path has written there, since none of the others is met
-- on the way to it or below it; that leaf has found what the record had before.
theorem at?_foldl_writeLeaf_apart {path : List String}
    (apart : ∀ leaf ∈ leaves, Apart leaf.path path) :
    (leaves.foldl writeLeaf record).at? path = record.at? path := by
  induction leaves generalizing record with
  | nil => rfl
  | cons leaf rest tail =>
    obtain ⟨first, others⟩ := List.forall_mem_cons.mp apart
    rw [List.foldl_cons, tail others, writeLeaf, at?_write_apart _ _ record first]

theorem at?_foldl_writeLeaf {leaf : Leaf} (member : leaf ∈ leaves)
    (apart : leaves.Pairwise fun first second => Apart first.path second.path)
    (nonempty : ∀ leaf ∈ leaves, leaf.path ≠ []) :
    (leaves.foldl writeLeaf record).at? leaf.path =
      some (if leaf.insertOnly then (record.at? leaf.path).getD leaf.value.copied
        else leaf.value.copied) := by
  induction leaves generalizing record with
  | nil => cases member
  | cons first rest tail =>
    obtain ⟨fromFirst, among⟩ := List.pairwise_cons.mp apart
    rw [List.foldl_cons]
    rcases List.mem_cons.mp member with rfl | later
    · rw [at?_foldl_writeLeaf_apart fun other within => (fromFirst other within).symm]
      exact at?_write_self _ _ _ record (nonempty leaf List.mem_cons_self)
    · rw [tail later among fun other within => nonempty other (List.mem_cons_of_mem _ within),
        writeLeaf, at?_write_apart _ _ record (fromFirst leaf later)]

theorem foldl_writeLeaf_of_at?
    (there : ∀ leaf ∈ leaves, ∃ kept, record.at? leaf.path = some kept ∧
      (leaf.insertOnly = true ∨ kept = leaf.value.copied)) :
    leaves.foldl writeLeaf record = record := by
  induction leaves with
  | nil => rfl
  | cons leaf rest tail =>
    obtain ⟨⟨kept, found, same⟩, others⟩ := List.forall_mem_cons.mp there
    rw [List.foldl_cons, writeLeaf, write_of_at? found same, tail others]

theorem isTree_foldl_writeLeaf (tree : record.isTree = true)
    (values : ∀ leaf ∈ leaves, leaf.value.copied.isTree = true) :
    (leaves.foldl writeLeaf record).isTree = true := by
  induction leaves generalizing record with
  | nil => exact tree
  | cons leaf rest tail =>
    obtain ⟨first, others⟩ := List.forall_mem_cons.mp values
    exact tail (isTree_write tree first) others

end Record

end RecordMerge

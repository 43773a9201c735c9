import RecordMerge.Proofs.Merge.Agreement
import RecordMerge.Proofs.Merge.Keys

/-!
The effect of a merge, position by position.

A merge writes leaf by leaf, and makes or replaces maps on its way. What stands at a position
afterwards depends only on the position: whether it is the path of a leaf, apart from all of them,
or under a key attribute.
-/

set_option autoImplicit false

namespace RecordMerge

theorem Value.isTree_copied {value : Value} (tree : value.isTree = true) :
    value.copied.isTree = true := by
  induction value using Value.map_induction with
  | plain value plain =>
    cases value with
    | map entries =>
      cases entries with
      | nil => rfl
      | cons entry rest => cases plain
    | _ => rfl
  | node entries node tail =>
    obtain ⟨names, below⟩ := isTree_map_iff.mp tree
    refine isTree_map_iff.mpr ⟨Record.named_copiedEntries names, fun name value found => ?_⟩
    rw [Record.get?_copiedEntries] at found
    obtain ⟨held, stored, rfl⟩ := Option.map_eq_some_iff.mp found
    exact tail _ (Record.mem_of_get? stored) (below name held stored)

namespace Record

/-- There are no unset marks but in the named attributes. -/
def FreeBeside (names : List String) (record : Record) : Prop :=
  ∀ name value, record.get? name = some value → name ∉ names → value.unsetFree = true

variable {names : List String}

theorem freeBeside_of_unsetFree {record : Record}
    (free : Value.entriesUnsetFree record = true) : record.FreeBeside names :=
  fun _ _ found _ => unsetFree_of_get? free found

theorem FreeBeside.at?_copied {record : Record} (free : record.FreeBeside names) {name : String}
    (other : name ∉ names) (rest : List String) :
    at? (Value.copiedEntries record) (name :: rest) = record.at? (name :: rest) := by
  simp only [at?, Value.at?_map_cons, get?_copiedEntries]
  cases found : record.get? name with
  | none => rfl
  | some value => rw [Option.map_some, Value.copied_of_unsetFree (free name value found other)]

theorem FreeBeside.copied {record : Record} (free : record.FreeBeside names) :
    FreeBeside names (Value.copiedEntries record) := by
  intro name value found other
  rw [get?_copiedEntries] at found
  obtain ⟨held, stored, rfl⟩ := Option.map_eq_some_iff.mp found
  have heldFree := free name held stored other
  rwa [Value.copied_of_unsetFree heldFree]

theorem FreeBeside.write {record : Record} {value : Value} {keep : Bool} {path : List String}
    (free : record.FreeBeside names) (given : value.unsetFree = true) :
    FreeBeside names (record.write value keep path) := by
  fun_cases Record.write value keep path record with
  | case1 => exact free
  | case2 => exact free
  | case3 name =>
    intro other held found apart
    rw [get?_set] at found
    split at found
    · exact Option.some.inj found ▸ given
    · exact free other held found apart
  | case4 name rest _ longer =>
    intro other held found apart
    rw [get?_set] at found
    split at found
    · next same =>
      subst same
      rw [← Option.some.inj found]
      apply unsetFree_write _ given
      unfold branch
      split
      · next entries stored => exact free name _ stored apart
      · rfl
    · exact free other held found apart

theorem FreeBeside.foldl_writeLeaf {leaves : List Leaf} {record : Record}
    (free : record.FreeBeside names)
    (given : ∀ leaf ∈ leaves, leaf.value.unsetFree = true) :
    FreeBeside names (leaves.foldl writeLeaf record) := by
  induction leaves generalizing record with
  | nil => exact free
  | cons leaf rest tail =>
    obtain ⟨first, others⟩ := List.forall_mem_cons.mp given
    refine tail (free.write ?_) others
    rwa [Value.copied_of_unsetFree first]

/-- What merging the selected leaves of a record into a stored one makes. -/
structure Merges (schema : KeySchema) (policy : Policy) (current incoming merged : Record) :
    Prop where
  tree : merged.isTree = true
  free : merged.FreeBeside schema.names
  written : ∀ leaf ∈ incoming.leaves schema policy, merged.at? leaf.path =
    some (if leaf.insertOnly then (current.at? leaf.path).getD leaf.value else leaf.value)
  kept : ∀ name rest, name ∉ schema.names →
    (∀ leaf ∈ incoming.leaves schema policy, Apart leaf.path (name :: rest)) →
    merged.at? (name :: rest) = current.at? (name :: rest)
  identity : ∀ name ∈ schema.names, merged.get? name = incoming.get? name

variable {schema : KeySchema} {policy : Policy} {current incoming merged : Record}

-- The stored record is copied first, the leaves are written next and the identity last. Each step
-- leaves alone what the others decide: no leaf is under a key attribute, and a copy differs at most
-- there.
theorem merges_of_merge (currentTree : current.isTree = true)
    (incomingTree : incoming.isTree = true) (currentFree : current.FreeBeside schema.names)
    (leavesFree : ∀ leaf ∈ incoming.leaves schema policy, leaf.value.unsetFree = true)
    (done : merge current incoming schema policy = .ok merged) :
    Merges schema policy current incoming merged := by
  obtain ⟨leaves, walked, later⟩ := bind_eq_ok_iff.mp done
  obtain ⟨identity, keyed, built⟩ := bind_eq_ok_iff.mp later
  obtain rfl := Except.ok.inj ((complete_walk incomingTree).symm.trans walked)
  cases built
  have listed := KeySchema.identities_eq_ok_iff.mp keyed
  have distinct := listed.named schema.nodup_names
  have beside {name : String} (other : name ∉ schema.names) : identity.get? name = none :=
    listed.get?_eq_none other
  have copiedTree : isTree (Value.copiedEntries current) = true := Value.isTree_copied currentTree
  constructor
  case tree =>
    apply isTree_setAll
    · refine isTree_foldl_writeLeaf copiedTree fun leaf member => Value.isTree_copied ?_
      exact Value.isTree_of_at? incomingTree (at?_of_mem_leaves incomingTree member)
    · intro entry member
      obtain ⟨name, -, -, held⟩ := listed.of_mem member
      exact (Value.isTree_map_iff.mp incomingTree).2 name _ (KeySchema.get?_of_identityOf held)
  case free =>
    intro name value found other
    rw [get?_setAll distinct, beside other, Option.none_or] at found
    exact currentFree.copied.foldl_writeLeaf leavesFree name value found other
  case written =>
    intro leaf member
    obtain ⟨name, rest, path, other⟩ := path_of_mem_leaves member
    rw [path, at?_setAll distinct (beside other), ← path,
      at?_foldl_writeLeaf member (pairwise_leaves incomingTree)
        fun leaf => path_ne_nil_of_mem_leaves,
      Value.copied_of_unsetFree (leavesFree leaf member), path, currentFree.at?_copied other]
  case kept =>
    intro name rest other apart
    rw [at?_setAll distinct (beside other), at?_foldl_writeLeaf_apart apart,
      currentFree.at?_copied other]
  case identity => exact fun name key => get?_merge done key

/-- A merge of trees fails only where the incoming record has no identity. -/
theorem exists_merge_iff (incomingTree : incoming.isTree = true) :
    (∃ merged, merge current incoming schema policy = .ok merged) ↔
      ∃ identity, schema.keyOf incoming = .ok identity := by
  constructor
  · rintro ⟨merged, done⟩
    obtain ⟨leaves, -, later⟩ := bind_eq_ok_iff.mp done
    obtain ⟨identity, keyed, -⟩ := bind_eq_ok_iff.mp later
    exact ⟨identity, keyed⟩
  · rintro ⟨identity, keyed⟩
    exact ⟨_, merge_eq_ok (complete_walk incomingTree) keyed⟩

/-- Above a leaf the merged record has maps only, whatever the stored one has there. -/
theorem Merges.isMap_above (merges : Merges schema policy current incoming merged) {leaf : Leaf}
    (member : leaf ∈ incoming.leaves schema policy) {above rest : List String} {name : String}
    (path : leaf.path = above ++ name :: rest) :
    ∃ entries, merged.at? above = some (.map entries) := by
  have found := merges.written leaf member
  rw [path] at found
  exact Value.isMap_of_at?_append found

/-- The effect of a merge. A leaf is at its path, unless it is insert-only and the stored record has
something there; positions apart from all leaves and not under a key attribute are as they are
stored, and there are no others; and the identity is that of the incoming record. -/
theorem merge_effect (currentTree : current.isTree = true) (incomingTree : incoming.isTree = true)
    (currentFree : Value.entriesUnsetFree current = true)
    (leavesFree : ∀ leaf ∈ incoming.leaves schema policy, leaf.value.unsetFree = true) :
    ((∃ merged, merge current incoming schema policy = .ok merged) ↔
      ∃ identity, schema.keyOf incoming = .ok identity) ∧
    ∀ merged, merge current incoming schema policy = .ok merged →
      (∀ leaf ∈ incoming.leaves schema policy, merged.at? leaf.path =
        some (if leaf.insertOnly then (current.at? leaf.path).getD leaf.value else leaf.value)) ∧
      (∀ name rest value, current.at? (name :: rest) = some value → name ∉ schema.names →
        (∀ leaf ∈ incoming.leaves schema policy, Apart leaf.path (name :: rest)) →
        merged.at? (name :: rest) = some value) ∧
      (∀ name rest value, merged.at? (name :: rest) = some value →
        current.at? (name :: rest) = some value ∨ name ∈ schema.names ∨
          ∃ leaf ∈ incoming.leaves schema policy,
            leaf.path <+: name :: rest ∨ name :: rest <+: leaf.path) ∧
      (∀ name ∈ schema.names, merged.get? name = incoming.get? name) ∧
      ∀ leaf ∈ incoming.leaves schema policy, ∀ above name rest,
        leaf.path = above ++ name :: rest → ∃ entries, merged.at? above = some (.map entries) := by
  refine ⟨exists_merge_iff incomingTree, fun merged done => ?_⟩
  have merges := merges_of_merge currentTree incomingTree (freeBeside_of_unsetFree currentFree)
    leavesFree done
  refine ⟨merges.written, ?_, ?_, merges.identity, ?_⟩
  · intro name rest value stored other apart
    rw [merges.kept name rest other apart, stored]
  · intro name rest value found
    by_cases other : name ∈ schema.names
    · exact Or.inr (Or.inl other)
    by_cases apart : ∀ leaf ∈ incoming.leaves schema policy, Apart leaf.path (name :: rest)
    · rw [merges.kept name rest other apart] at found
      exact Or.inl found
    · simp only [Apart, not_forall, Classical.not_and_iff_not_or_not, not_not] at apart
      obtain ⟨leaf, member, touches⟩ := apart
      exact Or.inr (Or.inr ⟨leaf, member, touches⟩)
  · intro leaf member above name rest path
    exact merges.isMap_above member path

/-- A stored parcel with a text where an incoming one has a map, and a null that is kept. -/
def storedSize : Record :=
  [(.text "id", .int 1), (.text "size", .map [(.text "unit", .text "cm"), (.text "width", .text "?")]),
    (.text "seen", .null), (.text "note", .text "old")]

def incomingSize : Record :=
  [(.text "note", .text "new"), (.text "seen", .int 7),
    (.text "size", .map [(.text "width", .map [(.text "least", .int 2)])]), (.text "id", .bool true)]

theorem merge_effect_size :
    ∃ merged, merge storedSize incomingSize .order
        (.only ["seen", "size.width.least"] ["seen", "size.width.least"] false) = .ok merged ∧
      merged.at? ["size", "width", "least"] = some (.int 2) ∧
      merged.at? ["seen"] = some .null ∧ merged.at? ["size", "unit"] = some (.text "cm") ∧
      merged.at? ["note"] = some (.text "old") ∧ merged.get? "id" = some (.bool true) ∧
      ∃ entries, merged.at? ["size", "width"] = some (.map entries) := by
  have leaves : incomingSize.leaves .order
      (.only ["seen", "size.width.least"] ["seen", "size.width.least"] false) =
        [⟨["seen"], .int 7, true⟩, ⟨["size", "width", "least"], .int 2, true⟩] := rfl
  have free : ∀ leaf ∈ incomingSize.leaves .order
      (.only ["seen", "size.width.least"] ["seen", "size.width.least"] false),
      leaf.value.unsetFree = true := by
    rw [leaves]
    decide
  obtain ⟨exact, effect⟩ := merge_effect (show storedSize.isTree = true from rfl)
    (show incomingSize.isTree = true from rfl) rfl free
  obtain ⟨merged, done⟩ := exact.mpr ⟨_, rfl⟩
  obtain ⟨written, kept, -, identity, above⟩ := effect merged done
  rw [leaves] at written kept above
  simp only [List.forall_mem_cons] at written above
  refine ⟨merged, done, written.2.1, written.1, ?_, ?_, identity "id" (by decide), ?_⟩
  · exact kept "size" ["unit"] _ rfl (by decide) (by simp [Apart])
  · exact kept "note" [] _ rfl (by decide) (by simp [Apart])
  · exact above.2.1 ["size", "width"] "least" [] rfl

end Record

end RecordMerge

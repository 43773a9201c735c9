import RecordMerge.Proofs.Expression.Evaluation
import RecordMerge.Proofs.KeySchema
import RecordMerge.Proofs.Merge.Write
import RecordMerge.Value.Equality

/-! The two ways to write a record agree: the update expression, read by the service against the
stored item, and the merge, which writes leaf by leaf into a copy of that item. -/

set_option autoImplicit false

namespace RecordMerge

open Expression (Assigns Evaluates)

namespace Record

variable {current incoming : Record} {schema : KeySchema} {policy : Policy}

/-- Writing the leaves of a record one after another assigns all of them at once. -/
theorem assigns_foldl_writeLeaf (currentTree : current.isTree = true)
    (incomingTree : incoming.isTree = true)
    (free : ∀ leaf ∈ incoming.leaves schema policy, leaf.value.unsetFree = true)
    (parents : ∀ leaf ∈ incoming.leaves schema policy,
      ∃ entries, current.at? leaf.path.dropLast = some (.map entries)) :
    Assigns current (incoming.leaves schema policy)
      ((incoming.leaves schema policy).foldl writeLeaf current) where
  tree := by
    refine isTree_foldl_writeLeaf currentTree fun leaf member => ?_
    rw [Value.copied_of_unsetFree (free leaf member)]
    exact Value.isTree_of_at? incomingTree (at?_of_mem_leaves incomingTree member)
  parents := parents
  assigned leaf member := by
    rw [at?_foldl_writeLeaf member (pairwise_leaves incomingTree)
      fun other => path_ne_nil_of_mem_leaves, Value.copied_of_unsetFree (free leaf member)]
  kept path apart := at?_foldl_writeLeaf_apart apart

theorem get?_of_assigns {result : Record} {name : String}
    (outcome : Assigns current (incoming.leaves schema policy) result)
    (key : name ∈ schema.names) : result.get? name = current.get? name := by
  rw [← at?_single, ← at?_single]
  refine outcome.kept [name] fun leaf member => ?_
  obtain ⟨other, rest, path, plain⟩ := path_of_mem_leaves member
  rw [path]
  exact apart_cons_iff.mpr fun same => absurd (same ▸ key) plain

/-- Giving a record an identity that it has already, up to `same`, changes nothing else. -/
theorem Reordered.setAll_right {same : Value → Value → Prop} {left right identity : Record}
    (reordered : Reordered same left right)
    (known : ∀ entry ∈ identity, ∃ name kept, entry.1 = .text name ∧
      left.get? name = some kept ∧ same kept entry.2 ∧ right.contains name = true) :
    Reordered same left (right.setAll identity) := by
  induction identity generalizing right with
  | nil => exact reordered
  | cons entry rest tail =>
    obtain ⟨first, others⟩ := List.forall_mem_cons.mp known
    obtain ⟨name, kept, key, stored, equal, present⟩ := first
    have text : entry.1.toText = name := by rw [key, Value.toText_text]
    have given : right.setAll (entry :: rest) = (right.set name entry.2).setAll rest := by
      simp [setAll, text]
    rw [given]
    refine tail (reordered.set_right stored equal present) fun other member => ?_
    obtain ⟨also, held, otherKey, found, same, contained⟩ := others other member
    exact ⟨also, held, otherKey, found, same, by simp [contains_set, contained]⟩

theorem merge_eq_ok {leaves : List Leaf} {identity : Record}
    (complete : (incoming.walk schema policy).complete = .ok leaves)
    (keyed : schema.keyOf incoming = .ok identity) :
    merge current incoming schema policy =
      .ok ((leaves.foldl writeLeaf (Value.copiedEntries current)).setAll identity) := by
  unfold merge
  rw [complete, keyed]
  rfl

end Record

-- Both ways are compared with one description, `Assigns`. The merge satisfies it because leaves
-- never overlap, the expression because it decodes to the same leaves, and two outcomes of it
-- agree at every position. The identity is written last by the merge only, over values that count
-- as the same.
/-- The update of a record and its merge into the stored item have the same outcome, up to the order
of entries and up to `same` in the key attributes. -/
theorem merge_agrees_with_update {same : Value → Value → Prop}
    (reflexive : ∀ value, same value value) {current incoming : Record} {schema : KeySchema}
    {policy : Policy} {update : Update} (currentTree : current.isTree = true)
    (incomingTree : incoming.isTree = true) (currentFree : Value.entriesUnsetFree current = true)
    (leavesFree : ∀ leaf ∈ incoming.leaves schema policy, leaf.value.unsetFree = true)
    (compiled : Update.compile incoming schema policy = .ok update)
    (identities : ∀ name ∈ schema.names, ∃ stored given,
      KeySchema.identityOf current name = .ok stored ∧
      KeySchema.identityOf incoming name = .ok given ∧ same stored given)
    (parents : ∀ leaf ∈ incoming.leaves schema policy,
      ∃ entries, current.at? leaf.path.dropLast = some (.map entries)) :
    ∃ merged, Record.merge current incoming schema policy = .ok merged ∧
      (∃ updated, Evaluates update.text update.names update.values current updated) ∧
      ∀ updated, Evaluates update.text update.names update.values current updated →
        Record.Reordered same updated merged := by
  obtain ⟨complete, -⟩ := Update.compile_spec compiled
  obtain ⟨leaves, walked, decodes⟩ := Expression.compile_decodes compiled
  obtain rfl : incoming.leaves schema policy = leaves := Except.ok.inj (complete.symm.trans walked)
  obtain ⟨identity, listed⟩ := KeySchema.exists_lists fun name key =>
    have ⟨_, given, _, found, _⟩ := identities name key
    ⟨given, found⟩
  have keyed := KeySchema.identities_eq_ok_iff.mpr listed
  have written := Record.assigns_foldl_writeLeaf currentTree incomingTree leavesFree parents
  refine ⟨_, Record.merge_eq_ok complete keyed, ⟨_, decodes.evaluates_iff.mpr written⟩,
    fun updated evaluated => ?_⟩
  have assigned := decodes.evaluates_iff.mp evaluated
  rw [Value.copiedEntries_of_unsetFree currentFree]
  refine ((assigned.reordered written).mono fun left right equal =>
    equal ▸ reflexive left).setAll_right fun entry member => ?_
  obtain ⟨name, key, text, found⟩ := listed.of_mem member
  obtain ⟨stored, given, held, also, equal⟩ := identities name key
  obtain rfl := Except.ok.inj (also.symm.trans found)
  have kept := KeySchema.get?_of_identityOf held
  refine ⟨name, stored, text, ?_, equal, Record.contains_iff.mpr ⟨stored, ?_⟩⟩
  · rw [Record.get?_of_assigns assigned key, kept]
  · rw [Record.get?_of_assigns written key, kept]

/-- A stored record with a null that an insert-only leaf keeps. -/
def storedOrder : Record :=
  [(.text "id", .int 1), (.text "a", .map [(.text "x", .null), (.text "y", .int 2)])]

/-- A record with an identity that equals the stored one without being the same. -/
def incomingOrder : Record :=
  [(.text "b", .text "new"), (.text "id", .decimal (.finite false 1 0)),
    (.text "a", .map [(.text "x", .int 5), (.text "w", .map [])])]

theorem merge_agrees_with_update_order :
    ∃ update, Update.compile incomingOrder .order (.all ["a.x"] false) = .ok update ∧
      ∃ merged,
        Record.merge storedOrder incomingOrder .order (.all ["a.x"] false) = .ok merged ∧
        (∃ updated, Evaluates update.text update.names update.values storedOrder updated) ∧
        ∀ updated, Evaluates update.text update.names update.values storedOrder updated →
          Record.Reordered (fun left right => left = right ∨ left.compare? right = some true)
            updated merged := by
  have leaves : incomingOrder.leaves KeySchema.order (.all ["a.x"] false) =
      [⟨["b"], .text "new", false⟩, ⟨["a", "x"], .int 5, true⟩, ⟨["a", "w"], .map [], false⟩] := rfl
  refine ⟨_, rfl, merge_agrees_with_update (fun value => Or.inl rfl) rfl rfl rfl ?_ rfl ?_ ?_⟩
  · rw [leaves]
    decide
  · intro name key
    obtain rfl := List.mem_singleton.mp key
    exact ⟨.int 1, .decimal (.finite false 1 0), rfl, rfl, Or.inr rfl⟩
  · rw [leaves]
    simp only [List.forall_mem_cons]
    exact ⟨⟨_, rfl⟩, ⟨_, rfl⟩, ⟨_, rfl⟩, by simp⟩

end RecordMerge

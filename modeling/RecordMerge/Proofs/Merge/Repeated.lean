import RecordMerge.Proofs.Merge.Effect

/-!
Merging a record once more.

A merged record has the leaves at their paths, the identity under its keys and maps above every
leaf. A second merge of the same record writes what is there already, and so does its update.
-/

set_option autoImplicit false

namespace RecordMerge

open Expression (Assigns Evaluates)

namespace Record

variable {schema : KeySchema} {policy : Policy} {current incoming merged : Record}

theorem Merges.foldl_writeLeaf_copied (merges : Merges schema policy current incoming merged)
    (leavesFree : ∀ leaf ∈ incoming.leaves schema policy, leaf.value.unsetFree = true) :
    (incoming.leaves schema policy).foldl writeLeaf (Value.copiedEntries merged) =
      Value.copiedEntries merged := by
  refine foldl_writeLeaf_of_at? fun leaf member => ?_
  obtain ⟨name, rest, path, other⟩ := path_of_mem_leaves member
  have there : at? (Value.copiedEntries merged) leaf.path = merged.at? leaf.path := by
    rw [path, merges.free.at?_copied other]
  rw [there, merges.written leaf member, Value.copied_of_unsetFree (leavesFree leaf member)]
  refine ⟨_, rfl, ?_⟩
  cases leaf.insertOnly with
  | false => exact Or.inr rfl
  | true => exact Or.inl rfl

-- A copy of the merged record can differ from it in the identity, which is not copied by a merge. It
-- is written again in its place, and no key is added.
theorem Merges.setAll_copied {identity : Record}
    (merges : Merges schema policy current incoming merged)
    (keyed : schema.keyOf incoming = .ok identity) :
    setAll (Value.copiedEntries merged) identity = merged := by
  have listed := KeySchema.identities_eq_ok_iff.mp keyed
  have names := (Value.isTree_map_iff.mp merges.tree).1
  have held {name : String} (key : name ∈ schema.names) : identity.get? name = merged.get? name := by
    rw [listed.get?_eq key, merges.identity name key]
  apply ext_of_named (named_setAll (named_copiedEntries names))
  · refine (keys_setAll fun entry member => ?_).trans (keys_copiedEntries names)
    obtain ⟨name, key, text, found⟩ := listed.of_mem member
    have stored := (merges.identity name key).trans (KeySchema.get?_of_identityOf found)
    simp [text, contains, get?_copiedEntries, stored]
  · intro name
    rw [get?_setAll (listed.named schema.nodup_names), get?_copiedEntries]
    by_cases key : name ∈ schema.names
    · obtain ⟨value, found⟩ := listed.exists_identityOf key
      have stored := (merges.identity name key).trans (KeySchema.get?_of_identityOf found)
      rw [held key, stored, Option.some_or]
    · rw [listed.get?_eq_none key, Option.none_or]
      cases found : merged.get? name with
      | none => rfl
      | some value =>
        rw [Option.map_some, Value.copied_of_unsetFree (merges.free name value found key)]

theorem Merges.exists_parent (merges : Merges schema policy current incoming merged) {leaf : Leaf}
    (member : leaf ∈ incoming.leaves schema policy) :
    ∃ entries, merged.at? leaf.path.dropLast = some (.map entries) := by
  have whole := List.dropLast_append_getLast (path_ne_nil_of_mem_leaves member)
  exact merges.isMap_above member whole.symm

/-- Assigning the leaves to the merged record is assigning what it has. -/
theorem Merges.assigns (merges : Merges schema policy current incoming merged) :
    Assigns merged (incoming.leaves schema policy) merged where
  tree := merges.tree
  parents _ := merges.exists_parent
  assigned leaf member := by
    rw [merges.written leaf member]
    cases leaf.insertOnly <;> rfl
  kept _ _ := rfl

/-- Merging a record into a stored one once more makes the same record, in the same order. The merged
record has a map above every leaf, so that the update of the incoming record applies to it, and
makes nothing else of it than it is. -/
theorem merge_repeated (currentTree : current.isTree = true)
    (incomingTree : incoming.isTree = true) (currentFree : Value.entriesUnsetFree current = true)
    (leavesFree : ∀ leaf ∈ incoming.leaves schema policy, leaf.value.unsetFree = true)
    {identity : Record} (keyed : schema.keyOf incoming = .ok identity) :
    ∃ merged, merge current incoming schema policy = .ok merged ∧
      merge merged incoming schema policy = .ok merged ∧
      (∀ leaf ∈ incoming.leaves schema policy,
        ∃ entries, merged.at? leaf.path.dropLast = some (.map entries)) ∧
      ∀ update, Update.compile incoming schema policy = .ok update →
        Evaluates update.text update.names update.values merged merged ∧
        ∀ result, Evaluates update.text update.names update.values merged result →
          Reordered Eq merged result := by
  obtain ⟨merged, done⟩ := (exists_merge_iff incomingTree).mpr ⟨identity, keyed⟩
  have merges := merges_of_merge currentTree incomingTree (freeBeside_of_unsetFree currentFree)
    leavesFree done
  refine ⟨merged, done, ?_, fun leaf => merges.exists_parent, fun update compiled => ?_⟩
  · rw [merge_eq_ok (complete_walk incomingTree) keyed, merges.foldl_writeLeaf_copied leavesFree,
      merges.setAll_copied keyed]
  · obtain ⟨leaves, walked, decodes⟩ := Expression.compile_decodes compiled
    obtain rfl := Except.ok.inj ((complete_walk incomingTree).symm.trans walked)
    refine ⟨decodes.evaluates_iff.mpr merges.assigns, fun result evaluated => ?_⟩
    exact merges.assigns.reordered (decodes.evaluates_iff.mp evaluated)

-- The first merge replaces the width, which is a text, by a map; the second one keeps the least
-- width in it, because the leaf is insert-only.
theorem merge_repeated_size :
    ∃ merged update, merge storedSize incomingSize .order
        (.all ["seen", "size.width.least"] false) = .ok merged ∧
      merge merged incomingSize .order (.all ["seen", "size.width.least"] false) = .ok merged ∧
      Update.compile incomingSize .order (.all ["seen", "size.width.least"] false) = .ok update ∧
      Evaluates update.text update.names update.values merged merged := by
  have leaves : incomingSize.leaves .order (.all ["seen", "size.width.least"] false) =
      [⟨["note"], .text "new", false⟩, ⟨["seen"], .int 7, true⟩,
        ⟨["size", "width", "least"], .int 2, true⟩] := rfl
  have compiled : Update.compile incomingSize .order (.all ["seen", "size.width.least"] false) =
      .ok _ := rfl
  have free : ∀ leaf ∈ incomingSize.leaves .order (.all ["seen", "size.width.least"] false),
      leaf.value.unsetFree = true := by
    rw [leaves]
    decide
  obtain ⟨merged, done, again, -, updates⟩ :=
    merge_repeated (show storedSize.isTree = true from rfl)
      (show incomingSize.isTree = true from rfl) rfl free rfl
  exact ⟨merged, _, done, again, compiled, (updates _ compiled).1⟩

end Record

end RecordMerge

import RecordMerge.Proofs.Merge.Agreement
import RecordMerge.Proofs.Merge.Keys
import RecordMerge.Proofs.Reconcile
import RecordMerge.Proofs.Record.Loaded
import RecordMerge.Proofs.Record.Storable
import RecordMerge.Proofs.Request.Values

/-! What an update can send, the merge that replaces it can store. The value of a leaf reaches the
service on two ways, in the request on its own and in the merged record in its place; on both it is
stored alike as long as it has no unset mark in it. -/

set_option autoImplicit false

namespace RecordMerge

open Placeholder (ofIndex)

namespace Record

variable {record : Record}

theorem Storable.foldl_writeLeaf {leaves : List Leaf} (storable : record.Storable)
    (tree : record.isTree = true)
    (written : ∀ leaf ∈ leaves, leaf.value.copied.Storable ∧ leaf.value.copied.isTree = true) :
    Storable (leaves.foldl writeLeaf record) := by
  induction leaves generalizing record with
  | nil => exact storable
  | cons leaf rest tail =>
    obtain ⟨⟨first, firstTree⟩, others⟩ := List.forall_mem_cons.mp written
    apply tail _ _ others
    · exact storable.write tree first firstTree
    · exact isTree_write tree firstTree

theorem Storable.setAll {identity : Record} (storable : record.Storable)
    (given : ∀ entry ∈ identity, entry.2.Storable) : Storable (record.setAll identity) := by
  induction identity generalizing record with
  | nil => exact storable
  | cons entry rest tail =>
    obtain ⟨first, others⟩ := List.forall_mem_cons.mp given
    exact tail (storable.set first) others

end Record

/-- The values of an identity that can be stored can be stored themselves. -/
theorem KeySchema.Lists.storable {record identity : Record} {names : List String} {key : Item}
    (listed : KeySchema.Lists record names identity) (distinct : names.Nodup)
    (stored : identity.store = .ok key) : ∀ entry ∈ identity, entry.2.Storable := by
  intro entry member
  obtain ⟨name, within, text, found⟩ := listed.of_mem member
  have named := listed.named distinct
  obtain ⟨other, same, held⟩ := Record.get?_of_mem named member
  have storable := (Record.exists_store_iff named).mp ⟨key, stored⟩
  exact storable other entry.2 held (KeySchema.isUnset_of_identityOf found)

theorem Value.isUnset_of_unsetFree {value : Value} (free : value.unsetFree = true) :
    value.isUnset = false := by
  cases value with
  | unset => cases free
  | _ => rfl

namespace Record

section Merge

variable {current incoming merged : Record} {schema : KeySchema} {policy : Policy}

/-- A leaf that is not kept from being written is in the merged record at its path. -/
theorem at?_merge (incomingTree : incoming.isTree = true)
    (currentFree : Value.entriesUnsetFree current = true)
    (done : merge current incoming schema policy = .ok merged) {leaf : Leaf}
    (member : leaf ∈ incoming.leaves schema policy) (free : leaf.value.unsetFree = true)
    (complete : (incoming.walk schema policy).complete = .ok (incoming.leaves schema policy))
    (writes : leaf.insertOnly = true → current.at? leaf.path = none) :
    merged.at? leaf.path = some leaf.value := by
  obtain ⟨leaves, walked, later⟩ := bind_eq_ok_iff.mp done
  obtain ⟨identity, keyed, built⟩ := bind_eq_ok_iff.mp later
  obtain rfl := Except.ok.inj (complete.symm.trans walked)
  cases built
  have listed := KeySchema.identities_eq_ok_iff.mp keyed
  obtain ⟨name, rest, path, noKey⟩ := path_of_mem_leaves member
  rw [path, at?_setAll (listed.named schema.nodup_names) (listed.get?_eq_none noKey), ← path,
    at?_foldl_writeLeaf member (pairwise_leaves incomingTree) fun other => path_ne_nil_of_mem_leaves,
    Value.copied_of_unsetFree free, Value.copiedEntries_of_unsetFree currentFree]
  cases only : leaf.insertOnly with
  | false => rfl
  | true => simp [writes only]

-- The merge takes storable values from three places: what was there, the leaves, and the identity.
-- All that it makes besides are maps of them.
theorem storable_merge (currentTree : current.isTree = true) (currentStorable : current.Storable)
    (currentFree : Value.entriesUnsetFree current = true)
    (incomingTree : incoming.isTree = true)
    (leaves : ∀ leaf ∈ incoming.leaves schema policy,
      leaf.value.Storable ∧ leaf.value.unsetFree = true)
    (complete : (incoming.walk schema policy).complete = .ok (incoming.leaves schema policy))
    {identity : Record} {key : Item} (keyed : schema.keyOf incoming = .ok identity)
    (sent : identity.store = .ok key) :
    ∃ merged, merge current incoming schema policy = .ok merged ∧ merged.isTree = true ∧
      merged.Storable := by
  have listed := KeySchema.identities_eq_ok_iff.mp keyed
  have written : ∀ leaf ∈ incoming.leaves schema policy,
      leaf.value.copied.Storable ∧ leaf.value.copied.isTree = true := by
    intro leaf member
    obtain ⟨storable, free⟩ := leaves leaf member
    rw [Value.copied_of_unsetFree free]
    exact ⟨storable, Value.isTree_of_at? incomingTree (at?_of_mem_leaves incomingTree member)⟩
  have identityTree : ∀ entry ∈ identity, entry.2.isTree = true := by
    intro entry member
    obtain ⟨name, -, -, held⟩ := listed.of_mem member
    exact (Value.isTree_map_iff.mp incomingTree).2 name _ (KeySchema.get?_of_identityOf held)
  refine ⟨_, merge_eq_ok complete keyed, ?_, ?_⟩
  · rw [Value.copiedEntries_of_unsetFree currentFree]
    apply isTree_setAll _ identityTree
    exact isTree_foldl_writeLeaf currentTree fun leaf member => (written leaf member).2
  · rw [Value.copiedEntries_of_unsetFree currentFree]
    apply Storable.setAll _ (listed.storable schema.nodup_names sent)
    exact currentStorable.foldl_writeLeaf currentTree written

end Merge

end Record

/-- The merge of a record into a stored item can be stored wherever the request for its update could be
made, and has for each leaf that is written the attribute that the request carries. -/
theorem merge_stores {table : Table} {record received current : Record} {policy : Policy}
    {condition : String} {given : Value} {request : UpdateRequest} {before : Item}
    (tree : record.isTree = true)
    (built : table.updateRequest record policy condition given = .ok request)
    (receivedTree : received.isTree = true)
    (receivedFree : Value.entriesUnsetFree received = true)
    (loaded : received.load = .ok current) (known : current.store = .ok before)
    (free : ∀ leaf ∈ record.leaves table.schema policy, leaf.value.unsetFree = true)
    (alike : ∀ found index leaf value, Condition.parse condition given = .ok found →
      (record.leaves table.schema policy)[index]? = some leaf →
      Entries.get? found.values (ofIndex index) = some value → value.store = leaf.value.store) :
    ∃ merged item, Record.merge current record table.schema policy = .ok merged ∧
      merged.store = .ok item ∧
      ∀ index leaf, (record.leaves table.schema policy)[index]? = some leaf →
        (leaf.insertOnly = true → current.at? leaf.path = none) →
        ∃ sent, Entries.get? request.values (ofIndex index) = some sent ∧
          (Attribute.map item).at? leaf.path = some sent := by
  obtain ⟨found, values, parsed, -, -⟩ := Table.values_of_updateRequest built
  obtain ⟨update, compiled, whole⟩ := bind_eq_ok_iff.mp built
  obtain ⟨identity, keyed, keySent⟩ := Table.key_of_requestOf whole
  have complete := (Update.compile_spec compiled).1
  have kept := Record.entriesKeep_load loaded
  have currentTree : current.isTree = true := kept.tree receivedTree
  have currentFree := kept.free receivedFree
  have sends {index : Nat} {leaf : Leaf}
      (placed : (record.leaves table.schema policy)[index]? = some leaf) :
      ∃ sent, leaf.value.store = .ok sent ∧
        Entries.get? request.values (ofIndex index) = some sent := by
    obtain ⟨sent, stored, present⟩ := Table.sent_of_updateRequest parsed built placed
    refine ⟨sent, ?_, present⟩
    rw [← stored, Table.valueFor]
    cases rebound : Entries.get? found.values (ofIndex index) with
    | none => rfl
    | some value => exact (alike found index leaf value parsed placed rebound).symm
  have leaves : ∀ leaf ∈ record.leaves table.schema policy,
      leaf.value.Storable ∧ leaf.value.unsetFree = true := by
    intro leaf member
    obtain ⟨index, placed⟩ := List.mem_iff_getElem?.mp member
    obtain ⟨sent, stored, -⟩ := sends placed
    exact ⟨⟨sent, stored⟩, free leaf member⟩
  have currentStorable : current.Storable :=
    (Record.exists_store_iff (Value.isTree_map_iff.mp currentTree).1).mp ⟨before, known⟩
  obtain ⟨merged, done, mergedTree, mergedStorable⟩ :=
    Record.storable_merge currentTree currentStorable currentFree tree leaves complete keyed keySent
  obtain ⟨item, storing⟩ :=
    (Record.exists_store_iff (Value.isTree_map_iff.mp mergedTree).1).mpr mergedStorable
  refine ⟨merged, item, done, storing, fun index leaf placed writes => ?_⟩
  have member := List.mem_of_getElem? placed
  have there := Record.at?_merge tree currentFree done member (free leaf member) complete writes
  obtain ⟨sent, stored, present⟩ := sends placed
  obtain ⟨other, same, held⟩ :=
    Record.at?_store mergedTree storing there (Value.isUnset_of_unsetFree (free leaf member))
  obtain rfl := Except.ok.inj (stored.symm.trans same)
  exact ⟨sent, present, held⟩

/-- An order with a list in it, and a map where the stored one has a text. -/
def taggedOrder : Record :=
  [(.text "id", .text "k"), (.text "tags", .list [.int 1, .text "new"]),
    (.text "size", .map [(.text "width", .int 5)])]

/-- The stored order, as it is received. -/
def receivedOrder : Record :=
  [(.text "id", .map [(.text "S", .text "k")]), (.text "size", .map [(.text "S", .text "small")])]

theorem merge_stores_tagged :
    ∃ request current merged item,
      Table.orders.updateRequest taggedOrder (.all [] false) "#width = :value2"
        (.map [(.text ":value2", .decimal (.finite false 5 0))]) = .ok request ∧
      receivedOrder.load = .ok current ∧
      Record.merge current taggedOrder Table.orders.schema (.all [] false) = .ok merged ∧
      merged.store = .ok item ∧
      (∃ sent, Entries.get? request.values ":value1" = some sent ∧
        (Attribute.map item).at? ["tags"] = some sent) ∧
      ∃ sent, Entries.get? request.values ":value2" = some sent ∧
        (Attribute.map item).at? ["size", "width"] = some sent := by
  have leaves : taggedOrder.leaves Table.orders.schema (.all [] false) =
      [⟨["tags"], .list [.int 1, .text "new"], false⟩, ⟨["size", "width"], .int 5, false⟩] := rfl
  have parsed : Condition.parse "#width = :value2"
      (.map [(.text ":value2", .decimal (.finite false 5 0))]) =
        .ok ⟨[("#width", "width")], [(":value2", .decimal (.finite false 5 0))]⟩ := rfl
  have built : Table.orders.updateRequest taggedOrder (.all [] false) "#width = :value2"
      (.map [(.text ":value2", .decimal (.finite false 5 0))]) = .ok _ := rfl
  have alike (found : Condition.Placeholders) (index : Nat) (leaf : Leaf) (value : Value)
      (read : Condition.parse "#width = :value2"
        (.map [(.text ":value2", .decimal (.finite false 5 0))]) = .ok found)
      (placed : (taggedOrder.leaves Table.orders.schema (.all [] false))[index]? = some leaf)
      (rebound : Entries.get? found.values (ofIndex index) = some value) :
      value.store = leaf.value.store := by
    obtain rfl := Except.ok.inj (parsed.symm.trans read)
    rw [leaves] at placed
    match index with
    | 0 => cases rebound
    | 1 =>
      cases placed
      cases rebound
      rfl
    | index + 2 => cases placed
  have loaded : receivedOrder.load = .ok [(.text "id", .text "k"), (.text "size", .text "small")] :=
    rfl
  obtain ⟨merged, item, done, storing, there⟩ := merge_stores (show taggedOrder.isTree = true from rfl)
    built (show receivedOrder.isTree = true from rfl) rfl loaded
    (show Record.store _ = .ok [("id", .text "k"), ("size", .text "small")] from rfl)
    (by rw [leaves]; decide) alike
  exact ⟨_, _, merged, item, built, loaded, done, storing, there 0 _ rfl nofun,
    there 1 _ rfl nofun⟩

/-- An order with an unset mark in a list. -/
def markedOrder : Record :=
  [(.text "id", .text "k"), (.text "tags", .list [.int 1, .unset])]

/-- The mark is left out of what is sent, but its copy in the merged record cannot be stored. -/
theorem copied_mark_not_stored :
    ∃ request current merged,
      Table.orders.updateRequest markedOrder (.all [] false) "" .null = .ok request ∧
      Entries.get? request.values ":value1" = some (.list [.number (.ofInt 1)]) ∧
      receivedOrder.load = .ok current ∧
      (∃ before, current.store = .ok before) ∧
      Record.merge current markedOrder Table.orders.schema (.all [] false) = .ok merged ∧
      merged.store = .error (.storage (.unsupported .unsetCopy)) :=
  ⟨_, _, _, rfl, rfl, rfl, ⟨_, rfl⟩, rfl, rfl⟩

end RecordMerge

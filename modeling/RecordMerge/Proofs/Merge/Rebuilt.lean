import RecordMerge.Proofs.Attribute.Reordered
import RecordMerge.Proofs.Leaf.Exact
import RecordMerge.Proofs.Merge.Effect
import RecordMerge.Proofs.Reconcile
import RecordMerge.Proofs.Request.Placeholders

/-!
A record from its leaves.

Merging a record into nothing writes its leaves into an empty record. Every value is at or above a
leaf, empty maps and nulls included, so that nothing of the record is lost but the order of entries.
-/

set_option autoImplicit false

namespace RecordMerge

theorem Value.exists_plain_at? {value : Value} (tree : value.isTree = true) :
    ∃ path held, value.at? path = some held ∧ held.isMapNode = false := by
  induction value using Value.map_induction with
  | plain value plain => exact ⟨[], value, at?_nil value, plain⟩
  | node entries node tail =>
    obtain ⟨names, below⟩ := isTree_map_iff.mp tree
    cases entries with
    | nil => cases node
    | cons entry rest =>
      obtain ⟨name, -, reached⟩ := Record.get?_of_mem names List.mem_cons_self
      obtain ⟨path, held, found, plain⟩ := tail entry List.mem_cons_self (below name _ reached)
      exact ⟨name :: path, held, by rw [at?_map_cons, reached]; exact found, plain⟩

/-- Whatever the table sends to write the one record, it sends for the other one as well, up to the
order of entries. -/
def Table.PutsAlike (table : Table) (left right : Record) : Prop :=
  ∀ request, table.putRequest left .null .null .null = .ok request →
    ∃ item other, request = .put table.name item {} ∧
      table.putRequest right .null .null .null = .ok (.put table.name other {}) ∧
      (Attribute.map item).Reordered (.map other)

theorem Table.putsAlike_of_reordered {table : Table} {left right identity : Record}
    (reordered : Record.Reordered Eq left right) (leftTree : left.isTree = true)
    (rightTree : right.isTree = true) (keyed : table.schema.keyOf right = .ok identity) :
    table.PutsAlike left right := by
  intro request built
  obtain ⟨item, stored, rfl⟩ := putRequest_eq_ok built
  obtain ⟨other, storedOther, same⟩ := reordered.exists_store leftTree rightTree stored
  refine ⟨item, other, rfl, bind_eq_ok_iff.mpr ⟨identity, keyed, ?_⟩, same⟩
  exact bind_eq_ok_iff.mpr ⟨other, storedOther, rfl⟩

namespace Record

/-- A tree without unset marks, in which the path of a key attribute is that of an attribute of the top
level only. -/
structure Walkable (schema : KeySchema) (record : Record) : Prop where
  tree : record.isTree = true
  free : Value.entriesUnsetFree record = true
  keys : ∀ name next rest value, record.at? (name :: next :: rest) = some value →
    dotted (name :: next :: rest) ∉ schema.names

namespace Walkable

variable {schema : KeySchema} {record : Record} {insertOnly : List String}

/-- Where no key attribute has a point in its name, none has the path of an inner value. -/
theorem of_undotted (tree : record.isTree = true) (free : Value.entriesUnsetFree record = true)
    (undotted : ∀ key ∈ schema.names, '.' ∉ key.toList) : record.Walkable schema where
  tree
  free
  keys name next rest _ _ key := undotted _ key (point_mem_dotted name next rest)

/-- A walk drops no value that is no map with entries, be it an empty map or null. -/
theorem mem_leaves (walkable : record.Walkable schema) {name : String} {rest : List String}
    {value : Value} (other : name ∉ schema.names) (found : record.at? (name :: rest) = some value)
    (plain : value.isMapNode = false) :
    ⟨name :: rest, value, insertOnly.contains (dotted (name :: rest))⟩ ∈
      record.leaves schema (.all insertOnly true) := by
  refine (mem_leaves_iff walkable.tree).mpr
    { nonempty := List.cons_ne_nil name rest, reached := found, plain, free := ?_, given := ?_,
      nulls := fun _ => rfl, unexcluded := List.not_mem_nil, included := rfl,
      insertOnly := List.contains_iff_mem }
  · rintro above nonempty ⟨below, whole⟩
    match above with
    | [] => exact absurd rfl nonempty
    | [first] =>
      cases whole
      simpa [dotted] using other
    | first :: next :: more =>
      rw [← show _ = name :: rest from whole, at?, Value.at?_append] at found
      obtain ⟨held, reached, -⟩ := Option.bind_eq_some_iff.mp found
      exact walkable.keys first next more held reached
  · rintro rfl
    cases unsetFree_of_at? walkable.free found

/-- Beside the identity, a record has nothing that is apart from all its leaves. -/
theorem at?_eq_none (walkable : record.Walkable schema) {name : String} {rest : List String}
    (other : name ∉ schema.names)
    (unmet : ∀ leaf ∈ record.leaves schema (.all insertOnly true), Apart leaf.path (name :: rest)) :
    record.at? (name :: rest) = none := by
  cases found : record.at? (name :: rest) with
  | none => rfl
  | some value =>
    have tree := Value.isTree_of_at? walkable.tree found
    obtain ⟨further, held, below, plain⟩ := Value.exists_plain_at? tree
    have reached : record.at? (name :: (rest ++ further)) = some held := by
      rw [← List.cons_append, at?, Value.at?_append]
      exact Option.bind_eq_some_iff.mpr ⟨value, found, below⟩
    have apart := unmet _ (walkable.mem_leaves other reached plain)
    exact absurd (List.prefix_append (name :: rest) further) apart.2

/-- Two records with the same leaves and the same identity differ in the order of entries only. -/
theorem reordered_of_leaves_eq {twin identity : Record} (walkable : record.Walkable schema)
    (twinWalkable : twin.Walkable schema) (keyed : schema.keyOf record = .ok identity)
    (twinKeyed : schema.keyOf twin = .ok identity)
    (same : twin.leaves schema (.all insertOnly true) =
      record.leaves schema (.all insertOnly true)) : Reordered Eq twin record := by
  refine reordered_of_leaves (record.leaves schema (.all insertOnly true)) schema.names
    twinWalkable.tree walkable.tree (fun leaf member => ?_) (fun name rest other unmet => ?_)
    fun name key => ?_
  · exact ⟨leaf.value, at?_of_mem_leaves twinWalkable.tree (same ▸ member),
      at?_of_mem_leaves walkable.tree member⟩
  · rw [walkable.at?_eq_none other unmet, twinWalkable.at?_eq_none other (same ▸ unmet)]
  · obtain ⟨value, held, given⟩ := KeySchema.exists_get?_of_keyOf keyed key
    obtain ⟨also, there, again⟩ := KeySchema.exists_get?_of_keyOf twinKeyed key
    cases given.symm.trans again
    exact ⟨value, there, held⟩

end Walkable

/-- Merging a record into nothing writes its leaves where the record has them, and nothing else. -/
theorem Merges.reordered_of_nothing {schema : KeySchema} {record merged identity : Record}
    {insertOnly : List String} (walkable : record.Walkable schema)
    (keyed : schema.keyOf record = .ok identity)
    (merges : Merges schema (.all insertOnly true) [] record merged) :
    Reordered Eq merged record := by
  refine reordered_of_leaves (record.leaves schema (.all insertOnly true)) schema.names merges.tree
    walkable.tree (fun leaf member => ?_) (fun name rest other unmet => ?_) fun name key => ?_
  · refine ⟨leaf.value, ?_, at?_of_mem_leaves walkable.tree member⟩
    obtain ⟨name, rest, path, -⟩ := path_of_mem_leaves member
    have nothing : at? [] leaf.path = none := by rw [path]; rfl
    rw [merges.written leaf member, nothing, Option.getD_none, ite_self]
  · rw [merges.kept name rest other unmet, walkable.at?_eq_none other unmet]
    rfl
  · obtain ⟨value, held, -⟩ := KeySchema.exists_get?_of_keyOf keyed key
    exact ⟨value, (merges.identity name key).trans held, held⟩

/-- A record is determined by its leaves and its identity. Merged into nothing it is itself again up to
the order of entries, and is stored so; every value that is no map with entries is a leaf, if it is
not part of the identity; and two records with the same leaves and identity are the same up to that
order. -/
theorem rebuilt_of_leaves {schema : KeySchema} {record identity : Record}
    (walkable : record.Walkable schema) (keyed : schema.keyOf record = .ok identity)
    (insertOnly : List String) :
    (∃ merged, merge [] record schema (.all insertOnly true) = .ok merged ∧
      Reordered Eq merged record ∧
      ∀ table : Table, table.schema = schema →
        table.PutsAlike merged record ∧ table.PutsAlike record merged) ∧
    (∀ name rest value, name ∉ schema.names → record.at? (name :: rest) = some value →
      value.isMapNode = false →
      ⟨name :: rest, value, insertOnly.contains (dotted (name :: rest))⟩ ∈
        record.leaves schema (.all insertOnly true)) ∧
    ∀ twin : Record, twin.Walkable schema → schema.keyOf twin = .ok identity →
      twin.leaves schema (.all insertOnly true) = record.leaves schema (.all insertOnly true) →
      Reordered Eq twin record := by
  refine ⟨?_, fun name rest value => walkable.mem_leaves, fun twin twinWalkable =>
    walkable.reordered_of_leaves_eq twinWalkable keyed⟩
  obtain ⟨merged, done⟩ := (exists_merge_iff walkable.tree).mpr ⟨identity, keyed⟩
  have leavesFree : ∀ leaf ∈ record.leaves schema (.all insertOnly true),
      leaf.value.unsetFree = true :=
    fun leaf member => unsetFree_of_at? walkable.free (at?_of_mem_leaves walkable.tree member)
  have nothing : FreeBeside schema.names [] := fun _ _ => nofun
  have merges := merges_of_merge rfl walkable.tree nothing leavesFree done
  have reordered := merges.reordered_of_nothing walkable keyed
  have mergedKeyed : schema.keyOf merged = .ok identity :=
    (KeySchema.identities_congr merges.identity).trans keyed
  refine ⟨merged, done, reordered, ?_⟩
  rintro table rfl
  exact ⟨Table.putsAlike_of_reordered reordered merges.tree walkable.tree keyed,
    Table.putsAlike_of_reordered reordered.symm walkable.tree merges.tree mergedKeyed⟩

/-- A crate with values that a walk might lose: an empty map, nulls, and a name that is written like a
path in a map. -/
def crate : Record :=
  [(.text "size.width", .null), (.text "size", .map [(.text "width", .int 3), (.text "rest", .map [])]),
    (.text "id", .text "k"), (.text "note", .null)]

theorem rebuilt_of_leaves_crate :
    crate.Walkable .order ∧
    (∃ merged, merge [] crate .order (.all ["note"] true) = .ok merged ∧ Reordered Eq merged crate ∧
      Table.orders.PutsAlike crate merged) ∧
    (∃ item, Table.orders.putRequest crate .null .null .null = .ok (.put "orders" item {})) ∧
    ⟨["size", "rest"], .map [], false⟩ ∈ crate.leaves .order (.all ["note"] true) := by
  have walkable : crate.Walkable .order := .of_undotted rfl rfl (by decide)
  have keyed : KeySchema.order.keyOf crate = .ok [(.text "id", .text "k")] := rfl
  obtain ⟨⟨merged, done, reordered, stores⟩, dropsNone, -⟩ :=
    rebuilt_of_leaves walkable keyed ["note"]
  exact ⟨walkable, ⟨merged, done, reordered, (stores Table.orders rfl).2⟩, ⟨_, rfl⟩,
    dropsNone "size" ["rest"] (.map []) (by decide) rfl rfl⟩

end Record

end RecordMerge

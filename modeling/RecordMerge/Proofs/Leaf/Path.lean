import RecordMerge.Proofs.Record.Position
import RecordMerge.Proofs.Value.Size

/-! Where the leaves of a record are: each at the path of its value, under an attribute that is no key
attribute. -/

set_option autoImplicit false

namespace RecordMerge

theorem Value.isMap_of_isMapNode {value : Value} (node : value.isMapNode = true) :
    ∃ entries, value = .map entries := by
  cases value with
  | map entries => exact ⟨entries, rfl⟩
  | _ => cases node

-- The recursion of a walk is into maps with entries only. It passes from a map to its entries and
-- from there to their values, which are not parts of it by the structure of a list alone.
/-- To prove something of every value, prove it of values that are no maps with entries, and of such
maps if it holds of what they hold. -/
@[elab_as_elim]
theorem Value.map_induction {motive : Value → Prop}
    (plain : ∀ value, value.isMapNode = false → motive value)
    (node : ∀ entries : Record, (Value.map entries).isMapNode = true →
      (∀ entry ∈ entries, motive entry.2) → motive (.map entries))
    (value : Value) : motive value := by
  induction size : sizeOf value using Nat.strongRecOn generalizing value with
  | ind bound smaller =>
    subst size
    cases kind : value.isMapNode with
    | false => exact plain value kind
    | true =>
      obtain ⟨entries, rfl⟩ := isMap_of_isMapNode kind
      exact node entries kind fun entry member => smaller _ (sizeOf_lt_map member) _ rfl

namespace Leaf

variable {keys : List String} {policy : Policy}

theorem below_of_not_mapNode (path : List String) {value : Value}
    (plain : value.isMapNode = false) :
    below keys policy path value =
      if keys.contains (dotted path) || !selected policy (dotted path) value then []
      else [.ok ⟨path, value, policy.insertOnly.contains (dotted path)⟩] := by
  cases value with
  | map entries =>
    cases entries with
    | nil => rw [below]; simp
    | cons entry rest => cases plain
  | _ => rw [below]; simp

theorem below_mapNode (path : List String) {entries : Record}
    (node : (Value.map entries).isMapNode = true) :
    below keys policy path (.map entries) =
      if keys.contains (dotted path) then [] else ofEntries keys policy path entries := by
  cases entries with
  | nil => cases node
  | cons entry rest => rw [below]

theorem mem_ofEntries_iff {parent : List String} {leaf : Leaf} {entries : Record} :
    .ok leaf ∈ ofEntries keys policy parent entries ↔
      ∃ entry ∈ entries, ∃ name, entry.1.toText? = some name ∧
        .ok leaf ∈ below keys policy (parent ++ [name]) entry.2 := by
  induction entries with
  | nil => simp [ofEntries]
  | cons entry rest tail =>
    obtain ⟨key, value⟩ := entry
    rw [ofEntries, List.mem_append, tail]
    simp only [List.mem_cons, exists_eq_or_imp]
    apply or_congr_left
    cases key.toText? <;> simp

theorem mem_ofEntries_of_named {parent : List String} {visit : Visit} {entries : Record}
    (names : entries.named = true) (met : visit ∈ ofEntries keys policy parent entries) :
    ∃ entry ∈ entries, ∃ name, visit ∈ below keys policy (parent ++ [name]) entry.2 := by
  fun_induction Record.named entries with
  | case1 => cases met
  | case2 name value rest tail =>
    obtain ⟨-, others⟩ := (Record.named_cons_iff value).mp names
    rw [ofEntries, Value.toText?_text] at met
    rcases List.mem_append.mp met with first | later
    · exact ⟨_, List.mem_cons_self, name, first⟩
    · obtain ⟨entry, member, other, found⟩ := tail others later
      exact ⟨entry, List.mem_cons_of_mem _ member, other, found⟩
  | case3 => cases names

/-- In a tree a walk meets no name that cannot be read. -/
theorem exists_leaf_of_mem_below {path : List String} {value : Value} {visit : Visit}
    (tree : value.isTree = true) (met : visit ∈ below keys policy path value) :
    ∃ leaf, visit = .ok leaf := by
  induction value using Value.map_induction generalizing path with
  | plain value plain =>
    rw [below_of_not_mapNode path plain] at met
    split at met
    · cases met
    · exact ⟨_, List.mem_singleton.mp met⟩
  | node entries node tail =>
    obtain ⟨names, below⟩ := Value.isTree_map_iff.mp tree
    rw [below_mapNode path node] at met
    split at met
    · cases met
    · obtain ⟨entry, member, name, found⟩ := mem_ofEntries_of_named names met
      obtain ⟨key, -, held⟩ := Record.get?_of_mem names member
      exact tail entry member (below key _ held) found

/-- There is no leaf at or below the path of a key attribute. -/
theorem not_key_of_mem_below {path : List String} {value : Value} {leaf : Leaf}
    (met : .ok leaf ∈ below keys policy path value) : dotted path ∉ keys := by
  cases node : value.isMapNode with
  | false =>
    rw [below_of_not_mapNode path node] at met
    intro key
    simp [key] at met
  | true =>
    obtain ⟨entries, rfl⟩ := Value.isMap_of_isMapNode node
    rw [below_mapNode path node] at met
    intro key
    simp [key] at met

/-- A leaf met at or below a path continues the path; in a tree its value is found there. -/
theorem of_mem_below {path : List String} {value : Value} {leaf : Leaf}
    (met : .ok leaf ∈ below keys policy path value) :
    ∃ rest, leaf.path = path ++ rest ∧
      (value.isTree = true → value.at? rest = some leaf.value) := by
  induction value using Value.map_induction generalizing path with
  | plain value plain =>
    rw [below_of_not_mapNode path plain] at met
    split at met
    · cases met
    · cases List.mem_singleton.mp met
      exact ⟨[], by simp, by simp⟩
  | node entries node tail =>
    rw [below_mapNode path node] at met
    split at met
    · cases met
    · obtain ⟨entry, member, name, text, inner⟩ := mem_ofEntries_iff.mp met
      obtain ⟨rest, continued, found⟩ := tail entry member inner
      refine ⟨name :: rest, by simp [continued], fun tree => ?_⟩
      obtain ⟨names, below⟩ := Value.isTree_map_iff.mp tree
      have held := Record.get?_of_toText? names member text
      simp [held, found (below name _ held)]

end Leaf

theorem Walk.leaves_isPrefix (visits : List Leaf.Visit) :
    (ofVisits visits).leaves.map .ok <+: visits := by
  fun_induction ofVisits visits with
  | case1 => exact List.nil_prefix
  | case2 leaf rest walk tail => exact List.cons_prefix_cons.mpr ⟨rfl, tail⟩
  | case3 => exact List.nil_prefix

/-- A walk that meets leaves only keeps all of them. -/
theorem Walk.map_ok_leaves {visits : List Leaf.Visit}
    (leaves : ∀ visit ∈ visits, ∃ leaf, visit = .ok leaf) :
    (ofVisits visits).leaves.map .ok = visits := by
  fun_induction ofVisits visits with
  | case1 => rfl
  | case2 leaf rest walk tail =>
    rw [List.map_cons, tail fun visit member => leaves visit (List.mem_cons_of_mem _ member)]
  | case3 failure rest =>
    obtain ⟨leaf, same⟩ := leaves _ List.mem_cons_self
    cases same

namespace Record

variable {record : Record} {schema : KeySchema} {policy : Policy}

/-- A walk through a tree meets its leaves and nothing else. -/
theorem map_ok_leaves (tree : record.isTree = true) :
    (record.leaves schema policy).map .ok = Leaf.ofEntries schema.names policy [] record := by
  obtain ⟨names, below⟩ := Value.isTree_map_iff.mp tree
  refine Walk.map_ok_leaves fun visit met => ?_
  obtain ⟨entry, member, name, found⟩ := Leaf.mem_ofEntries_of_named names met
  obtain ⟨key, -, held⟩ := get?_of_mem names member
  exact Leaf.exists_leaf_of_mem_below (below key _ held) found

/-- The walk through a tree comes to its end. -/
theorem complete_walk (tree : record.isTree = true) :
    (record.walk schema policy).complete = .ok (record.leaves schema policy) := by
  unfold walk walkPast
  rw [← map_ok_leaves tree, Walk.ofVisits_map_ok]
  rfl

theorem visited_of_mem_leaves {leaf : Leaf} (member : leaf ∈ record.leaves schema policy) :
    .ok leaf ∈ Leaf.ofEntries schema.names policy [] record :=
  (Walk.leaves_isPrefix _).subset (List.mem_map.mpr ⟨leaf, member, rfl⟩)

/-- A leaf stands at or below an attribute that is no key attribute. -/
theorem path_of_mem_leaves {leaf : Leaf} (member : leaf ∈ record.leaves schema policy) :
    ∃ name rest, leaf.path = name :: rest ∧ name ∉ schema.names := by
  obtain ⟨entry, -, name, -, met⟩ := Leaf.mem_ofEntries_iff.mp (visited_of_mem_leaves member)
  obtain ⟨rest, continued, -⟩ := Leaf.of_mem_below met
  refine ⟨name, rest, continued, ?_⟩
  simpa [dotted] using Leaf.not_key_of_mem_below met

theorem path_ne_nil_of_mem_leaves {leaf : Leaf} (member : leaf ∈ record.leaves schema policy) :
    leaf.path ≠ [] := by
  obtain ⟨name, rest, path, -⟩ := path_of_mem_leaves member
  simp [path]

/-- The value of a leaf is the one that the record has at its path. -/
theorem at?_of_mem_leaves (tree : record.isTree = true) {leaf : Leaf}
    (member : leaf ∈ record.leaves schema policy) : record.at? leaf.path = some leaf.value := by
  obtain ⟨entry, inRecord, name, text, met⟩ :=
    Leaf.mem_ofEntries_iff.mp (visited_of_mem_leaves member)
  obtain ⟨rest, continued, found⟩ := Leaf.of_mem_below met
  obtain ⟨names, below⟩ := Value.isTree_map_iff.mp tree
  have held := get?_of_toText? names inRecord text
  rw [continued]
  simp [at?, held, found (below name _ held)]

end Record

end RecordMerge

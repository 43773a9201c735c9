import Mathlib.Data.List.Nodup
import RecordMerge.Proofs.KeySchema
import RecordMerge.Proofs.Leaf.Order

/-!
The leaves of a record, described by their positions.

A policy picks a value by the dotted path of its own position, and a key attribute withholds whatever
is at or below it. The walk meets what is picked, all of it and once, in the order of the record.
-/

set_option autoImplicit false

namespace RecordMerge

open Record (Precedes)

/-- The dotted path of a map is not that of a position in it. -/
theorem dotted_ne_of_append {above rest : List String} (first : above ≠ []) (later : rest ≠ []) :
    dotted above ≠ dotted (above ++ rest) := by
  intro same
  have lengths := congrArg String.length same
  rw [dotted, dotted, String.intercalate_append_of_ne_nil first later, String.length_append,
    String.length_append] at lengths
  have point : ".".length = 1 := rfl
  omega

/-- The dotted path of an inner value has a point in it. -/
theorem point_mem_dotted (name next : String) (rest : List String) :
    '.' ∈ (dotted (name :: next :: rest)).toList := by
  rw [← List.singleton_append, dotted,
    String.intercalate_append_of_ne_nil (List.cons_ne_nil name []) (List.cons_ne_nil next rest)]
  simp

theorem Value.at?_cons_of_not_mapNode {value : Value} (plain : value.isMapNode = false)
    (name : String) (rest : List String) : value.at? (name :: rest) = none := by
  cases value with
  | map entries =>
    cases entries with
    | nil => rfl
    | cons entry others => cases plain
  | _ => rfl

namespace Leaf

variable {keys : List String} {policy : Policy}

theorem selected_iff {path : String} {value : Value} :
    selected policy path value = true ↔
      value ≠ .unset ∧ (value = .null → policy.writeNulls = true) ∧
        policy.selects path = true := by
  cases value <;> simp [selected, Value.isUnset, Value.isNull]

/-- What a walk writes of a value, at whatever position it finds it. -/
structure Fits (policy : Policy) (leaf : Leaf) : Prop where
  plain : leaf.value.isMapNode = false
  selected : Leaf.selected policy (dotted leaf.path) leaf.value = true
  insertOnly : leaf.insertOnly = policy.insertOnly.contains (dotted leaf.path)

/-- The leaf continues a path to a value in the given one, past no path of a key attribute. -/
def Continues (keys : List String) (path : List String) (value : Value) (leaf : Leaf) : Prop :=
  ∃ rest, leaf.path = path ++ rest ∧ value.at? rest = some leaf.value ∧
    ∀ above, above <+: rest → dotted (path ++ above) ∉ keys

theorem continues_map_iff {path : List String} {entries : Record} {leaf : Leaf}
    (plain : leaf.value.isMapNode = false) (node : (Value.map entries).isMapNode = true) :
    Continues keys path (.map entries) leaf ↔
      dotted path ∉ keys ∧ ∃ name held, entries.get? name = some held ∧
        Continues keys (path ++ [name]) held leaf := by
  constructor
  · rintro ⟨rest, continued, found, free⟩
    have outside : dotted path ∉ keys := by simpa using free [] List.nil_prefix
    cases rest with
    | nil =>
      rw [Value.at?_nil, Option.some.injEq] at found
      rw [found, plain] at node
      cases node
    | cons name rest =>
      obtain ⟨held, reached, below⟩ := Option.bind_eq_some_iff.mp found
      refine ⟨outside, name, held, reached, rest, by simp [continued], below, fun above part => ?_⟩
      simpa using free (name :: above) (List.cons_prefix_cons.mpr ⟨rfl, part⟩)
  · rintro ⟨outside, name, held, reached, rest, continued, below, free⟩
    refine ⟨name :: rest, by simp [continued], by simp [reached, below], fun above part => ?_⟩
    rcases List.prefix_cons_iff.mp part with rfl | ⟨inner, rfl, later⟩
    · simpa using outside
    · simpa using free inner later

theorem mem_ofEntries_tree_iff {parent : List String} {leaf : Leaf} {entries : Record}
    (names : entries.named = true)
    (each : ∀ entry ∈ entries, ∀ path, .ok leaf ∈ below keys policy path entry.2 ↔
      leaf.Fits policy ∧ Continues keys path entry.2 leaf) :
    .ok leaf ∈ ofEntries keys policy parent entries ↔
      leaf.Fits policy ∧ ∃ name held, entries.get? name = some held ∧
        Continues keys (parent ++ [name]) held leaf := by
  rw [mem_ofEntries_iff]
  constructor
  · rintro ⟨entry, member, name, text, met⟩
    obtain ⟨fits, continues⟩ := (each entry member _).mp met
    exact ⟨fits, name, entry.2, Record.get?_of_toText? names member text, continues⟩
  · rintro ⟨fits, name, held, found, continues⟩
    have member := Record.mem_of_get? found
    exact ⟨_, member, name, rfl, (each _ member _).mpr ⟨fits, continues⟩⟩

-- Both filters that stop a walk are matters of a path above the leaf, and so of the way to it; both
-- filters that only drop a leaf are matters of the leaf. The walk and its description are compared
-- for the two apart.
theorem mem_below_iff {path : List String} {value : Value} {leaf : Leaf}
    (tree : value.isTree = true) :
    .ok leaf ∈ below keys policy path value ↔
      leaf.Fits policy ∧ Continues keys path value leaf := by
  induction value using Value.map_induction generalizing path with
  | plain value plain =>
    rw [below_of_not_mapNode path plain]
    constructor
    · intro met
      split at met
      · cases met
      · next chosen =>
        cases List.mem_singleton.mp met
        simp only [Bool.or_eq_true, Bool.not_eq_true', not_or, Bool.not_eq_false,
          List.contains_iff_mem] at chosen
        refine ⟨⟨plain, chosen.2, rfl⟩, [], by simp, by simp, fun above part => ?_⟩
        rw [List.prefix_nil.mp part, List.append_nil]
        exact chosen.1
    · rintro ⟨fits, rest, continued, found, free⟩
      cases rest with
      | nil =>
        have outside : dotted path ∉ keys := by simpa using free [] List.nil_prefix
        have place : leaf.path = path := by simpa using continued
        have held : leaf.value = value := by simpa using found.symm
        have chosen : selected policy (dotted path) value = true := by
          rw [← place, ← held]
          exact fits.selected
        have whole : leaf = ⟨path, value, policy.insertOnly.contains (dotted path)⟩ := by
          rw [← place, ← held, ← fits.insertOnly]
        simp [outside, chosen, whole]
      | cons name rest =>
        rw [Value.at?_cons_of_not_mapNode plain] at found
        cases found
  | node entries node tail =>
    obtain ⟨names, below⟩ := Value.isTree_map_iff.mp tree
    have each : ∀ entry ∈ entries, ∀ path, .ok leaf ∈ Leaf.below keys policy path entry.2 ↔
        leaf.Fits policy ∧ Continues keys path entry.2 leaf := by
      intro entry member path
      obtain ⟨name, -, held⟩ := Record.get?_of_mem names member
      exact tail entry member (below name _ held)
    rw [below_mapNode path node]
    by_cases key : dotted path ∈ keys
    · have outside (continues : Continues keys path (.map entries) leaf) : False := by
        obtain ⟨_, -, -, free⟩ := continues
        exact free [] List.nil_prefix (by simpa using key)
      simp only [List.contains_iff_mem, key, if_true, List.not_mem_nil, false_iff]
      exact fun whole => outside whole.2
    · simp only [List.contains_iff_mem, key, if_false, mem_ofEntries_tree_iff names each]
      refine and_congr_right fun fits => ?_
      rw [continues_map_iff fits.plain node, and_iff_right key]

end Leaf

namespace Record

/-- What is to be written of a record: a value that is no map with entries, at a path that leads to it
through maps, with no key attribute on the way. The policy is asked about the dotted path of the value
itself only. -/
structure Picks (record : Record) (schema : KeySchema) (policy : Policy) (leaf : Leaf) : Prop where
  nonempty : leaf.path ≠ []
  reached : record.at? leaf.path = some leaf.value
  plain : leaf.value.isMapNode = false
  free : ∀ above, above ≠ [] → above <+: leaf.path → dotted above ∉ schema.names
  given : leaf.value ≠ .unset
  nulls : leaf.value = .null → policy.writeNulls = true
  unexcluded : dotted leaf.path ∉ policy.exclude
  included : policy.includes (dotted leaf.path) = true
  insertOnly : leaf.insertOnly = true ↔ dotted leaf.path ∈ policy.insertOnly

variable {record : Record} {schema : KeySchema} {policy : Policy}

theorem mem_leaves_iff (tree : record.isTree = true) {leaf : Leaf} :
    leaf ∈ record.leaves schema policy ↔ record.Picks schema policy leaf := by
  obtain ⟨names, below⟩ := Value.isTree_map_iff.mp tree
  have visited : leaf ∈ record.leaves schema policy ↔
      .ok leaf ∈ Leaf.ofEntries schema.names policy [] record := by
    rw [← map_ok_leaves tree]
    simp
  rw [visited, Leaf.mem_ofEntries_tree_iff names fun entry member path => by
    obtain ⟨name, -, held⟩ := get?_of_mem names member
    exact Leaf.mem_below_iff (below name _ held)]
  constructor
  · rintro ⟨fits, name, held, reached, rest, path, found, free⟩
    obtain ⟨given, nulls, selects⟩ := Leaf.selected_iff.mp fits.selected
    obtain ⟨unexcluded, included⟩ := Bool.and_eq_true_iff.mp selects
    have whole : leaf.path = name :: rest := path
    refine ⟨by simp [whole], ?_, fits.plain, ?_, given, nulls, by simpa using unexcluded, included, ?_⟩
    · simp [at?, whole, reached, found]
    · intro above nonempty part
      rw [whole] at part
      rcases List.prefix_cons_iff.mp part with rfl | ⟨inner, rfl, later⟩
      · exact absurd rfl nonempty
      · exact free inner later
    · rw [fits.insertOnly, List.contains_iff_mem]
  · intro picks
    obtain ⟨name, rest, path⟩ := List.exists_cons_of_ne_nil picks.nonempty
    have found := picks.reached
    rw [path] at found
    obtain ⟨held, reached, below⟩ := Option.bind_eq_some_iff.mp found
    have selects : policy.selects (dotted leaf.path) = true := by
      simp [Policy.selects, picks.unexcluded, picks.included]
    refine ⟨⟨picks.plain, Leaf.selected_iff.mpr ⟨picks.given, picks.nulls, selects⟩, ?_⟩, name, held,
      reached, rest, path, below, fun above part => ?_⟩
    · rw [Bool.eq_iff_iff, List.contains_iff_mem]
      exact picks.insertOnly
    · refine picks.free (name :: above) (by simp) ?_
      rw [path]
      exact List.cons_prefix_cons.mpr ⟨rfl, part⟩

/-- Two policies that treat the path of a leaf alike pick it alike, whatever they say of other paths. -/
theorem Picks.of_selects {other : Policy} {leaf : Leaf} (picks : record.Picks schema policy leaf)
    (selects : other.selects (dotted leaf.path) = policy.selects (dotted leaf.path))
    (nulls : other.writeNulls = policy.writeNulls)
    (insertOnly : other.insertOnly = policy.insertOnly) : record.Picks schema other leaf := by
  have chosen : other.selects (dotted leaf.path) = true := by
    rw [selects]
    simp [Policy.selects, picks.unexcluded, picks.included]
  obtain ⟨unexcluded, included⟩ := Bool.and_eq_true_iff.mp chosen
  exact { picks with
    nulls := nulls ▸ picks.nulls
    unexcluded := by simpa using unexcluded
    included
    insertOnly := insertOnly ▸ picks.insertOnly }

theorem mem_leaves_congr (tree : record.isTree = true) {other : Policy} {leaf : Leaf}
    (selects : other.selects (dotted leaf.path) = policy.selects (dotted leaf.path))
    (nulls : other.writeNulls = policy.writeNulls)
    (insertOnly : other.insertOnly = policy.insertOnly) :
    leaf ∈ record.leaves schema other ↔ leaf ∈ record.leaves schema policy := by
  rw [mem_leaves_iff tree, mem_leaves_iff tree]
  exact ⟨fun picks => picks.of_selects selects.symm nulls.symm insertOnly.symm,
    fun picks => picks.of_selects selects nulls insertOnly⟩

/-- Leaves in the order of a walk are determined by which leaves they are. -/
theorem eq_of_precedes (clear : record.isUnambiguous = true) {leaves others : List Leaf}
    (same : ∀ leaf, leaf ∈ leaves ↔ leaf ∈ others)
    (order : leaves.Pairwise fun first second => Precedes record first.path second.path)
    (otherOrder : others.Pairwise fun first second => Precedes record first.path second.path) :
    leaves = others := by
  have distinct {row : List Leaf}
      (order : row.Pairwise fun first second => Precedes record first.path second.path) :
      row.Nodup := by
    refine order.imp fun precedes equal => ?_
    rw [equal] at precedes
    exact precedes.irrefl clear
  have perm := (List.perm_ext_iff_of_nodup (distinct order) (distinct otherOrder)).mpr same
  exact perm.eq_of_pairwise (fun _ _ _ _ precedes turned => absurd turned (precedes.asymm clear))
    order otherOrder

/-- The leaves of a record are what the policy picks of it: all of it and nothing else, once, and in the
order of the record, which leaves no other list. What the policy says of a map, by the dotted path
of the map, makes no difference to a leaf in it. -/
theorem leaves_exact (tree : record.isTree = true) :
    (record.walk schema policy).complete = .ok (record.leaves schema policy) ∧
    (∀ leaf, leaf ∈ record.leaves schema policy ↔ record.Picks schema policy leaf) ∧
    ((record.leaves schema policy).map Leaf.path).Nodup ∧
    ((record.leaves schema policy).Pairwise fun first second =>
      Precedes record first.path second.path) ∧
    (∀ leaves : List Leaf, (∀ leaf, leaf ∈ leaves ↔ record.Picks schema policy leaf) →
      (leaves.Pairwise fun first second => Precedes record first.path second.path) →
      leaves = record.leaves schema policy) ∧
    ∀ leaf above rest, leaf.path = above ++ rest → above ≠ [] → rest ≠ [] →
      (leaf ∈ record.leaves schema { policy with exclude := dotted above :: policy.exclude } ↔
        leaf ∈ record.leaves schema policy) ∧
      ∀ paths, (leaf ∈ record.leaves schema
          { policy with selection := .only (dotted above :: paths) } ↔
        leaf ∈ record.leaves schema { policy with selection := .only paths }) := by
  have clear : record.isUnambiguous = true := Value.isUnambiguous_of_isTree tree
  have order := pairwise_precedes_leaves record schema policy
  refine ⟨complete_walk tree, fun leaf => mem_leaves_iff tree, ?_, order, ?_, ?_⟩
  · refine List.pairwise_map.mpr (order.imp fun precedes same => ?_)
    rw [same] at precedes
    exact precedes.irrefl clear
  · intro leaves picked inOrder
    refine eq_of_precedes clear (fun leaf => ?_) inOrder order
    rw [picked, mem_leaves_iff tree]
  · intro leaf above rest path first later
    have differs : dotted leaf.path ≠ dotted above := by
      rw [path]
      exact (dotted_ne_of_append first later).symm
    refine ⟨mem_leaves_congr tree ?_ rfl rfl, fun paths => mem_leaves_congr tree ?_ rfl rfl⟩
    · simp [Policy.selects, Policy.includes, differs]
    · simp [Policy.selects, Policy.includes, differs]

/-- A shelf with a map for its identity, and with the name of that in another map. -/
def shelf : Record :=
  [(.text "id", .map [(.text "no", .int 1)]),
    (.text "size", .map [(.text "width", .map [(.text "least", .int 2), (.text "most", .unset)]),
      (.text "id", .null)]),
    (.text "note", .map [])]

theorem leaves_exact_shelf :
    shelf.isTree = true ∧
    shelf.Picks .order (.excluding ["size", "size.width", "note"] ["size.width.least"] true)
      ⟨["size", "width", "least"], .int 2, true⟩ ∧
    shelf.Picks .order (.excluding ["size", "size.width", "note"] ["size.width.least"] true)
      ⟨["size", "id"], .null, false⟩ ∧
    ¬ shelf.Picks .order (.excluding ["size", "size.width", "note"] ["size.width.least"] true)
      ⟨["id", "no"], .int 1, false⟩ ∧
    Precedes shelf ["size", "width", "least"] ["size", "id"] := by
  have tree : shelf.isTree = true := rfl
  have leaves : shelf.leaves .order
      (.excluding ["size", "size.width", "note"] ["size.width.least"] true) =
        [⟨["size", "width", "least"], .int 2, true⟩, ⟨["size", "id"], .null, false⟩] := rfl
  obtain ⟨-, picked, -, order, -, -⟩ := @leaves_exact shelf .order
    (.excluding ["size", "size.width", "note"] ["size.width.least"] true) tree
  rw [leaves] at picked order
  refine ⟨tree, (picked _).mp (by simp), (picked _).mp (by simp), fun picks => ?_, ?_⟩
  · have absent := (picked _).mpr picks
    simp at absent
  · exact (List.pairwise_cons.mp order).1 ⟨["size", "id"], .null, false⟩ (by simp)

end Record

end RecordMerge

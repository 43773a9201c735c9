import RecordMerge.Proofs.Leaf.Exact

/-!
Which values of a record are withheld as its identity.

The names of the key attributes are compared with dotted paths. So a key attribute whose name has a
point in it withholds an inner value as well, if the names on the path of that join to it. Where no
inner value has such a path, what is withheld is the key attributes of the top level, and nothing else.
-/

set_option autoImplicit false

namespace RecordMerge

namespace Record

/-- What there is to write of a record under a policy, were none of its attributes an identity. -/
structure Offers (record : Record) (policy : Policy) (leaf : Leaf) : Prop where
  nonempty : leaf.path ≠ []
  reached : record.at? leaf.path = some leaf.value
  plain : leaf.value.isMapNode = false
  given : leaf.value ≠ .unset
  nulls : leaf.value = .null → policy.writeNulls = true
  unexcluded : dotted leaf.path ∉ policy.exclude
  included : policy.includes (dotted leaf.path) = true
  insertOnly : leaf.insertOnly = true ↔ dotted leaf.path ∈ policy.insertOnly

/-- Whatever stands at the path, no policy writes anything at or below it. -/
def Withholds (record : Record) (schema : KeySchema) (path : List String) : Prop :=
  ∀ value policy leaf, value.isTree = true →
    leaf ∈ (record.write value false path).leaves schema policy → ¬ path <+: leaf.path

/-- The path is withheld, and not for the sake of a path above it. -/
structure StopsAt (record : Record) (schema : KeySchema) (path : List String) : Prop where
  withholds : record.Withholds schema path
  first : ∀ above, above ≠ [] → above <+: path → record.Withholds schema above → above = path

/-- The path of a key attribute is that of an attribute of the top level only. -/
def KeysOnTop (record : Record) (schema : KeySchema) : Prop :=
  ∀ name next rest value, record.at? (name :: next :: rest) = some value →
    dotted (name :: next :: rest) ∉ schema.names

variable {record : Record} {schema : KeySchema} {policy : Policy} {path : List String}

theorem picks_iff {leaf : Leaf} :
    record.Picks schema policy leaf ↔ record.Offers policy leaf ∧
      ∀ above, above ≠ [] → above <+: leaf.path → dotted above ∉ schema.names := by
  constructor
  · intro picks
    exact ⟨{ picks with }, picks.free⟩
  · rintro ⟨offers, free⟩
    exact { offers with free }

theorem mem_leaves_iff_of_offers (tree : record.isTree = true) {leaf : Leaf}
    (offers : record.Offers policy leaf) :
    leaf ∈ record.leaves schema policy ↔
      ∀ above, above ≠ [] → above <+: leaf.path → dotted above ∉ schema.names := by
  rw [mem_leaves_iff tree, picks_iff, and_iff_right offers]

-- That nothing is written of what a record has at a path may be for many reasons. A value of another
-- kind is put there, so that only the path itself can be the reason.
theorem withholds_iff (tree : record.isTree = true) (nonempty : path ≠ []) :
    record.Withholds schema path ↔
      ∃ above, above ≠ [] ∧ above <+: path ∧ dotted above ∈ schema.names := by
  constructor
  · intro withholds
    by_contra free
    simp only [not_exists, not_and] at free
    have offers : (record.write (.int 0) false path).Offers (.all [] false) ⟨path, .int 0, false⟩ :=
      { nonempty, reached := by simp [at?_write_self, nonempty], plain := rfl, given := nofun,
        nulls := nofun, unexcluded := List.not_mem_nil, included := rfl,
        insertOnly := by simp [Policy.all] }
    have written := (mem_leaves_iff_of_offers (isTree_write tree rfl) offers).mpr free
    exact withholds (.int 0) _ _ rfl written (List.prefix_refl path)
  · rintro ⟨above, first, part, key⟩ value policy leaf plain written below
    have picks := (mem_leaves_iff (isTree_write tree plain)).mp written
    exact picks.free above first (part.trans below) key

theorem stopsAt_iff (tree : record.isTree = true) (nonempty : path ≠ []) :
    record.StopsAt schema path ↔ dotted path ∈ schema.names ∧
      ∀ above, above ≠ [] → above <+: path → dotted above ∈ schema.names → above = path := by
  constructor
  · intro stops
    have first (above : List String) (some : above ≠ []) (part : above <+: path)
        (key : dotted above ∈ schema.names) : above = path :=
      stops.first above some part ((withholds_iff tree some).mpr ⟨above, some, List.prefix_refl _, key⟩)
    obtain ⟨above, some, part, key⟩ := (withholds_iff tree nonempty).mp stops.withholds
    exact ⟨first above some part key ▸ key, first⟩
  · rintro ⟨key, first⟩
    refine ⟨(withholds_iff tree nonempty).mpr ⟨path, nonempty, List.prefix_refl path, key⟩, ?_⟩
    intro above some part withholds
    obtain ⟨further, nonempty, inner, also⟩ := (withholds_iff tree some).mp withholds
    obtain rfl := first further nonempty (inner.trans part) also
    exact part.eq_of_length_le inner.length_le

theorem keysOnTop_of_undotted (undotted : ∀ key ∈ schema.names, '.' ∉ key.toList) :
    record.KeysOnTop schema :=
  fun name next rest _ _ key => undotted _ key (point_mem_dotted name next rest)

namespace KeysOnTop

/-- On the way to a value there is no path of a key attribute but the one of its top-level name. -/
theorem free_iff (top : record.KeysOnTop schema) {name : String} {rest : List String} {value : Value}
    (reached : record.at? (name :: rest) = some value) :
    (∀ above, above ≠ [] → above <+: name :: rest → dotted above ∉ schema.names) ↔
      name ∉ schema.names := by
  constructor
  · intro free
    simpa [dotted] using free [name] (by simp) (by simp)
  · rintro other above nonempty ⟨below, whole⟩
    cases above with
    | nil => exact absurd rfl nonempty
    | cons first inner =>
      cases inner with
      | nil =>
        cases whole
        simpa [dotted] using other
      | cons next more =>
        rw [← show _ = name :: rest from whole, at?, Value.at?_append] at reached
        obtain ⟨held, found, -⟩ := Option.bind_eq_some_iff.mp reached
        exact top first next more held found

theorem stopsAt_iff (top : record.KeysOnTop schema) (tree : record.isTree = true)
    (nonempty : path ≠ []) {value : Value} (reached : record.at? path = some value) :
    record.StopsAt schema path ↔ ∃ name ∈ schema.names, path = [name] := by
  rw [Record.stopsAt_iff tree nonempty]
  constructor
  · rintro ⟨key, -⟩
    match path with
    | [] => exact absurd rfl nonempty
    | [name] => exact ⟨name, by simpa [dotted] using key, rfl⟩
    | name :: next :: rest => exact absurd key (top name next rest value reached)
  · rintro ⟨name, key, rfl⟩
    refine ⟨by simpa [dotted] using key, fun above some part _ => ?_⟩
    obtain none | ⟨rest, rfl, inner⟩ := List.prefix_cons_iff.mp part
    · exact absurd none some
    · rw [List.prefix_nil.mp inner]

end KeysOnTop

/-- The walk stops at the paths that join to the name of a key attribute, and all that there is to write
elsewhere is written. If that of no inner value does, the walk stops at the key attributes of the top
level only, and no inner value is left out but those in them. -/
theorem identity_withheld (tree : record.isTree = true) :
    (∀ path, path ≠ [] → (record.StopsAt schema path ↔ dotted path ∈ schema.names ∧
      ∀ above, above ≠ [] → above <+: path → dotted above ∈ schema.names → above = path)) ∧
    (∀ policy leaf, record.Offers policy leaf → (leaf ∈ record.leaves schema policy ↔
      ∀ above, above ≠ [] → above <+: leaf.path → dotted above ∉ schema.names)) ∧
    (record.KeysOnTop schema →
      (∀ path value, path ≠ [] → record.at? path = some value →
        (record.StopsAt schema path ↔ ∃ name ∈ schema.names, path = [name])) ∧
      ∀ policy leaf name rest, record.Offers policy leaf → leaf.path = name :: rest →
        (leaf ∈ record.leaves schema policy ↔ name ∉ schema.names)) := by
  refine ⟨fun path nonempty => stopsAt_iff tree nonempty,
    fun policy leaf offers => mem_leaves_iff_of_offers tree offers, fun top => ⟨?_, ?_⟩⟩
  · exact fun path value nonempty reached => top.stopsAt_iff tree nonempty reached
  · intro policy leaf name rest offers path
    rw [mem_leaves_iff_of_offers tree offers, path]
    exact top.free_iff (path ▸ offers.reached)

theorem identity_withheld_shelf :
    shelf.isTree = true ∧ shelf.StopsAt .order ["id"] ∧ ¬ shelf.StopsAt .order ["size", "id"] ∧
      ⟨["size", "id"], .null, false⟩ ∈ shelf.leaves .order (.all [] true) := by
  have tree : shelf.isTree = true := rfl
  have top : shelf.KeysOnTop .order := keysOnTop_of_undotted (by decide)
  have offers : shelf.Offers (.all [] true) ⟨["size", "id"], .null, false⟩ :=
    { nonempty := nofun, reached := rfl, plain := rfl, given := nofun, nulls := fun _ => rfl,
      unexcluded := List.not_mem_nil, included := rfl, insertOnly := by simp [Policy.all] }
  obtain ⟨-, -, onTop⟩ := @identity_withheld shelf .order tree
  obtain ⟨stops, written⟩ := onTop top
  refine ⟨tree, (stops ["id"] _ nofun rfl).mpr ⟨"id", by decide, rfl⟩, fun inner => ?_, ?_⟩
  · obtain ⟨name, -, path⟩ := (stops ["size", "id"] _ nofun rfl).mp inner
    simp at path
  · exact (written _ _ "size" ["id"] offers rfl).mpr (by decide)

/-- A record whose identity has a name with a point in it, and a map with two entries. -/
def versions : Record :=
  [(.text "v1.2", .text "k"), (.text "v1", .map [(.text "2", .int 1), (.text "3", .int 2)])]

/-- An inner value is withheld although it is no attribute of the top level. -/
theorem inner_value_withheld :
    versions.Offers (.all [] false) ⟨["v1", "2"], .int 1, false⟩ ∧
      "v1" ∉ (KeySchema.single "v1.2" (by decide)).names ∧
      versions.leaves (.single "v1.2" (by decide)) (.all [] false) =
        [⟨["v1", "3"], .int 2, false⟩] :=
  ⟨{ nonempty := nofun, reached := rfl, plain := rfl, given := nofun, nulls := nofun,
     unexcluded := List.not_mem_nil, included := rfl, insertOnly := by simp [Policy.all] },
    by decide, rfl⟩

end Record

end RecordMerge

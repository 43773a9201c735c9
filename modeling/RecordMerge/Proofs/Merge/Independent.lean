import RecordMerge.Proofs.Merge.Effect

/-!
Merging two records one after the other.

Where no leaf of one record is on the path of a leaf of the other, each merge finds at its leaves
what was stored before the other one. Both may make the same map on their way; it has what both of
them write, in the order of the merges.
-/

set_option autoImplicit false

namespace RecordMerge.Record

variable {schema : KeySchema} {policy other : Policy}
  {current first second one two last final : Record}

/-- At the leaves of a second record, a merge leaves what is stored there. -/
theorem Merges.at?_apart (merges : Merges schema policy current first one) {leaf : Leaf}
    (member : leaf ∈ second.leaves schema other)
    (apart : ∀ written ∈ first.leaves schema policy, Apart written.path leaf.path) :
    one.at? leaf.path = current.at? leaf.path := by
  obtain ⟨name, rest, path, plain⟩ := path_of_mem_leaves member
  rw [path] at apart ⊢
  exact merges.kept name rest plain apart

section

variable (firstOnce : Merges schema policy current first one)
  (secondAfter : Merges schema other one second last)
  (secondOnce : Merges schema other current second two)
  (firstAfter : Merges schema policy two first final)
include firstOnce secondAfter secondOnce firstAfter

/-- A leaf of the first record is written alike in both orders. -/
theorem exists_at?_of_apart {leaf : Leaf} (member : leaf ∈ first.leaves schema policy)
    (apart : ∀ written ∈ second.leaves schema other, Apart written.path leaf.path) :
    ∃ value, last.at? leaf.path = some value ∧ final.at? leaf.path = some value := by
  refine ⟨if leaf.insertOnly then (current.at? leaf.path).getD leaf.value else leaf.value, ?_, ?_⟩
  · rw [secondAfter.at?_apart member apart, firstOnce.written leaf member]
  · rw [firstAfter.written leaf member, secondOnce.at?_apart member apart]

theorem agree_of_merges
    (apart : ∀ left ∈ first.leaves schema policy, ∀ right ∈ second.leaves schema other,
      Apart left.path right.path) {name : String} (plain : name ∉ schema.names)
    (rest : List String) : Value.Agree (last.at? (name :: rest)) (final.at? (name :: rest)) := by
  refine agree_of_leaves (first.leaves schema policy ++ second.leaves schema other) ?_ fun unmet => ?_
  · intro leaf member
    rcases List.mem_append.mp member with inFirst | inSecond
    · exact exists_at?_of_apart firstOnce secondAfter secondOnce firstAfter inFirst
        fun written within => (apart leaf inFirst written within).symm
    · obtain ⟨value, there, here⟩ := exists_at?_of_apart secondOnce firstAfter firstOnce secondAfter
        inSecond fun written within => apart written within leaf inSecond
      exact ⟨value, here, there⟩
  · -- No leaf is met, so that both orders leave what is stored.
    obtain ⟨firstUnmet, secondUnmet⟩ := List.forall_mem_append.mp unmet
    rw [secondAfter.kept name rest plain secondUnmet, firstOnce.kept name rest plain firstUnmet,
      firstAfter.kept name rest plain firstUnmet, secondOnce.kept name rest plain secondUnmet]

end

/-- Two records whose leaves are apart can be merged in either order: the outcome is the same, up to
the order of entries and up to `same` in the key attributes, which are those of the later record. -/
theorem merges_commute {same : Value → Value → Prop} (reflexive : ∀ value, same value value)
    (currentTree : current.isTree = true) (firstTree : first.isTree = true)
    (secondTree : second.isTree = true) (currentFree : Value.entriesUnsetFree current = true)
    (firstFree : ∀ leaf ∈ first.leaves schema policy, leaf.value.unsetFree = true)
    (secondFree : ∀ leaf ∈ second.leaves schema other, leaf.value.unsetFree = true)
    (identities : ∀ name ∈ schema.names, ∃ left right,
      KeySchema.identityOf first name = .ok left ∧
      KeySchema.identityOf second name = .ok right ∧ same right left)
    (apart : ∀ left ∈ first.leaves schema policy, ∀ right ∈ second.leaves schema other,
      Apart left.path right.path) :
    ∃ one two last final,
      merge current first schema policy = .ok one ∧ merge one second schema other = .ok last ∧
      merge current second schema other = .ok two ∧ merge two first schema policy = .ok final ∧
      Reordered same last final := by
  obtain ⟨firstIdentity, firstListed⟩ := KeySchema.exists_lists fun name key =>
    have ⟨left, _, found, _⟩ := identities name key
    ⟨left, found⟩
  obtain ⟨secondIdentity, secondListed⟩ := KeySchema.exists_lists fun name key =>
    have ⟨_, right, _, found, _⟩ := identities name key
    ⟨right, found⟩
  have mergesFirst (record : Record) : ∃ merged, merge record first schema policy = .ok merged :=
    (exists_merge_iff firstTree).mpr ⟨_, KeySchema.identities_eq_ok_iff.mpr firstListed⟩
  have mergesSecond (record : Record) : ∃ merged, merge record second schema other = .ok merged :=
    (exists_merge_iff secondTree).mpr ⟨_, KeySchema.identities_eq_ok_iff.mpr secondListed⟩
  obtain ⟨one, firstDone⟩ := mergesFirst current
  obtain ⟨last, lastDone⟩ := mergesSecond one
  obtain ⟨two, secondDone⟩ := mergesSecond current
  obtain ⟨final, finalDone⟩ := mergesFirst two
  have free : current.FreeBeside schema.names := freeBeside_of_unsetFree currentFree
  have firstOnce := merges_of_merge currentTree firstTree free firstFree firstDone
  have secondOnce := merges_of_merge currentTree secondTree free secondFree secondDone
  have secondAfter := merges_of_merge firstOnce.tree secondTree firstOnce.free secondFree lastDone
  have firstAfter := merges_of_merge secondOnce.tree firstTree secondOnce.free firstFree finalDone
  refine ⟨one, two, last, final, firstDone, lastDone, secondDone, finalDone, ?_⟩
  refine reordered_of_agree_beside reflexive secondAfter.tree firstAfter.tree
    (fun name rest plain =>
      agree_of_merges firstOnce secondAfter secondOnce firstAfter apart plain rest)
    fun name key => ?_
  obtain ⟨left, right, foundLeft, foundRight, equal⟩ := identities name key
  refine ⟨right, left, ?_, ?_, equal⟩
  · rw [secondAfter.identity name key, KeySchema.get?_of_identityOf foundRight]
  · rw [firstAfter.identity name key, KeySchema.get?_of_identityOf foundLeft]

/-- A record that makes a map of the stored text under `size`, beside another one that does. -/
def depthOfSize : Record :=
  [(.text "id", .decimal (.finite false 1 0)), (.text "size", .map [(.text "depth", .int 4)])]

def widthOfSize : Record :=
  [(.text "size", .map [(.text "width", .int 3)]), (.text "seen", .int 7), (.text "id", .int 1)]

theorem merges_commute_size :
    ∃ one two last final,
      merge [(.text "id", .int 1), (.text "size", .text "?"), (.text "seen", .null)] widthOfSize
        .order (.all ["seen", "size.width"] false) = .ok one ∧
      merge one depthOfSize .order (.all ["size.depth"] false) = .ok last ∧
      merge [(.text "id", .int 1), (.text "size", .text "?"), (.text "seen", .null)] depthOfSize
        .order (.all ["size.depth"] false) = .ok two ∧
      merge two widthOfSize .order (.all ["seen", "size.width"] false) = .ok final ∧
      Reordered (fun left right => left = right ∨ left.compare? right = some true) last final := by
  have widths : widthOfSize.leaves .order (.all ["seen", "size.width"] false) =
      [⟨["size", "width"], .int 3, true⟩, ⟨["seen"], .int 7, true⟩] := rfl
  have depths : depthOfSize.leaves .order (.all ["size.depth"] false) =
      [⟨["size", "depth"], .int 4, true⟩] := rfl
  refine merges_commute (fun value => Or.inl rfl) rfl rfl rfl rfl (by rw [widths]; decide)
    (by rw [depths]; decide) ?_ ?_
  · intro name key
    obtain rfl := List.mem_singleton.mp key
    exact ⟨.int 1, .decimal (.finite false 1 0), rfl, rfl, Or.inr rfl⟩
  · rw [widths, depths]
    simp [Apart]

end RecordMerge.Record

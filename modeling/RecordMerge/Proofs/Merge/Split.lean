import RecordMerge.Proofs.Leaf.Selection
import RecordMerge.Proofs.Merge.Independent

/-!
A merge in two parts.

Two policies that share out the paths of a third one share out its leaves. The leaves of the one are
apart from those of the other, so that each of the two merges decides at its own leaves as the single
merge does, whatever maps the other one has made.
-/

set_option autoImplicit false

namespace RecordMerge.Record

variable {schema : KeySchema} {first second whole : Policy} {keep : String → Bool}
  {current incoming part both once : Record}

/-- Merging what one policy selects of a record, and then what another one does. -/
def mergeBoth (current incoming : Record) (schema : KeySchema) (first second : Policy) :
    Except Failure Record := do
  let part ← merge current incoming schema first
  merge part incoming schema second

theorem apart_of_mem_leaves (tree : incoming.isTree = true) {left right : Leaf}
    (one : left ∈ incoming.leaves schema whole) (two : right ∈ incoming.leaves schema whole)
    (differs : left ≠ right) : Apart left.path right.path := by
  have symmetric : Std.Symm fun first second : Leaf => Apart first.path second.path :=
    ⟨fun _ _ => Apart.symm⟩
  exact (pairwise_leaves tree).forall one two differs

section

variable (firstNarrows : first.Narrows whole keep)
  (secondNarrows : second.Narrows whole fun path => !keep path)
include firstNarrows secondNarrows

theorem perm_leaves (record : Record) (schema : KeySchema) :
    (record.leaves schema first ++ record.leaves schema second).Perm
      (record.leaves schema whole) := by
  rw [leaves_of_narrows firstNarrows, leaves_of_narrows secondNarrows]
  exact List.filter_append_perm _ _

theorem disjoint_leaves (record : Record) (schema : KeySchema) :
    List.Disjoint (record.leaves schema first) (record.leaves schema second) := by
  rw [leaves_of_narrows firstNarrows, leaves_of_narrows secondNarrows]
  intro leaf one two
  have kept := (List.mem_filter.mp one).2
  have dropped := (List.mem_filter.mp two).2
  rw [kept] at dropped
  cases dropped

theorem apart_of_narrows (tree : incoming.isTree = true) {left right : Leaf}
    (one : left ∈ incoming.leaves schema first) (two : right ∈ incoming.leaves schema second) :
    Apart left.path right.path := by
  have perm := perm_leaves firstNarrows secondNarrows incoming schema
  have inWhole := perm.subset (List.mem_append_left _ one)
  have alsoInWhole := perm.subset (List.mem_append_right _ two)
  refine apart_of_mem_leaves tree inWhole alsoInWhole fun same => ?_
  exact disjoint_leaves firstNarrows secondNarrows incoming schema one (same ▸ two)

variable (tree : incoming.isTree = true) (merges : Merges schema first current incoming part)
  (mergesRest : Merges schema second part incoming both)
  (mergesOnce : Merges schema whole current incoming once)
include tree merges mergesRest mergesOnce

/-- Every leaf is written alike in one merge and in two. -/
theorem exists_at?_of_narrows {leaf : Leaf} (member : leaf ∈ incoming.leaves schema whole) :
    ∃ value, both.at? leaf.path = some value ∧ once.at? leaf.path = some value := by
  have apart {left right : Leaf} (one : left ∈ incoming.leaves schema first)
      (two : right ∈ incoming.leaves schema second) : Apart left.path right.path :=
    apart_of_narrows firstNarrows secondNarrows tree one two
  refine ⟨_, ?_, mergesOnce.written leaf member⟩
  have shared := (perm_leaves firstNarrows secondNarrows incoming schema).mem_iff.mpr member
  rcases List.mem_append.mp shared with inFirst | inSecond
  · rw [mergesRest.at?_apart inFirst fun other within => (apart inFirst within).symm,
      merges.written leaf inFirst]
  · rw [mergesRest.written leaf inSecond,
      merges.at?_apart inSecond fun other within => apart within inSecond]

theorem reordered_of_narrows {identity : Record} (keyed : schema.keyOf incoming = .ok identity) :
    Reordered Eq both once := by
  refine reordered_of_leaves (incoming.leaves schema whole) schema.names mergesRest.tree
    mergesOnce.tree (fun leaf member =>
      exists_at?_of_narrows firstNarrows secondNarrows tree merges mergesRest mergesOnce member)
    (fun name rest plain unmet => ?_) fun name key => ?_
  · -- No leaf is met, and none of those that either policy leaves of them.
    have perm := perm_leaves firstNarrows secondNarrows incoming schema
    obtain ⟨firstUnmet, secondUnmet⟩ := List.forall_mem_append.mp fun leaf member =>
      unmet leaf (perm.subset member)
    rw [mergesOnce.kept name rest plain unmet, mergesRest.kept name rest plain secondUnmet,
      merges.kept name rest plain firstUnmet]
  · obtain ⟨value, held, -⟩ := KeySchema.exists_get?_of_keyOf keyed key
    exact ⟨value, (mergesRest.identity name key).trans held,
      (mergesOnce.identity name key).trans held⟩

end

/-- Two policies that share out the paths of a third one merge what that one merges. -/
theorem mergeBoth_of_narrows (firstNarrows : first.Narrows whole keep)
    (secondNarrows : second.Narrows whole fun path => !keep path)
    (currentTree : current.isTree = true) (incomingTree : incoming.isTree = true)
    (currentFree : Value.entriesUnsetFree current = true)
    (leavesFree : ∀ leaf ∈ incoming.leaves schema whole, leaf.value.unsetFree = true)
    {identity : Record} (keyed : schema.keyOf incoming = .ok identity) :
    ∃ both once, mergeBoth current incoming schema first second = .ok both ∧
      merge current incoming schema whole = .ok once ∧ Reordered Eq both once := by
  have merged (record : Record) (policy : Policy) :
      ∃ merged, merge record incoming schema policy = .ok merged :=
    (exists_merge_iff incomingTree).mpr ⟨identity, keyed⟩
  obtain ⟨part, partDone⟩ := merged current first
  obtain ⟨both, bothDone⟩ := merged part second
  obtain ⟨once, onceDone⟩ := merged current whole
  have perm := perm_leaves firstNarrows secondNarrows incoming schema
  have free : current.FreeBeside schema.names := freeBeside_of_unsetFree currentFree
  have merges := merges_of_merge currentTree incomingTree free
    (fun leaf member => leavesFree leaf (perm.subset (List.mem_append_left _ member))) partDone
  have mergesRest := merges_of_merge merges.tree incomingTree merges.free
    (fun leaf member => leavesFree leaf (perm.subset (List.mem_append_right _ member))) bothDone
  have mergesOnce := merges_of_merge currentTree incomingTree free leavesFree onceDone
  exact ⟨both, once, bind_eq_ok_iff.mpr ⟨part, partDone, bothDone⟩, onceDone,
    reordered_of_narrows firstNarrows secondNarrows incomingTree merges mergesRest mergesOnce keyed⟩

theorem merge_eq_error (tree : incoming.isTree = true) {failure : Failure}
    (unkeyed : schema.keyOf incoming = .error failure) (current : Record) (policy : Policy) :
    merge current incoming schema policy = .error failure := by
  unfold merge
  rw [complete_walk tree, unkeyed]
  rfl

/-- Taking paths only and taking all paths but these share out the leaves of a record, in any record
and as far as the walk comes. Merged one after the other, they make what a merge of all the leaves
makes, up to the order of entries, and fail as it does. -/
theorem only_with_excluding (record : Record) (schema : KeySchema) (paths insertOnly : List String)
    (writeNulls : Bool) :
    (record.leaves schema (.only paths insertOnly writeNulls)).Sublist
      (record.leaves schema (.all insertOnly writeNulls)) ∧
    (record.leaves schema (.excluding paths insertOnly writeNulls)).Sublist
      (record.leaves schema (.all insertOnly writeNulls)) ∧
    List.Disjoint (record.leaves schema (.only paths insertOnly writeNulls))
      (record.leaves schema (.excluding paths insertOnly writeNulls)) ∧
    (record.leaves schema (.only paths insertOnly writeNulls) ++
      record.leaves schema (.excluding paths insertOnly writeNulls)).Perm
        (record.leaves schema (.all insertOnly writeNulls)) ∧
    ∀ current : Record, current.isTree = true → record.isTree = true →
      Value.entriesUnsetFree current = true →
      (∀ leaf ∈ record.leaves schema (.all insertOnly writeNulls), leaf.value.unsetFree = true) →
      (∀ identity, schema.keyOf record = .ok identity →
        ∃ both once, mergeBoth current record schema (.only paths insertOnly writeNulls)
            (.excluding paths insertOnly writeNulls) = .ok both ∧
          merge current record schema (.all insertOnly writeNulls) = .ok once ∧
          Reordered Eq both once) ∧
      ∀ failure, schema.keyOf record = .error failure →
        mergeBoth current record schema (.only paths insertOnly writeNulls)
            (.excluding paths insertOnly writeNulls) = .error failure ∧
          merge current record schema (.all insertOnly writeNulls) = .error failure := by
  have only := Policy.narrows_only paths insertOnly writeNulls
  have excluding := Policy.narrows_excluding paths insertOnly writeNulls
  refine ⟨?_, ?_, disjoint_leaves only excluding record schema,
    perm_leaves only excluding record schema, ?_⟩
  · rw [leaves_of_narrows only]
    exact List.filter_sublist
  · rw [leaves_of_narrows excluding]
    exact List.filter_sublist
  · intro current currentTree tree currentFree leavesFree
    refine ⟨fun identity keyed => ?_, fun failure unkeyed => ?_⟩
    · exact mergeBoth_of_narrows only excluding currentTree tree currentFree leavesFree keyed
    · refine ⟨?_, merge_eq_error tree unkeyed current _⟩
      rw [mergeBoth, merge_eq_error tree unkeyed]
      rfl

-- Both halves write under `size`, of which the first makes a map; the excluded half has an insert-only
-- leaf in it. The selected path `size` is that of a map, and selects nothing.
theorem only_with_excluding_size :
    ∃ both once, mergeBoth storedSize incomingSize .order
        (.only ["size", "size.width.least"] ["size.depth", "seen"] false)
        (.excluding ["size", "size.width.least"] ["size.depth", "seen"] false) = .ok both ∧
      merge storedSize incomingSize .order (.all ["size.depth", "seen"] false) = .ok once ∧
      Reordered Eq both once := by
  have leaves : incomingSize.leaves .order (.all ["size.depth", "seen"] false) =
      [⟨["note"], .text "new", false⟩, ⟨["seen"], .int 7, true⟩,
        ⟨["size", "width", "least"], .int 2, false⟩] := rfl
  have free : ∀ leaf ∈ incomingSize.leaves .order (.all ["size.depth", "seen"] false),
      leaf.value.unsetFree = true := by
    rw [leaves]
    decide
  obtain ⟨-, -, -, -, merges⟩ := only_with_excluding incomingSize .order
    ["size", "size.width.least"] ["size.depth", "seen"] false
  exact (merges storedSize rfl rfl rfl free).1 _ rfl

end RecordMerge.Record

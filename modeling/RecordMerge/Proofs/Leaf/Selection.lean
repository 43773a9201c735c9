import RecordMerge.Proofs.Leaf.Path

/-! The leaves under a policy that takes some of the paths that another one takes: those of the other
policy, without the ones that are not taken. -/

set_option autoImplicit false

namespace RecordMerge

namespace Policy

/-- The first policy takes the paths that the second one takes and that pass a test. In all else they
are alike. -/
structure Narrows (narrow wide : Policy) (keep : String → Bool) : Prop where
  selects : ∀ path, narrow.selects path = (wide.selects path && keep path)
  insertOnly : narrow.insertOnly = wide.insertOnly
  writeNulls : narrow.writeNulls = wide.writeNulls

variable (paths insertOnly : List String) (writeNulls : Bool)

theorem narrows_only :
    (only paths insertOnly writeNulls).Narrows (all insertOnly writeNulls) paths.contains where
  selects path := by simp [only, all, selects, includes]
  insertOnly := rfl
  writeNulls := rfl

theorem narrows_excluding :
    (excluding paths insertOnly writeNulls).Narrows (all insertOnly writeNulls)
      fun path => !paths.contains path where
  selects path := by simp [excluding, all, selects, includes]
  insertOnly := rfl
  writeNulls := rfl

end Policy

namespace Leaf

variable {keys : List String} {narrow wide : Policy} {keep : String → Bool}

/-- Whether a visit passes the test on its path; a name that cannot be read is met under any policy. -/
def passes (keep : String → Bool) : Visit → Bool
  | .ok leaf => keep (dotted leaf.path)
  | .error _ => true

theorem selected_of_narrows (narrows : narrow.Narrows wide keep) (path : String) (value : Value) :
    selected narrow path value = (selected wide path value && keep path) := by
  simp only [selected, narrows.selects, narrows.writeNulls, Bool.and_assoc]

theorem ofEntries_of_each {parent : List String} {entries : Record}
    (each : ∀ entry ∈ entries, ∀ path, below keys narrow path entry.2 =
      (below keys wide path entry.2).filter (passes keep)) :
    ofEntries keys narrow parent entries =
      (ofEntries keys wide parent entries).filter (passes keep) := by
  induction entries with
  | nil => rfl
  | cons entry rest tail =>
    obtain ⟨key, value⟩ := entry
    obtain ⟨here, others⟩ := List.forall_mem_cons.mp each
    rw [ofEntries, ofEntries, List.filter_append, tail others]
    cases key.toText? with
    | none => rfl
    | some name => exact congrArg (· ++ _) (here (parent ++ [name]))

theorem below_of_narrows (narrows : narrow.Narrows wide keep) (path : List String) (value : Value) :
    below keys narrow path value = (below keys wide path value).filter (passes keep) := by
  induction value using Value.map_induction generalizing path with
  | plain value plain =>
    rw [below_of_not_mapNode path plain, below_of_not_mapNode path plain,
      selected_of_narrows narrows, narrows.insertOnly]
    cases keys.contains (dotted path) with
    | true => rfl
    | false =>
      cases selected wide (dotted path) value with
      | false => rfl
      | true => cases kept : keep (dotted path) <;> simp [passes, kept]
  | node entries node tail =>
    rw [below_mapNode path node, below_mapNode path node]
    split
    · rfl
    · exact ofEntries_of_each fun entry member path => tail entry member path

end Leaf

theorem Walk.ofVisits_filter (keep : String → Bool) (visits : List Leaf.Visit) :
    ofVisits (visits.filter (Leaf.passes keep)) =
      ⟨(ofVisits visits).leaves.filter fun leaf => keep (dotted leaf.path),
        (ofVisits visits).fault⟩ := by
  fun_induction ofVisits visits with
  | case1 => rfl
  | case2 leaf rest walk tail =>
    cases kept : keep (dotted leaf.path) with
    | false => simp [Leaf.passes, kept, tail, walk]
    | true => simp [Leaf.passes, kept, tail, walk, ofVisits]
  | case3 failure rest => rfl

/-- Under a narrower policy a walk is as long, and has the leaves whose paths pass the test. -/
theorem Record.walk_of_narrows {narrow wide : Policy} {keep : String → Bool}
    (narrows : narrow.Narrows wide keep) (record : Record) (schema : KeySchema) :
    record.walk schema narrow =
      ⟨(record.leaves schema wide).filter fun leaf => keep (dotted leaf.path),
        (record.walk schema wide).fault⟩ := by
  have visits : Leaf.ofEntries schema.names narrow [] record =
      (Leaf.ofEntries schema.names wide [] record).filter (Leaf.passes keep) :=
    Leaf.ofEntries_of_each fun entry _ path => Leaf.below_of_narrows narrows path entry.2
  rw [walk, walkPast, visits, Walk.ofVisits_filter]
  rfl

theorem Record.leaves_of_narrows {narrow wide : Policy} {keep : String → Bool}
    (narrows : narrow.Narrows wide keep) (record : Record) (schema : KeySchema) :
    record.leaves schema narrow =
      (record.leaves schema wide).filter fun leaf => keep (dotted leaf.path) := by
  rw [leaves, walk_of_narrows narrows]

end RecordMerge

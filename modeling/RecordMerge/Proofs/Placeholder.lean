import RecordMerge.Placeholder
import RecordMerge.Proofs.Entries
import RecordMerge.Proofs.Outcome

/-! Tables of name placeholders as they grow: what was bound before stays bound to the same name. -/

set_option autoImplicit false

namespace RecordMerge.Placeholder

/-- The placeholder by which a name is written. -/
def spelling (name : String) : String :=
  "#" ++ sanitize name

-- Tables only grow, so a placeholder that resolves to its name once does so ever after. All that is
-- added to a table is described by one list of names; steps compose by appending these.
/-- The second table is the first one with the given names added to it. -/
structure Extends (names result : Names) (added : List String) : Prop where
  nonempty : ∀ name ∈ added, name ≠ ""
  bound : ∀ name ∈ added, Entries.get? result (spelling name) = some name
  kept : ∀ placeholder name, Entries.get? names placeholder = some name →
    Entries.get? result placeholder = some name
  keys : ∀ placeholder, placeholder ∈ result.map Prod.fst ↔
    placeholder ∈ names.map Prod.fst ∨ placeholder ∈ added.map spelling
  distinct : (names.map Prod.fst).Nodup → (result.map Prod.fst).Nodup

namespace Extends

theorem refl (names : Names) : Extends names names [] where
  nonempty := by simp
  bound := by simp
  kept _ _ found := found
  keys := by simp
  distinct nodup := nodup

theorem trans {names middle result : Names} {first second : List String}
    (earlier : Extends names middle first) (later : Extends middle result second) :
    Extends names result (first ++ second) where
  nonempty name member := by
    rcases List.mem_append.mp member with before | after
    · exact earlier.nonempty name before
    · exact later.nonempty name after
  bound name member := by
    rcases List.mem_append.mp member with before | after
    · exact later.kept _ _ (earlier.bound name before)
    · exact later.bound name after
  kept placeholder name found := later.kept _ _ (earlier.kept _ _ found)
  keys placeholder := by
    rw [later.keys, earlier.keys, List.map_append, List.mem_append, or_assoc]
  distinct nodup := later.distinct (earlier.distinct nodup)

theorem of_known {names : Names} {name : String} (given : name ≠ "")
    (found : Entries.get? names (spelling name) = some name) : Extends names names [name] where
  nonempty := by simpa using given
  bound := by simpa using found
  kept _ _ held := held
  keys other := by
    have member := (Entries.get?_isSome_iff names (spelling name)).mp (by simp [found])
    simp only [List.map_cons, List.map_nil, List.mem_singleton]
    refine ⟨Or.inl, fun either => ?_⟩
    rcases either with earlier | same
    · exact earlier
    · exact same ▸ member
  distinct nodup := nodup

/-- A placeholder that is free, or bound to the name already, may be bound to it. -/
theorem put {names : Names} {name : String} (given : name ≠ "")
    (fits : ∀ known, Entries.get? names (spelling name) = some known → known = name) :
    Extends names (Entries.put names (spelling name) name) [name] where
  nonempty := by simpa using given
  bound := by simp [Entries.get?_put_self]
  kept other held bound := by
    by_cases same : spelling name = other
    · subst same
      rw [Entries.get?_put_self, fits held bound]
    · rw [Entries.get?_put_of_ne names name same]
      exact bound
  keys other := by simp [Entries.mem_keys_put_iff]
  distinct := Entries.nodup_put

theorem mapM_get? {names result : Names} {added path : List String}
    (grown : Extends names result added) (within : path ⊆ added) :
    (path.map spelling).mapM (Entries.get? result) = some path := by
  induction path with
  | nil => rfl
  | cons name rest tail =>
    obtain ⟨first, others⟩ := List.cons_subset.mp within
    rw [List.map_cons, List.mapM_cons, grown.bound name first, tail others]
    rfl

end Extends

theorem ofName_eq_ok_iff {name placeholder : String} :
    ofName name = .ok placeholder ↔ name ≠ "" ∧ placeholder = spelling name := by
  unfold ofName
  split
  · next empty => simp [empty]
  · next given => simp [given, spelling, eq_comm]

theorem addName_spec {names result : Names} {name placeholder : String}
    (done : addName names name = .ok (placeholder, result)) :
    placeholder = spelling name ∧ Extends names result [name] := by
  obtain ⟨written, spelt, placed⟩ := bind_eq_ok_iff.mp done
  obtain ⟨given, rfl⟩ := ofName_eq_ok_iff.mp spelt
  cases found : Entries.get? names (spelling name) with
  | some known =>
    simp only [found] at placed
    split at placed
    · next same =>
      subst same
      cases placed
      exact ⟨rfl, .of_known given found⟩
    · cases placed
  | none =>
    simp only [found] at placed
    cases placed
    exact ⟨rfl, .put given fun known held => by simp [found] at held⟩

theorem addPath_spec {names result : Names} {path target : List String}
    (done : addPath names path = .ok (target, result)) :
    target = path.map spelling ∧ Extends names result path := by
  induction path generalizing names target with
  | nil =>
    cases done
    exact ⟨rfl, .refl _⟩
  | cons name rest tail =>
    obtain ⟨⟨placeholder, middle⟩, first, later⟩ := bind_eq_ok_iff.mp done
    obtain ⟨⟨placeholders, last⟩, others, built⟩ := bind_eq_ok_iff.mp later
    cases built
    obtain ⟨rfl, earlier⟩ := addName_spec first
    obtain ⟨rfl, after⟩ := tail others
    exact ⟨rfl, earlier.trans after⟩

end RecordMerge.Placeholder

import Mathlib.Data.List.Range
import RecordMerge.Proofs.Placeholder
import RecordMerge.Update

/-! What a compiled update consists of: for each leaf one assignment, which resolves to the leaf
through the tables of the update. -/

set_option autoImplicit false

namespace RecordMerge

open Placeholder (Extends Names ofIndex spelling)

/-- The leaf that an assignment writes, if its placeholders are bound. -/
def Assignment.resolve (names : Names) (values : List (String × Value)) (assignment : Assignment) :
    Option Leaf := do
  let path ← assignment.target.mapM (Entries.get? names)
  let value ← Entries.get? values assignment.value
  some ⟨path, value, assignment.keepsStored⟩

namespace Update

/-- The assignments of leaves, with their values numbered from `index` on. -/
def assignmentsOf (index : Nat) : List Leaf → List Assignment
  | [] => []
  | leaf :: rest =>
    ⟨leaf.path.map spelling, ofIndex index, leaf.insertOnly⟩ :: assignmentsOf (index + 1) rest

theorem map_value_assignmentsOf (index : Nat) (leaves : List Leaf) :
    (assignmentsOf index leaves).map Assignment.value =
      (List.range' index leaves.length).map ofIndex := by
  induction leaves generalizing index with
  | nil => rfl
  | cons leaf rest tail => simp [assignmentsOf, List.range'_succ, tail]

theorem flatMap_target_assignmentsOf (index : Nat) (leaves : List Leaf) :
    (assignmentsOf index leaves).flatMap Assignment.target =
      (leaves.flatMap Leaf.path).map spelling := by
  induction leaves generalizing index with
  | nil => rfl
  | cons leaf rest tail => simp [assignmentsOf, tail]

theorem keys_valuesOf (index : Nat) (leaves : List Leaf) :
    (valuesOf index leaves).map Prod.fst = (List.range' index leaves.length).map ofIndex := by
  induction leaves generalizing index with
  | nil => rfl
  | cons leaf rest tail => simp [valuesOf, List.range'_succ, tail]

theorem nodup_keys_valuesOf (index : Nat) (leaves : List Leaf) :
    ((valuesOf index leaves).map Prod.fst).Nodup := by
  rw [keys_valuesOf]
  exact List.Nodup.map (fun _ _ => Placeholder.ofIndex_inj) List.nodup_range'

theorem resolve_targets {before names : Names} {added : List String}
    (grown : Extends before names added) {index : Nat} {leaves : List Leaf}
    (within : ∀ leaf ∈ leaves, leaf.path ⊆ added) :
    (assignmentsOf index leaves).mapM (fun assignment =>
      assignment.target.mapM (Entries.get? names)) = some (leaves.map Leaf.path) := by
  induction leaves generalizing index with
  | nil => rfl
  | cons leaf rest tail =>
    obtain ⟨first, others⟩ := List.forall_mem_cons.mp within
    rw [assignmentsOf, List.mapM_cons, tail others]
    simp [grown.mapM_get? first]

theorem resolve_assignmentsOf {before names : Names} {added : List String}
    (grown : Extends before names added) {values : List (String × Value)} {index : Nat}
    {leaves : List Leaf} (within : ∀ leaf ∈ leaves, leaf.path ⊆ added)
    (bound : ∀ pair ∈ valuesOf index leaves, Entries.get? values pair.1 = some pair.2) :
    (assignmentsOf index leaves).mapM (Assignment.resolve names values) = some leaves := by
  induction leaves generalizing index with
  | nil => rfl
  | cons leaf rest tail =>
    simp only [valuesOf, List.forall_mem_cons] at within bound
    rw [assignmentsOf, List.mapM_cons, tail within.2 bound.2]
    simp [Assignment.resolve, grown.mapM_get? within.1, bound.1]

theorem assign_spec {names result : Names} {index : Nat} {leaves : List Leaf}
    {assignments : List Assignment} (done : assign names index leaves = .ok (assignments, result)) :
    assignments = assignmentsOf index leaves ∧
      Extends names result (leaves.flatMap Leaf.path) := by
  induction leaves generalizing names index assignments with
  | nil =>
    cases done
    exact ⟨rfl, .refl _⟩
  | cons leaf rest tail =>
    obtain ⟨⟨target, middle⟩, first, later⟩ := bind_eq_ok_iff.mp done
    obtain ⟨⟨others, last⟩, following, built⟩ := bind_eq_ok_iff.mp later
    cases built
    obtain ⟨rfl, earlier⟩ := Placeholder.addPath_spec first
    obtain ⟨rfl, after⟩ := tail following
    exact ⟨rfl, earlier.trans after⟩

/-- The update is the one that writes the leaves, of which there is at least one. -/
structure Writes (update : Update) (leaves : List Leaf) : Prop where
  nonempty : leaves ≠ []
  assignments_eq : update.assignments = assignmentsOf 0 leaves
  values_eq : update.values = valuesOf 0 leaves
  names_extend : Extends [] update.names (leaves.flatMap Leaf.path)

/-- A compiled update writes the leaves of a walk that came to its end. -/
theorem compile_spec {record : Record} {schema : KeySchema} {policy : Policy} {update : Update}
    (compiled : compile record schema policy = .ok update) :
    (record.walk schema policy).complete = .ok (record.leaves schema policy) ∧
      update.Writes (record.leaves schema policy) := by
  obtain ⟨⟨assignments, names⟩, assigned, later⟩ := bind_eq_ok_iff.mp compiled
  obtain ⟨leaves, complete, built⟩ := bind_eq_ok_iff.mp later
  obtain ⟨rfl, grown⟩ := assign_spec assigned
  have all : leaves = record.leaves schema policy := by
    unfold Walk.complete at complete
    split at complete
    · cases complete
    · cases complete
      rfl
  subst all
  split at built
  · cases built
  · next some =>
    cases built
    -- An expression without assignments is not compiled.
    refine ⟨complete, ⟨?_, rfl, rfl, grown⟩⟩
    intro none
    simp [Record.leaves] at none
    simp [none, assignmentsOf] at some

namespace Writes

variable {update : Update} {leaves : List Leaf}

theorem resolves (written : update.Writes leaves) :
    update.assignments.mapM (Assignment.resolve update.names update.values) = some leaves := by
  rw [written.assignments_eq, written.values_eq]
  refine resolve_assignmentsOf written.names_extend
    (fun leaf member name within => List.mem_flatMap.mpr ⟨leaf, member, within⟩) ?_
  exact fun pair member => Entries.get?_of_mem (nodup_keys_valuesOf 0 leaves) member

end Writes

end Update

end RecordMerge

import RecordMerge.Failure.Kind
import RecordMerge.Proofs.KeySchema
import RecordMerge.Proofs.Leaf.Keys
import RecordMerge.Proofs.Update.Assigned

/-!
When a record cannot be compiled.

The table of names is checked against one name after another while it grows. What it comes to is a
condition on all names at once, whatever their order: each has a placeholder, and no two share one.
-/

set_option autoImplicit false

namespace RecordMerge

namespace Placeholder

/-- Names that can stand in one table: none is empty, and different ones are spelt differently. -/
structure Nameable (names : List String) : Prop where
  given : ∀ name ∈ names, name ≠ ""
  apart : ∀ name ∈ names, ∀ other ∈ names, sanitize name = sanitize other → name = other

/-- What the fault finds in the names. -/
inductive Hinders (names : List String) : ExpressionFault → Prop where
  | none : names = [] → Hinders names .noUpdates
  | empty : "" ∈ names → Hinders names .emptyName
  | shared {name other : String} : name ∈ names → other ∈ names → name ≠ other →
      sanitize name = sanitize other → Hinders names (.collision "name" (spelling name))

theorem sanitize_eq_of_spelling {name other : String} (same : spelling name = spelling other) :
    sanitize name = sanitize other := by
  have chars := congrArg String.toList same
  simp only [spelling, String.toList_append, List.append_cancel_left_eq] at chars
  exact String.toList_injective chars

theorem Hinders.not_nameable {names : List String} {fault : ExpressionFault}
    (hinders : Hinders names fault) (some : names ≠ []) : ¬ Nameable names := by
  intro nameable
  cases hinders with
  | none nothing => exact some nothing
  | empty member => exact nameable.given "" member rfl
  | shared member within differs same => exact differs (nameable.apart _ member _ within same)

namespace Extends

variable {names : Names} {added : List String}

/-- A table that was empty binds what was added to it, and nothing else. -/
theorem mem_of_get? (grown : Extends [] names added) {placeholder known : String}
    (found : Entries.get? names placeholder = some known) :
    known ∈ added ∧ placeholder = spelling known := by
  have bound := (Entries.get?_isSome_iff names placeholder).mp (by simp [found])
  have spelt := ((grown.keys placeholder).mp bound).resolve_left (by simp)
  obtain ⟨name, member, rfl⟩ := List.mem_map.mp spelt
  obtain rfl := Option.some.inj (found.symm.trans (grown.bound name member))
  exact ⟨member, rfl⟩

theorem nameable (grown : Extends [] names added) : Nameable added where
  given := grown.nonempty
  apart name member other within same := by
    have spelt : spelling name = spelling other := by rw [spelling, spelling, same]
    have held := grown.bound name member
    rw [spelt, grown.bound other within] at held
    exact (Option.some.inj held).symm

end Extends

variable {names : Names} {added : List String} {failure : Failure}

/-- A failure that is put down to a fault in the names. -/
def Blames (names : List String) (failure : Failure) : Prop :=
  ∃ fault, failure = .expression fault ∧ Hinders names fault

theorem blames_of_addName (grown : Extends [] names added) {name : String} (more : List String)
    (failed : addName names name = .error failure) : Blames (added ++ name :: more) failure := by
  have here : name ∈ added ++ name :: more := by simp
  rcases bind_eq_error_iff.mp failed with unspelt | ⟨placeholder, spelt, placed⟩
  · unfold ofName at unspelt
    split at unspelt
    · next nothing =>
      cases unspelt
      exact ⟨_, rfl, .empty (nothing ▸ here)⟩
    · cases unspelt
  · obtain ⟨-, rfl⟩ := ofName_eq_ok_iff.mp spelt
    split at placed
    · next known found =>
      obtain ⟨member, same⟩ := grown.mem_of_get? found
      split at placed
      · cases placed
      · next differs =>
        cases placed
        exact ⟨_, rfl, .shared here (List.mem_append_left _ member) (Ne.symm differs)
          (sanitize_eq_of_spelling same)⟩
    · cases placed

theorem blames_of_addPath (grown : Extends [] names added) {path : List String} (more : List String)
    (failed : addPath names path = .error failure) : Blames (added ++ (path ++ more)) failure := by
  induction path generalizing names added with
  | nil => cases failed
  | cons name rest tail =>
    rcases bind_eq_error_iff.mp failed with first | ⟨⟨placeholder, middle⟩, first, later⟩
    · exact blames_of_addName grown _ first
    · rcases bind_eq_error_iff.mp later with others | ⟨pair, -, built⟩
      · have longer := tail (grown.trans (addName_spec first).2) others
        rwa [List.append_assoc] at longer
      · cases built

end Placeholder

namespace Update

open Placeholder (Blames Extends Names Nameable)

theorem blames_of_assign {names : Names} {added : List String} {failure : Failure} {index : Nat}
    {leaves : List Leaf} (grown : Extends [] names added)
    (failed : assign names index leaves = .error failure) :
    Blames (added ++ leaves.flatMap Leaf.path) failure := by
  induction leaves generalizing names added index with
  | nil => cases failed
  | cons leaf rest tail =>
    rcases bind_eq_error_iff.mp failed with first | ⟨⟨target, middle⟩, first, later⟩
    · exact Placeholder.blames_of_addPath grown _ first
    · rcases bind_eq_error_iff.mp later with others | ⟨pair, -, built⟩
      · have longer := tail (grown.trans (Placeholder.addPath_spec first).2) others
        rwa [List.append_assoc] at longer
      · cases built

variable {record : Record} {schema : KeySchema} {policy : Policy} {failure : Failure}

/-- A record that cannot be compiled has a fault in the names of its leaves, or a key without a text
that the walk meets. -/
theorem failure_of_compile (failed : compile record schema policy = .error failure) :
    Blames ((record.leaves schema policy).flatMap Leaf.path) failure ∨
      (record.walk schema policy).fault = some failure := by
  rcases bind_eq_error_iff.mp failed with unassigned | ⟨⟨assignments, names⟩, assigned, later⟩
  · exact Or.inl (blames_of_assign (.refl _) unassigned)
  · rcases bind_eq_error_iff.mp later with incomplete | ⟨leaves, -, built⟩
    · unfold Walk.complete at incomplete
      split at incomplete
      · next found =>
        cases incomplete
        exact Or.inr found
      · cases incomplete
    · split at built
      · next nothing =>
        cases built
        have count := length_assign assigned
        rw [List.isEmpty_iff.mp nothing] at count
        have none : record.leaves schema policy = [] := List.length_eq_zero_iff.mp count.symm
        exact Or.inl ⟨_, rfl, .none (by simp [none])⟩
      · cases built

/-- A record is compiled exactly if it has a leaf to write, the names on the paths of its leaves can
stand in one table, and the walk meets no key without a text. Nothing else in the record makes it fail,
and each failure names what is wrong with these. -/
theorem compiles_iff (record : Record) (schema : KeySchema) (policy : Policy) :
    ((∃ update, compile record schema policy = .ok update) ↔
      record.leaves schema policy ≠ [] ∧
        Nameable ((record.leaves schema policy).flatMap Leaf.path) ∧
        ∀ key, record.Meets schema.names [] key → key.toText? ≠ none) ∧
    ∀ failure, compile record schema policy = .error failure →
      failure.kind? = some .misconfigured ∧
          Blames ((record.leaves schema policy).flatMap Leaf.path) failure ∨
        failure = .reading .wrongKind ∧
          ∃ key, record.Meets schema.names [] key ∧ key.toText? = none := by
  have causes (failure : Failure) (failed : compile record schema policy = .error failure) :
      failure.kind? = some .misconfigured ∧
          Blames ((record.leaves schema policy).flatMap Leaf.path) failure ∨
        failure = .reading .wrongKind ∧
          ∃ key, record.Meets schema.names [] key ∧ key.toText? = none := by
    rcases failure_of_compile failed with ⟨fault, rfl, hinders⟩ | found
    · exact Or.inl ⟨rfl, fault, rfl, hinders⟩
    · exact Or.inr (Record.fault_of_walk found)
  refine ⟨⟨?_, ?_⟩, causes⟩
  · rintro ⟨update, compiled⟩
    obtain ⟨complete, written⟩ := compile_spec compiled
    have ended : (record.walk schema policy).fault = none := by
      unfold Walk.complete at complete
      split at complete
      · cases complete
      · assumption
    exact ⟨written.nonempty, written.names_extend.nameable, Record.fault_eq_none_iff.mp ended⟩
  · rintro ⟨some, nameable, texts⟩
    cases compiled : compile record schema policy with
    | ok update => exact ⟨update, rfl⟩
    | error failure =>
      rcases causes failure compiled with ⟨-, fault, -, hinders⟩ | ⟨-, key, meets, textless⟩
      · refine absurd nameable (hinders.not_nameable ?_)
        obtain ⟨leaf, rest, leaves⟩ := List.exists_cons_of_ne_nil some
        have path := Record.path_ne_nil_of_mem_leaves (leaves ▸ List.mem_cons_self)
        simp [leaves, path]
      · exact absurd textless (texts key meets)

/-- A record with a leaf to write, and beside it a map whose only key has no text. -/
def textlessKey : Record :=
  [(.text "v", .int 1), (.text "m", .map [(.bytes (.wrapped false) [107], .null)])]

/-- A key without a text is met although it stands over nothing that is written. -/
theorem textless_key_not_compiled :
    textlessKey.leaves .order (.all [] false) = [⟨["v"], .int 1, false⟩] ∧ Nameable ["v"] ∧
      ∃ failure, compile textlessKey .order (.all [] false) = .error failure ∧
        failure.kind? ≠ some .misconfigured :=
  ⟨rfl, ⟨by simp, by simp⟩, _, rfl, nofun⟩

end Update

end RecordMerge

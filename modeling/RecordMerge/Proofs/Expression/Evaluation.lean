import RecordMerge.Proofs.Expression.Compiled
import RecordMerge.Proofs.Record.Reordering

/-! What an update expression makes of a record. Every assignment is read against the record as it
was before; the outcome is determined up to the order of entries. -/

set_option autoImplicit false

namespace RecordMerge.Expression

open Placeholder (Names)
open Record (Apart)

-- An outcome is described by what stands at its positions, and not by how it is made: the order in
-- which the service applies assignments is not known, and neither is where it adds an attribute.
/-- The record with the leaves assigned. Each of them stands in a map that the record has already;
an insert-only leaf keeps what the record has at its path. -/
structure Assigns (record : Record) (leaves : List Leaf) (result : Record) : Prop where
  tree : result.isTree = true
  parents : ∀ leaf ∈ leaves, ∃ entries, record.at? leaf.path.dropLast = some (.map entries)
  assigned : ∀ leaf ∈ leaves, result.at? leaf.path =
    some (if leaf.insertOnly then (record.at? leaf.path).getD leaf.value else leaf.value)
  kept : ∀ path, (∀ leaf ∈ leaves, Apart leaf.path path) → result.at? path = record.at? path

/-- What an expression makes of a record under the given bindings of its placeholders. -/
def Evaluates (text : String) (names : Names) (values : List (String × Value))
    (record result : Record) : Prop :=
  ∃ assignments leaves, Sentence text assignments ∧
    assignments.mapM (Assignment.resolve names values) = some leaves ∧ Assigns record leaves result

/-- At every position, two outcomes of the same assignments have the same or both a map. -/
theorem Assigns.agree {record first second : Record} {leaves : List Leaf}
    (one : Assigns record leaves first) (two : Assigns record leaves second) (path : List String) :
    Value.Agree (first.at? path) (second.at? path) :=
  Record.agree_of_leaves leaves
    (fun leaf member => ⟨_, one.assigned leaf member, two.assigned leaf member⟩)
    fun apart => (one.kept path apart).trans (two.kept path apart).symm

/-- Assignments have one outcome, up to the order of entries. -/
theorem Assigns.reordered {record first second : Record} {leaves : List Leaf}
    (one : Assigns record leaves first) (two : Assigns record leaves second) :
    Record.Reordered Eq first second :=
  Record.reordered_of_agree one.tree two.tree (one.agree two)

/-- An update makes of a record what assigning the leaves makes of it that it decodes to. -/
theorem Decodes.evaluates_iff {update : Update} {leaves : List Leaf}
    (decodes : Decodes update leaves) {record result : Record} :
    Evaluates update.text update.names update.values record result ↔
      Assigns record leaves result := by
  constructor
  · rintro ⟨assignments, others, sentence, resolved, assigns⟩
    obtain rfl := (decodes.sentence_iff assignments).mp sentence
    rw [decodes.resolved, Option.some.injEq] at resolved
    exact resolved ▸ assigns
  · intro assigns
    exact ⟨_, leaves, (decodes.sentence_iff _).mpr rfl, decodes.resolved, assigns⟩

end RecordMerge.Expression

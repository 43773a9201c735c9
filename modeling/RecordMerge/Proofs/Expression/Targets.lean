import RecordMerge.Proofs.Expression.Compiled
import RecordMerge.Proofs.KeySchema
import RecordMerge.Proofs.Leaf.Order

/-! The positions that an update expression assigns to. The service refuses an expression in which
two of them overlap. -/

set_option autoImplicit false

namespace RecordMerge

open Record (Apart)

theorem Update.Writes.resolves_targets {update : Update} {leaves : List Leaf}
    (written : update.Writes leaves) :
    update.assignments.mapM (fun assignment =>
      assignment.target.mapM (Entries.get? update.names)) = some (leaves.map Leaf.path) := by
  rw [written.assignments_eq]
  exact Update.resolve_targets written.names_extend fun leaf member name within =>
    List.mem_flatMap.mpr ⟨leaf, member, within⟩

namespace Expression

-- The placeholders of two names may look alike in the text, and so may the dotted forms of two paths.
-- What the service takes for overlapping are paths of names, as the table of the update resolves them.
/-- In a record whose keys have different texts, no leaf is at the path of another one or below it. So
the positions that a compiled update assigns to do not overlap; nor is one of them under a key
attribute. -/
theorem targets_apart {record : Record} {schema : KeySchema} {policy : Policy}
    (clear : record.isUnambiguous = true) :
    ((record.leaves schema policy).Pairwise fun first second => Apart first.path second.path) ∧
    ∀ update, Update.compile record schema policy = .ok update →
      ∃ assignments targets, (∀ reading, Sentence update.text reading ↔ reading = assignments) ∧
        assignments.mapM (fun assignment =>
          assignment.target.mapM (Entries.get? update.names)) = some targets ∧
        targets.Pairwise Apart ∧
        ∀ target ∈ targets, ∃ name rest, target = name :: rest ∧ name ∉ schema.names := by
  have apart : (record.leaves schema policy).Pairwise fun first second =>
      Apart first.path second.path := Record.pairwise_apart_leaves clear
  refine ⟨apart, fun update compiled => ?_⟩
  obtain ⟨-, written⟩ := Update.compile_spec compiled
  have decodes := decodes_of_writes written fun leaf => Record.path_ne_nil_of_mem_leaves
  refine ⟨update.assignments, _, decodes.sentence_iff, written.resolves_targets,
    List.pairwise_map.mpr apart, ?_⟩
  exact List.forall_mem_map.mpr fun leaf => Record.path_of_mem_leaves

/-- Two paths with one dotted form, and a key that is no text. -/
def ambiguousPaths : Record :=
  [(.text "id", .int 1), (.text "a", .map [(.text "b", .int 2), (.null, .map [])]),
    (.text "a.b", .text "x"), (.int 7, .null)]

theorem targets_apart_ambiguous :
    ∃ update assignments targets,
      Update.compile ambiguousPaths .order (.all ["a.b"] true) = .ok update ∧
        (∀ reading, Sentence update.text reading ↔ reading = assignments) ∧
        assignments.mapM (fun assignment =>
          assignment.target.mapM (Entries.get? update.names)) = some targets ∧
        targets.Pairwise Apart ∧
        ∀ target ∈ targets, ∃ name rest, target = name :: rest ∧ name ∉ KeySchema.order.names := by
  have compiled : Update.compile ambiguousPaths .order (.all ["a.b"] true) = .ok _ := rfl
  obtain ⟨-, assigned⟩ := targets_apart (show ambiguousPaths.isUnambiguous = true by decide)
  obtain ⟨assignments, targets, whole⟩ := assigned _ compiled
  exact ⟨_, assignments, targets, compiled, whole⟩

end Expression

end RecordMerge

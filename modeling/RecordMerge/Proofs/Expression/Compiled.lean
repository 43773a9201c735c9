import RecordMerge.Proofs.Expression.Grammar
import RecordMerge.Proofs.Leaf.Path
import RecordMerge.Proofs.Update.Assigned

/-! The text of a compiled update: a sentence that makes its assignments and has no tokens but the
placeholders of these. -/

set_option autoImplicit false

namespace RecordMerge.Expression

open Placeholder (ofIndex sanitize spelling)

theorem isWord_sanitize {name : String} (given : name ≠ "") : IsWord (sanitize name).toList := by
  refine ⟨fun empty => given ?_, fun char member => Placeholder.isWordChar_of_mem_sanitize member⟩
  simpa [sanitize] using empty

theorem pathText_dotted {path : List String} (nonempty : path ≠ [])
    (given : ∀ name ∈ path, name ≠ "") :
    PathText (path.map spelling) (dotted (path.map spelling)).toList := by
  induction path with
  | nil => exact absurd rfl nonempty
  | cons name rest tail =>
    obtain ⟨first, others⟩ := List.forall_mem_cons.mp given
    have word := isWord_sanitize first
    have marked : String.ofList ('#' :: (sanitize name).toList) = spelling name := by
      rw [String.ext_iff]
      simp [spelling]
    cases rest with
    | nil => simpa [dotted, marked, spelling] using PathText.single word
    | cons next rest =>
      have longer := PathText.link word (tail (by simp) others)
      rw [marked] at longer
      simpa [dotted, spelling] using longer

theorem valueText_ofIndex (index : Nat) : ValueText (ofIndex index) (ofIndex index).toList := by
  have digits (digit : Char) (member : digit ∈ Number.numeral (index + 1)) :
      digit.isDigit = true :=
    Nat.isDigit_of_mem_toDigits (by decide) (by decide) member
  simpa [ofIndex, Number.numeral] using ValueText.numbered Nat.toDigits_ne_nil digits

theorem clauseText_text {assignment : Assignment}
    (path : PathText assignment.target (dotted assignment.target).toList)
    (value : ValueText assignment.value assignment.value.toList) :
    ClauseText assignment assignment.text.toList := by
  obtain ⟨target, placeholder, keepsStored⟩ := assignment
  cases keepsStored with
  | false => simpa [Assignment.text] using ClauseText.put path value
  | true => simpa [Assignment.text] using ClauseText.keep path value

theorem clausesText_intercalate {assignments : List Assignment} (nonempty : assignments ≠ [])
    (clause : ∀ assignment ∈ assignments, ClauseText assignment assignment.text.toList) :
    ClausesText assignments (", ".intercalate (assignments.map Assignment.text)).toList := by
  induction assignments with
  | nil => exact absurd rfl nonempty
  | cons assignment rest tail =>
    obtain ⟨first, others⟩ := List.forall_mem_cons.mp clause
    cases rest with
    | nil => simpa using ClausesText.last first
    | cons next rest =>
      have longer := ClausesText.more first (tail (by simp) others)
      rw [List.map_cons, String.intercalate_cons_of_ne_nil (by simp), String.toList_append,
        String.toList_append, List.append_assoc]
      exact longer

theorem clauseText_of_mem_assignmentsOf {index : Nat} {leaves : List Leaf}
    (paths : ∀ leaf ∈ leaves, leaf.path ≠ [] ∧ ∀ name ∈ leaf.path, name ≠ "") :
    ∀ assignment ∈ Update.assignmentsOf index leaves,
      ClauseText assignment assignment.text.toList := by
  induction leaves generalizing index with
  | nil => simp [Update.assignmentsOf]
  | cons leaf rest tail =>
    obtain ⟨first, others⟩ := List.forall_mem_cons.mp paths
    exact List.forall_mem_cons.mpr
      ⟨clauseText_text (pathText_dotted first.1 first.2) (valueText_ofIndex index), tail others⟩

theorem sentence_text {update : Update} {leaves : List Leaf} (written : update.Writes leaves)
    (paths : ∀ leaf ∈ leaves, leaf.path ≠ []) : Sentence update.text update.assignments := by
  have given (leaf : Leaf) (member : leaf ∈ leaves) : ∀ name ∈ leaf.path, name ≠ "" :=
    fun name within =>
      written.names_extend.nonempty name (List.mem_flatMap.mpr ⟨leaf, member, within⟩)
  refine ⟨_, String.toList_append, clausesText_intercalate ?_ ?_⟩
  · rw [written.assignments_eq]
    intro none
    obtain ⟨leaf, rest, rfl⟩ := List.exists_cons_of_ne_nil written.nonempty
    cases none
  · rw [written.assignments_eq]
    exact clauseText_of_mem_assignmentsOf fun leaf member => ⟨paths leaf member, given leaf member⟩

theorem mem_keys_iff_mem_targets {update : Update} {leaves : List Leaf}
    (written : update.Writes leaves) (key : String) :
    key ∈ update.names.map Prod.fst ↔
      ∃ assignment ∈ update.assignments, key ∈ assignment.target := by
  rw [written.names_extend.keys, written.assignments_eq, ← List.mem_flatMap,
    Update.flatMap_target_assignmentsOf]
  simp

/-- The text of the update is read in one way only, and says through the tables of the update that
the leaves are written, in their order. Nothing is bound but the tokens of the text. -/
structure Decodes (update : Update) (leaves : List Leaf) : Prop where
  sentence_iff : ∀ reading, Sentence update.text reading ↔ reading = update.assignments
  resolved : update.assignments.mapM (Assignment.resolve update.names update.values) = some leaves
  numbered : update.assignments.map Assignment.value = (List.range leaves.length).map ofIndex
  values_bound : update.values.map Prod.fst = (List.range leaves.length).map ofIndex
  value_tokens : tokens ':' update.text.toList = (List.range leaves.length).map ofIndex
  names_distinct : (update.names.map Prod.fst).Nodup
  name_tokens : ∀ key, key ∈ update.names.map Prod.fst ↔ key ∈ tokens '#' update.text.toList

theorem decodes_of_writes {update : Update} {leaves : List Leaf} (written : update.Writes leaves)
    (paths : ∀ leaf ∈ leaves, leaf.path ≠ []) : Decodes update leaves := by
  have sentence := sentence_text written paths
  have numbered : update.assignments.map Assignment.value =
      (List.range leaves.length).map ofIndex := by
    rw [written.assignments_eq, Update.map_value_assignmentsOf, List.range_eq_range']
  exact {
    sentence_iff := fun reading => ⟨fun read => read.inj sentence, fun same => same ▸ sentence⟩
    resolved := written.resolves
    numbered
    values_bound := by rw [written.values_eq, Update.keys_valuesOf, List.range_eq_range']
    value_tokens := by rw [sentence.tokens_eq.2, numbered]
    names_distinct := written.names_extend.distinct List.nodup_nil
    name_tokens := fun key => by
      rw [mem_keys_iff_mem_targets written, sentence.tokens_eq.1] }

/-- A compiled update decodes to the leaves of the record, whatever its attributes are called. -/
theorem compile_decodes {record : Record} {schema : KeySchema} {policy : Policy} {update : Update}
    (compiled : Update.compile record schema policy = .ok update) :
    ∃ leaves, (record.walk schema policy).complete = .ok leaves ∧ Decodes update leaves := by
  obtain ⟨complete, written⟩ := Update.compile_spec compiled
  exact ⟨_, complete, decodes_of_writes written fun leaf => Record.path_ne_nil_of_mem_leaves⟩

def separatorRecord : Record :=
  [(.text "id", .int 1), (.text "a.b", .map [(.text "c, d", .text "x")]), (.text "x = (y)", .null)]

def separatorUpdate : Update where
  assignments := [⟨["#a_b", "#c__d"], ":value1", false⟩, ⟨["#x____y_"], ":value2", true⟩]
  names := [("#a_b", "a.b"), ("#c__d", "c, d"), ("#x____y_", "x = (y)")]
  values := [(":value1", .text "x"), (":value2", .null)]

theorem compile_decodes_separators :
    Update.compile separatorRecord ⟨"id", none, by decide, by decide, by decide⟩
        (.all ["x = (y)"] true) = .ok separatorUpdate ∧
      Decodes separatorUpdate
        [⟨["a.b", "c, d"], .text "x", false⟩, ⟨["x = (y)"], .null, true⟩] := by
  refine ⟨rfl, ?_⟩
  obtain ⟨leaves, complete, decodes⟩ := compile_decodes (show
    Update.compile separatorRecord ⟨"id", none, by decide, by decide, by decide⟩
      (.all ["x = (y)"] true) = .ok separatorUpdate from rfl)
  cases complete
  exact decodes

end RecordMerge.Expression

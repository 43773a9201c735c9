import RecordMerge.Proofs.Bindings
import RecordMerge.Proofs.Condition
import RecordMerge.Proofs.Expression.Compiled
import RecordMerge.Proofs.KeySchema
import RecordMerge.Reconcile

/-! The placeholders of a whole request. Its three sources share one table of names: none of them
rebinds what another one uses, and nothing stays bound that no expression uses. -/

set_option autoImplicit false

namespace RecordMerge

open Expression (EndsWord Sentence endsWord_cons tokens tokens_append
  tokens_append_of_not_mem tokens_marked tokens_subset_of_suffix)
open Placeholder (Extends Names isWordChar sanitize spelling)

namespace Placeholder

theorem spelling_of_isWord {name : String} (word : Expression.IsWord name.toList) :
    spelling name = "#" ++ name := by
  have kept : sanitize name = name := by
    unfold sanitize
    rw [List.map_congr_left fun char member => if_pos (word.2 char member)]
    simp
  rw [spelling, kept]

end Placeholder

theorem keys_storeValues {values : List (String × Value)} {stored : List (String × Attribute)}
    (done : storeValues values = .ok stored) : stored.map Prod.fst = values.map Prod.fst := by
  induction values generalizing stored with
  | nil =>
    cases done
    rfl
  | cons pair rest tail =>
    obtain ⟨first, -, later⟩ := bind_eq_ok_iff.mp done
    obtain ⟨others, following, built⟩ := bind_eq_ok_iff.mp later
    cases built
    rw [List.map_cons, List.map_cons, tail following]

namespace Table

def keyGuard (name : String) : String :=
  "attribute_exists(" ++ spelling name ++ ")"

theorem guardKeys_spec {names result : Names} {keys conditions : List String}
    (done : guardKeys names keys = .ok (result, conditions)) :
    conditions = keys.map keyGuard ∧ Extends names result keys := by
  induction keys generalizing names conditions with
  | nil =>
    cases done
    exact ⟨rfl, .refl _⟩
  | cons key rest tail =>
    obtain ⟨placeholder, spelt, later⟩ := bind_eq_ok_iff.mp done
    obtain ⟨middle, bound, following⟩ := bind_eq_ok_iff.mp later
    obtain ⟨⟨last, others⟩, guarded, built⟩ := bind_eq_ok_iff.mp following
    cases built
    obtain ⟨given, rfl⟩ := Placeholder.ofName_eq_ok_iff.mp spelt
    obtain ⟨rfl, after⟩ := tail guarded
    have before := Bindings.extends_of_mergedNames (by simpa using given) bound
    exact ⟨rfl, before.trans after⟩

theorem bindCondition_spec {update : Update} {condition : String} {given : Value} {names : Names}
    {values : List (String × Value)} {conditions : List String}
    (done : bindCondition update condition given = .ok (names, values, conditions)) :
    ∃ found, Condition.parse condition given = .ok found ∧
      Extends update.names names (found.names.map Prod.snd) ∧
      (∀ key, key ∈ values.map Prod.fst ↔
        key ∈ update.values.map Prod.fst ∨ key ∈ found.values.map Prod.fst) ∧
      conditions = if condition = "" then [] else ["(" ++ condition ++ ")"] := by
  unfold bindCondition at done
  split at done
  · next empty =>
    subst empty
    cases done
    exact ⟨⟨[], []⟩, rfl, .refl _, by simp, rfl⟩
  · next some =>
    obtain ⟨found, parsed, later⟩ := bind_eq_ok_iff.mp done
    obtain ⟨merged, named, following⟩ := bind_eq_ok_iff.mp later
    obtain ⟨bound, valued, built⟩ := bind_eq_ok_iff.mp following
    cases built
    refine ⟨found, parsed, Bindings.extends_of_mergedNames (fun pair member => ?_) named,
      Bindings.mem_keys_merged_iff valued, by rw [if_neg some]⟩
    obtain ⟨marked, word, -⟩ := (Condition.parse_spec parsed).names pair member
    refine ⟨by rw [marked, Placeholder.spelling_of_isWord word], ?_⟩
    rintro empty
    exact word.1 (by simp [empty])

end Table

theorem Expression.tokens_subset_intercalate {mark : Char} {parts : List String} {part : String}
    (member : part ∈ parts) :
    tokens mark part.toList ⊆ tokens mark (" AND ".intercalate parts).toList := by
  induction parts with
  | nil => cases member
  | cons first rest tail =>
    cases rest with
    | nil =>
      obtain rfl := List.mem_singleton.mp member
      simp
    | cons next others =>
      have ends : EndsWord (" AND ".toList ++ (" AND ".intercalate (next :: others)).toList) :=
        endsWord_cons (by decide) _
      rw [String.intercalate_cons_of_ne_nil (by simp), String.toList_append, String.toList_append,
        List.append_assoc, tokens_append _ ends]
      rcases List.mem_cons.mp member with rfl | later
      · exact List.subset_append_left _ _
      · intro token found
        exact List.mem_append_right _
          (tokens_subset_of_suffix (List.suffix_append _ _) (tail later found))

namespace Table

/-- The request for an update of the leaves under a condition. All placeholders of the update, of
the condition and of the key guards resolve through its one table, and every binding is used. -/
structure Bound (schema : KeySchema) (leaves : List Leaf) (condition : String)
    (found : Condition.Placeholders) (request : UpdateRequest) : Prop where
  targets : ∃ assignments, (∀ reading, Sentence request.text reading ↔ reading = assignments) ∧
    assignments.mapM (fun assignment => assignment.target.mapM (Entries.get? request.names)) =
      some (leaves.map Leaf.path)
  segments : ∀ pair ∈ found.names,
    pair.1 = "#" ++ pair.2 ∧ Entries.get? request.names pair.1 = some pair.2
  condition_eq : request.condition =
    (if condition = "" then "" else "(" ++ condition ++ ") AND ") ++
      " AND ".intercalate (schema.names.map keyGuard)
  guards : ∀ name ∈ schema.names, Entries.get? request.names (spelling name) = some name
  names_used : ∀ key ∈ request.names.map Prod.fst,
    key ∈ tokens '#' request.text.toList ∨ key ∈ tokens '#' request.condition.toList
  values_used : ∀ key ∈ request.values.map Prod.fst,
    key ∈ tokens ':' request.text.toList ∨ key ∈ tokens ':' request.condition.toList

theorem endsWord_parenthesis : EndsWord ")".toList := rfl

theorem tokens_spelling (name : String) : tokens '#' (spelling name).toList = [spelling name] := by
  have spelt : (spelling name).toList = '#' :: (sanitize name).toList := by
    simp [spelling]
  have word (char : Char) (member : char ∈ (sanitize name).toList) : isWordChar char = true :=
    Placeholder.isWordChar_of_mem_sanitize member
  rw [spelt, tokens_marked (by decide) word, ← spelt, String.ofList_toList]

theorem spelling_mem_tokens_keyGuard (name : String) :
    spelling name ∈ tokens '#' (keyGuard name).toList := by
  have opened : '#' ∉ "attribute_exists(".toList := by decide
  have whole : (keyGuard name).toList =
      "attribute_exists(".toList ++ (spelling name).toList ++ ")".toList :=
    String.toList_append.trans (congrArg (fun text => text ++ ")".toList) String.toList_append)
  rw [whole, tokens_append _ endsWord_parenthesis, tokens_append_of_not_mem opened,
    tokens_spelling]
  exact List.mem_append_left _ List.mem_cons_self

theorem mem_tokens_enclosed {mark : Char} {condition token : String}
    (member : token ∈ tokens mark condition.toList) :
    token ∈ tokens mark ("(" ++ condition ++ ")").toList := by
  rw [String.toList_append, String.toList_append, tokens_append _ endsWord_parenthesis]
  exact List.mem_append_left _ (tokens_subset_of_suffix (List.suffix_append _ _) member)

def guardedCondition (schema : KeySchema) (condition : String) : String :=
  " AND ".intercalate
    ((if condition = "" then [] else ["(" ++ condition ++ ")"]) ++ schema.names.map keyGuard)

theorem guardedCondition_eq (schema : KeySchema) (condition : String) :
    guardedCondition schema condition =
      (if condition = "" then "" else "(" ++ condition ++ ") AND ") ++
        " AND ".intercalate (schema.names.map keyGuard) := by
  unfold guardedCondition
  split
  · simp
  · have some : schema.names.map keyGuard ≠ [] := by
      unfold KeySchema.names
      split <;> simp
    rw [List.singleton_append, String.intercalate_cons_of_ne_nil some]
    simp [String.append_assoc]

theorem mem_tokens_guardedCondition {mark : Char} {schema : KeySchema} {condition token : String}
    (member : token ∈ tokens mark condition.toList) :
    token ∈ tokens mark (guardedCondition schema condition).toList := by
  refine Expression.tokens_subset_intercalate ?_ (mem_tokens_enclosed member)
  have given : condition ≠ "" := by
    rintro rfl
    cases member
  simp [given]

theorem spelling_mem_tokens_guardedCondition {schema : KeySchema} {condition name : String}
    (key : name ∈ schema.names) :
    spelling name ∈ tokens '#' (guardedCondition schema condition).toList :=
  Expression.tokens_subset_intercalate
    (List.mem_append_right _ (List.mem_map.mpr ⟨name, key, rfl⟩))
    (spelling_mem_tokens_keyGuard name)

-- The table of a request grows from the names of the leaves over those of the condition to the key
-- guards. Each step keeps what was bound, so every source is resolved by the last table, and every
-- binding of the last table has a source in whose text its placeholder is a token.
theorem bound_of_extends {update : Update} {leaves : List Leaf} {schema : KeySchema}
    {condition : String} {found : Condition.Placeholders} {request : UpdateRequest}
    (written : update.Writes leaves) (paths : ∀ leaf ∈ leaves, leaf.path ≠ [])
    (within : found.Within condition.toList)
    (grown : Extends [] request.names
      (leaves.flatMap Leaf.path ++ found.names.map Prod.snd ++ schema.names))
    (keys : ∀ key ∈ request.values.map Prod.fst,
      key ∈ update.values.map Prod.fst ∨ key ∈ found.values.map Prod.fst)
    (text : request.text = update.text)
    (guarded : request.condition = guardedCondition schema condition) :
    Bound schema leaves condition found request := by
  have decodes := Expression.decodes_of_writes written paths
  have spelt (pair : String × String) (member : pair ∈ found.names) :
      spelling pair.2 = pair.1 := by
    obtain ⟨marked, word, -⟩ := within.names pair member
    rw [marked, Placeholder.spelling_of_isWord word]
  constructor
  case targets =>
    refine ⟨update.assignments, text ▸ decodes.sentence_iff, ?_⟩
    rw [written.assignments_eq]
    refine Update.resolve_targets grown fun leaf member name step => ?_
    simp only [List.mem_append, List.mem_flatMap]
    exact Or.inl (Or.inl ⟨leaf, member, step⟩)
  case segments =>
    intro pair member
    have bound := grown.bound pair.2 (by
      simp only [List.mem_append, List.mem_map]
      exact Or.inl (Or.inr ⟨pair, member, rfl⟩))
    rw [spelt pair member] at bound
    exact ⟨(within.names pair member).1, bound⟩
  case condition_eq => rw [guarded, guardedCondition_eq]
  case guards => exact fun name key => grown.bound name (List.mem_append_right _ key)
  case names_used =>
    intro key member
    have sources := (grown.keys key).mp member
    simp only [List.map_nil, List.not_mem_nil, false_or, List.map_append,
      List.mem_append] at sources
    rw [text, guarded]
    rcases sources with (fromLeaves | fromCondition) | fromGuards
    · left
      rw [← decodes.name_tokens, written.names_extend.keys]
      exact Or.inr fromLeaves
    · obtain ⟨name, inFound, rfl⟩ := List.mem_map.mp fromCondition
      obtain ⟨pair, also, rfl⟩ := List.mem_map.mp inFound
      right
      rw [spelt pair also]
      exact mem_tokens_guardedCondition (within.names pair also).2.2
    · obtain ⟨name, isKey, rfl⟩ := List.mem_map.mp fromGuards
      exact Or.inr (spelling_mem_tokens_guardedCondition isKey)
  case values_used =>
    intro key member
    rw [text, guarded]
    rcases keys key member with fromLeaves | fromCondition
    · left
      rw [decodes.value_tokens, ← decodes.values_bound]
      exact fromLeaves
    · exact Or.inr (mem_tokens_guardedCondition (within.values key fromCondition))

/-- A request for an update has a table of placeholders that serves all its expressions. -/
theorem updateRequest_bound {table : Table} {record : Record} {policy : Policy} {condition : String}
    {given : Value} {request : UpdateRequest}
    (built : table.updateRequest record policy condition given = .ok request) :
    ∃ leaves found, (record.walk table.schema policy).complete = .ok leaves ∧
      Condition.parse condition given = .ok found ∧
      Bound table.schema leaves condition found request := by
  obtain ⟨update, compiled, later⟩ := bind_eq_ok_iff.mp built
  obtain ⟨⟨names, values, conditions⟩, bound, later⟩ := bind_eq_ok_iff.mp later
  obtain ⟨⟨guarded, guards⟩, keyed, later⟩ := bind_eq_ok_iff.mp later
  obtain ⟨identity, -, later⟩ := bind_eq_ok_iff.mp later
  obtain ⟨key, -, later⟩ := bind_eq_ok_iff.mp later
  obtain ⟨stored, storing, whole⟩ := bind_eq_ok_iff.mp later
  cases whole
  obtain ⟨complete, written⟩ := Update.compile_spec compiled
  obtain ⟨found, parsed, conditioned, bindings, rfl⟩ := bindCondition_spec bound
  obtain ⟨rfl, last⟩ := guardKeys_spec keyed
  have grown := (written.names_extend.trans conditioned).trans last
  have sources (key : String) (member : key ∈ stored.map Prod.fst) :
      key ∈ update.values.map Prod.fst ∨ key ∈ found.values.map Prod.fst := by
    rw [keys_storeValues storing] at member
    exact (bindings key).mp member
  exact ⟨_, found, complete, parsed, bound_of_extends written
    (fun leaf => Record.path_ne_nil_of_mem_leaves) (Condition.parse_spec parsed) grown sources
    rfl rfl⟩

def orders : Table where
  name := "orders"
  schema := .order
  classify _ _ := .unclassified

/-- A request whose table has names from a leaf, from a condition and from a key guard. -/
def orderRequest : UpdateRequest where
  table := "orders"
  key := [("id", .text "k")]
  text := "SET #x_y = :value1"
  condition := "(#state = :old) AND attribute_exists(#id)"
  names := [("#x_y", "x y"), ("#state", "state"), ("#id", "id")]
  values := [(":value1", .bool true), (":old", .text "open")]

theorem updateRequest_bound_order :
    orders.updateRequest [(.text "id", .text "k"), (.text "x y", .bool true)] (.all [] false)
        "#state = :old" (.map [(.text ":old", .text "open")]) = .ok orderRequest ∧
      Bound orders.schema [⟨["x y"], .bool true, false⟩] "#state = :old"
        ⟨[("#state", "state")], [(":old", .text "open")]⟩ orderRequest := by
  have built : orders.updateRequest [(.text "id", .text "k"), (.text "x y", .bool true)]
      (.all [] false) "#state = :old" (.map [(.text ":old", .text "open")]) =
        .ok orderRequest := rfl
  obtain ⟨leaves, found, complete, parsed, bound⟩ := updateRequest_bound built
  cases complete
  cases parsed
  exact ⟨built, bound⟩

end Table

end RecordMerge

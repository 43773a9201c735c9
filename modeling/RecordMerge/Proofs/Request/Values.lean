import RecordMerge.Proofs.Condition.Given
import RecordMerge.Proofs.Request.Placeholders

/-! The values of a whole request. A condition may bind the placeholder of a leaf as well, but only to
a value that equals that of the leaf. What is sent is then the value that was given with the
condition, which need not be stored alike. -/

set_option autoImplicit false

namespace RecordMerge

open Placeholder (ofIndex)

namespace Bindings

section Merged

variable {Item : Type} {kind : String} {compare? : Item → Item → Option Bool}

/-- The extra bindings win over those of the target. -/
theorem get?_merged {target extra result : List (String × Item)}
    (distinct : (extra.map Prod.fst).Nodup) (done : merged kind compare? target extra = .ok result)
    (key : String) :
    Entries.get? result key = (Entries.get? extra key).or (Entries.get? target key) := by
  induction extra generalizing target with
  | nil =>
    cases done
    rfl
  | cons pair rest tail =>
    obtain ⟨name, item⟩ := pair
    obtain ⟨fresh, others⟩ := List.nodup_cons.mp distinct
    rw [tail others (merged_cons done).2]
    by_cases same : name = key
    · subst same
      have absent : Entries.get? rest name = none := by
        rw [← Option.not_isSome_iff_eq_none, Entries.get?_isSome_iff]
        exact fresh
      simp [absent, Entries.get?_put_self, Entries.get?]
    · simp [Entries.get?_put_of_ne target item same, Entries.get?, same]

theorem compare?_of_merged {target extra result : List (String × Item)}
    (distinct : (extra.map Prod.fst).Nodup) (done : merged kind compare? target extra = .ok result)
    {key : String} {held item : Item} (before : Entries.get? target key = some held)
    (also : Entries.get? extra key = some item) : compare? held item = some true := by
  induction extra generalizing target with
  | nil => cases also
  | cons pair rest tail =>
    obtain ⟨name, first⟩ := pair
    obtain ⟨fresh, others⟩ := List.nodup_cons.mp distinct
    obtain ⟨equal, later⟩ := merged_cons done
    by_cases same : name = key
    · subst same
      simp only [Entries.get?, beq_self_eq_true, if_true, Option.some.injEq] at also
      exact also ▸ equal held before
    · simp only [Entries.get?, beq_iff_eq, same, if_false] at also
      rw [← Entries.get?_put_of_ne target first same] at before
      exact tail others later before also

/-- A merge that fails has found a placeholder in both tables. -/
theorem failure_of_merged {target extra : List (String × Item)} {failure : Failure}
    (distinct : (extra.map Prod.fst).Nodup)
    (failed : merged kind compare? target extra = .error failure) :
    ∃ key held item, Entries.get? target key = some held ∧ Entries.get? extra key = some item ∧
      (compare? held item = some false ∧ failure = .expression (.collision kind key) ∨
        compare? held item = none ∧ failure = .incomparable) := by
  induction extra generalizing target with
  | nil => cases failed
  | cons pair rest tail =>
    obtain ⟨name, item⟩ := pair
    obtain ⟨fresh, others⟩ := List.nodup_cons.mp distinct
    have goOn (later : merged kind compare? (Entries.put target name item) rest = .error failure) :
        ∃ key held other, Entries.get? target key = some held ∧
          Entries.get? ((name, item) :: rest) key = some other ∧
          (compare? held other = some false ∧ failure = .expression (.collision kind key) ∨
            compare? held other = none ∧ failure = .incomparable) := by
      obtain ⟨key, held, other, before, also, cause⟩ := tail others later
      have differs : name ≠ key := by
        rintro rfl
        exact fresh ((Entries.get?_isSome_iff rest name).mp (by simp [also]))
      rw [Entries.get?_put_of_ne target item differs] at before
      exact ⟨key, held, other, before, by simp [Entries.get?, differs, also], cause⟩
    have here : Entries.get? ((name, item) :: rest) name = some item := by
      simp [Entries.get?]
    cases found : Entries.get? target name with
    | none =>
      simp only [merged, merge, found] at failed goOn
      exact goOn failed
    | some held =>
      cases compared : compare? held item with
      | none =>
        simp only [merged, merge, found, compared] at failed
        cases failed
        exact ⟨name, held, item, found, here, Or.inr ⟨compared, rfl⟩⟩
      | some equal =>
        cases equal with
        | false =>
          simp only [merged, merge, found, compared] at failed
          cases failed
          exact ⟨name, held, item, found, here, Or.inl ⟨compared, rfl⟩⟩
        | true =>
          simp only [merged, merge, found, compared] at failed goOn
          exact goOn failed

end Merged

end Bindings

theorem get?_storeValues {values : List (String × Value)} {stored : List (String × Attribute)}
    (done : storeValues values = .ok stored) {key : String} {value : Value}
    (found : Entries.get? values key = some value) :
    ∃ sent, value.store = .ok sent ∧ Entries.get? stored key = some sent := by
  induction values generalizing stored with
  | nil => cases found
  | cons pair rest tail =>
    obtain ⟨name, held⟩ := pair
    obtain ⟨first, storing, later⟩ := bind_eq_ok_iff.mp done
    obtain ⟨others, following, built⟩ := bind_eq_ok_iff.mp later
    cases built
    by_cases same : name = key
    · subst same
      simp only [Entries.get?, beq_self_eq_true, if_true, Option.some.injEq] at found
      subst found
      exact ⟨first, storing, by simp [Entries.get?]⟩
    · simp only [Entries.get?, beq_iff_eq, same, if_false] at found
      obtain ⟨sent, sending, kept⟩ := tail following found
      exact ⟨sent, sending, by simp [Entries.get?, same, kept]⟩

theorem Update.get?_valuesOf (start : Nat) {index : Nat} {leaves : List Leaf} {leaf : Leaf}
    (placed : leaves[index]? = some leaf) :
    Entries.get? (valuesOf start leaves) (ofIndex (start + index)) = some leaf.value := by
  apply Entries.get?_of_mem (nodup_keys_valuesOf start leaves)
  induction leaves generalizing start index with
  | nil => cases placed
  | cons first rest tail =>
    cases index with
    | zero =>
      cases placed
      exact List.mem_cons_self
    | succ index =>
      have later : start + (index + 1) = start + 1 + index := by omega
      rw [later]
      exact List.mem_cons_of_mem _ (tail _ placed)

theorem Update.leaf_of_get?_valuesOf {start : Nat} {leaves : List Leaf} {key : String}
    {value : Value} (found : Entries.get? (valuesOf start leaves) key = some value) :
    ∃ index leaf, leaves[index]? = some leaf ∧ key = ofIndex (start + index) ∧
      value = leaf.value := by
  induction leaves generalizing start with
  | nil => cases found
  | cons first rest tail =>
    by_cases same : ofIndex start = key
    · simp only [valuesOf, Entries.get?, beq_iff_eq, same, if_true, Option.some.injEq] at found
      exact ⟨0, first, rfl, same.symm, found.symm⟩
    · simp only [valuesOf, Entries.get?, beq_iff_eq, same, if_false] at found
      obtain ⟨index, leaf, placed, rfl, rfl⟩ := tail found
      have later : start + 1 + index = start + (index + 1) := by omega
      exact ⟨index + 1, leaf, placed, by rw [later], rfl⟩

namespace Table

/-- The value that a request has for a leaf: what the condition binds the placeholder of the leaf to,
if it does so, and otherwise the value of the leaf. -/
def valueFor (found : Condition.Placeholders) (index : Nat) (leaf : Leaf) : Value :=
  (Entries.get? found.values (ofIndex index)).getD leaf.value

variable {table : Table} {record : Record} {policy : Policy} {condition : String} {given : Value}
  {update : Update} {found : Condition.Placeholders}

theorem merged_of_bindCondition {names : Placeholder.Names} {values : List (String × Value)}
    {conditions : List String}
    (done : bindCondition update condition given = .ok (names, values, conditions)) :
    ∃ found, Condition.parse condition given = .ok found ∧
      Bindings.mergedValues update.values found.values = .ok values := by
  unfold bindCondition at done
  split at done
  · next empty =>
    subst empty
    cases done
    exact ⟨⟨[], []⟩, rfl, rfl⟩
  · obtain ⟨found, parsed, later⟩ := bind_eq_ok_iff.mp done
    obtain ⟨merged, -, following⟩ := bind_eq_ok_iff.mp later
    obtain ⟨bound, valued, built⟩ := bind_eq_ok_iff.mp following
    cases built
    exact ⟨found, parsed, valued⟩

/-- The values of a request are those of the update and those of the condition, stored. -/
theorem values_of_updateRequest {request : UpdateRequest}
    (built : table.updateRequest record policy condition given = .ok request) :
    ∃ found values, Condition.parse condition given = .ok found ∧
      Bindings.mergedValues (Update.valuesOf 0 (record.leaves table.schema policy))
        found.values = .ok values ∧ storeValues values = .ok request.values := by
  obtain ⟨update, compiled, later⟩ := bind_eq_ok_iff.mp built
  obtain ⟨⟨names, values, conditions⟩, bound, later⟩ := bind_eq_ok_iff.mp later
  obtain ⟨⟨guarded, guards⟩, -, later⟩ := bind_eq_ok_iff.mp later
  obtain ⟨identity, -, later⟩ := bind_eq_ok_iff.mp later
  obtain ⟨key, -, later⟩ := bind_eq_ok_iff.mp later
  obtain ⟨stored, storing, whole⟩ := bind_eq_ok_iff.mp later
  cases whole
  obtain ⟨found, parsed, merged⟩ := merged_of_bindCondition bound
  rw [(Update.compile_spec compiled).2.values_eq] at merged
  exact ⟨found, values, parsed, merged, storing⟩

/-- Each leaf has one value in a request. -/
theorem sent_of_updateRequest {request : UpdateRequest}
    (parsed : Condition.parse condition given = .ok found)
    (built : table.updateRequest record policy condition given = .ok request)
    {index : Nat} {leaf : Leaf} (placed : (record.leaves table.schema policy)[index]? = some leaf) :
    ∃ sent, (valueFor found index leaf).store = .ok sent ∧
      Entries.get? request.values (ofIndex index) = some sent := by
  obtain ⟨other, values, also, merged, storing⟩ := values_of_updateRequest built
  obtain rfl := Except.ok.inj (parsed.symm.trans also)
  apply get?_storeValues storing
  rw [Bindings.get?_merged (Condition.given_of_parse parsed).values_nodup merged, valueFor]
  have held := Update.get?_valuesOf 0 placed
  rw [Nat.zero_add] at held
  rw [held]
  cases Entries.get? found.values (ofIndex index) <;> rfl

/-- Names never fail to be compared, so that only an unequal value stands in the way of a condition
whose values can all be compared. -/
theorem collision_of_unequal (parsed : Condition.parse condition given = .ok found)
    (comparable : ∀ key held value, Entries.get? update.values key = some held →
      Entries.get? found.values key = some value → (held.compare? value).isSome = true)
    {key : String} {held value : Value} (before : Entries.get? update.values key = some held)
    (also : Entries.get? found.values key = some value) (unequal : held.compare? value = some false) :
    ∃ kind placeholder,
      bindCondition update condition given = .error (.expression (.collision kind placeholder)) := by
  have bindings := Condition.given_of_parse parsed
  have nonempty : condition ≠ "" := by
    rintro rfl
    cases parsed
    cases also
  unfold bindCondition
  rw [if_neg nonempty, parsed]
  simp only [Bind.bind, Except.bind]
  cases named : Bindings.mergedNames update.names found.names with
  | error failure =>
    obtain ⟨placeholder, _, _, -, -, cause⟩ :=
      Bindings.failure_of_merged bindings.names_nodup named
    rcases cause with ⟨-, rfl⟩ | ⟨none, -⟩
    · exact ⟨"name", placeholder, rfl⟩
    · cases none
  | ok names =>
    cases valued : Bindings.mergedValues update.values found.values with
    | ok values =>
      have equal := Bindings.compare?_of_merged bindings.values_nodup valued before also
      rw [unequal] at equal
      cases equal
    | error failure =>
      obtain ⟨placeholder, known, other, inUpdate, inFound, cause⟩ :=
        Bindings.failure_of_merged bindings.values_nodup valued
      rcases cause with ⟨-, rfl⟩ | ⟨none, -⟩
      · exact ⟨"value", placeholder, rfl⟩
      · have some := comparable placeholder known other inUpdate inFound
        simp [none] at some

/-- Every leaf is sent with its own value, unless the condition binds its placeholder; then the bound
value is sent, and equals that of the leaf. A bound value that does not equal it is refused. -/
theorem updateRequest_values (compiled : Update.compile record table.schema policy = .ok update)
    (parsed : Condition.parse condition given = .ok found) :
    (∀ request, table.updateRequest record policy condition given = .ok request →
      ∀ index leaf, (record.leaves table.schema policy)[index]? = some leaf →
        (∃ sent, (valueFor found index leaf).store = .ok sent ∧
          Entries.get? request.values (ofIndex index) = some sent) ∧
        ∀ value, Entries.get? found.values (ofIndex index) = some value →
          leaf.value.compare? value = some true) ∧
    ((∀ index leaf value, (record.leaves table.schema policy)[index]? = some leaf →
        Entries.get? found.values (ofIndex index) = some value →
        (leaf.value.compare? value).isSome = true) →
      ∀ index leaf value, (record.leaves table.schema policy)[index]? = some leaf →
        Entries.get? found.values (ofIndex index) = some value →
        leaf.value.compare? value = some false →
        ∃ kind placeholder, table.updateRequest record policy condition given =
          .error (.expression (.collision kind placeholder))) := by
  obtain ⟨-, written⟩ := Update.compile_spec compiled
  have bindings := Condition.given_of_parse parsed
  have held {index : Nat} {leaf : Leaf}
      (placed : (record.leaves table.schema policy)[index]? = some leaf) :
      Entries.get? update.values (ofIndex index) = some leaf.value := by
    rw [written.values_eq, ← Nat.zero_add index]
    exact Update.get?_valuesOf 0 placed
  constructor
  · intro request built index leaf placed
    refine ⟨sent_of_updateRequest parsed built placed, fun value rebound => ?_⟩
    obtain ⟨other, values, also, merged, -⟩ := values_of_updateRequest built
    obtain rfl := Except.ok.inj (parsed.symm.trans also)
    rw [← written.values_eq] at merged
    exact Bindings.compare?_of_merged bindings.values_nodup merged (held placed) rebound
  · intro comparable index leaf value placed rebound unequal
    have compared (key : String) (known value : Value)
        (before : Entries.get? update.values key = some known)
        (also : Entries.get? found.values key = some value) :
        (known.compare? value).isSome = true := by
      rw [written.values_eq] at before
      obtain ⟨place, other, here, rfl, rfl⟩ := Update.leaf_of_get?_valuesOf before
      rw [Nat.zero_add] at also
      exact comparable place other value here also
    obtain ⟨kind, placeholder, failed⟩ :=
      collision_of_unequal parsed compared (held placed) rebound unequal
    refine ⟨kind, placeholder, ?_⟩
    unfold updateRequest requestOf
    rw [compiled]
    simp only [Bind.bind, Except.bind, failed]

/-- A record with one leaf, and a condition that binds the placeholder of the leaf. -/
def countedOrder : Record :=
  [(.text "id", .text "k"), (.text "count", .int 1)]

def countsAs (value : Value) : Except Failure UpdateRequest :=
  orders.updateRequest countedOrder (.all [] false) "#count = :value1"
    (.map [(.text ":value1", value)])

theorem updateRequest_values_counted :
    (∃ request, countsAs (.decimal (.finite false 1 0)) = .ok request ∧
      ∃ sent, (Value.decimal (.finite false 1 0)).store = .ok sent ∧
        Entries.get? request.values ":value1" = some sent) ∧
    ∃ kind placeholder,
      countsAs (.int 2) = .error (.expression (.collision kind placeholder)) := by
  have compiled : Update.compile countedOrder orders.schema (.all [] false) = .ok
      ⟨[⟨["#count"], ":value1", false⟩], [("#count", "count")], [(":value1", .int 1)]⟩ := rfl
  have parsed (value : Value) :
      Condition.parse "#count = :value1" (.map [(.text ":value1", value)]) =
        .ok ⟨[("#count", "count")], [(":value1", value)]⟩ := rfl
  constructor
  · obtain ⟨sent, -⟩ := (updateRequest_values compiled (parsed (.decimal (.finite false 1 0)))).1
      _ rfl 0 _ rfl
    exact ⟨_, rfl, sent⟩
  · refine (updateRequest_values compiled (parsed (.int 2))).2 ?_ 0 _ _ rfl rfl rfl
    intro index leaf value placed rebound
    cases index with
    | zero =>
      cases placed
      cases rebound
      rfl
    | succ index => cases placed

/-- A truth value equals a number, and takes its place in the request. -/
theorem rebound_value_differs :
    ∃ request, countsAs (.bool true) = .ok request ∧
      countedOrder.leaves orders.schema (.all [] false) = [⟨["count"], .int 1, false⟩] ∧
      (Value.int 1).store = .ok (.number (.ofInt 1)) ∧
      Entries.get? request.values ":value1" = some (.bool true) :=
  ⟨_, rfl, rfl, rfl, rfl⟩

end Table

end RecordMerge

import RecordMerge.Failure.Kind
import RecordMerge.Proofs.Bindings
import RecordMerge.Proofs.Value.Equivalence

/-! Tables merged into one, one after another. All items that they supply for a key have to be equal.
The merged table binds the key to one of them, and the order of the tables makes no difference. -/

set_option autoImplicit false

namespace RecordMerge.Bindings

variable {Key Item : Type} {compare? : Item → Item → Option Bool}

/-- Among the items that are held any two can be compared, and to be equal is an equivalence. -/
structure Comparable (compare? : Item → Item → Option Bool) (held : Item → Prop) : Prop where
  decided : ∀ ⦃first second⦄, held first → held second → compare? first second ≠ none
  fair : EquivalenceOn held fun first second => compare? first second = some true

theorem Comparable.eq_some_false {held : Item → Prop} (comparable : Comparable compare? held)
    {first second : Item} (here : held first) (there : held second)
    (differ : compare? first second ≠ some true) : compare? first second = some false := by
  obtain ⟨equal, compared⟩ := Option.ne_none_iff_exists'.mp (comparable.decided here there)
  cases equal with
  | false => exact compared
  | true => exact absurd compared differ

/-- Any two items that are supplied for one key are equal. -/
def Agree (compare? : Item → Item → Option Bool) (supplied : List (Key × Item)) : Prop :=
  ∀ ⦃key first second⦄, (key, first) ∈ supplied → (key, second) ∈ supplied →
    compare? first second = some true

theorem Agree.of_subset {supplied further : List (Key × Item)} (agree : Agree compare? supplied)
    (within : further ⊆ supplied) : Agree compare? further :=
  fun _ _ _ here there => agree (within here) (within there)

variable [BEq Key]

/-- Merge tables one after another, up to the first obstacle. -/
def mergeAll (compare? : Item → Item → Option Bool) (target : List (Key × Item)) :
    List (List (Key × Item)) → List (Key × Item) × Option (Obstacle Key)
  | [] => (target, none)
  | extra :: rest =>
    match merge compare? target extra with
    | (table, none) => mergeAll compare? table rest
    | stopped => stopped

theorem merge_append (target first second : List (Key × Item)) :
    merge compare? target (first ++ second) =
      match merge compare? target first with
      | (table, none) => merge compare? table second
      | stopped => stopped := by
  fun_induction merge compare? target first <;> simp_all [merge]

theorem mergeAll_eq (target : List (Key × Item)) (extras : List (List (Key × Item))) :
    mergeAll compare? target extras = merge compare? target extras.flatten := by
  induction extras generalizing target with
  | nil => rfl
  | cons extra rest tail => simp only [mergeAll, List.flatten_cons, merge_append, tail]

/-- The table binds the keys that are supplied, each to an item that is supplied for it and that all
items supplied for it equal. -/
structure Unites (compare? : Item → Item → Option Bool) (table supplied : List (Key × Item)) :
    Prop where
  distinct : (table.map Prod.fst).Nodup
  source : ∀ ⦃key item⦄, Entries.get? table key = some item → (key, item) ∈ supplied
  bound : ∀ ⦃key item⦄, (key, item) ∈ supplied →
    ∃ kept, Entries.get? table key = some kept ∧ compare? kept item = some true

theorem Unites.agree {held : Item → Prop} {table supplied : List (Key × Item)}
    (comparable : Comparable compare? held) (unites : Unites compare? table supplied)
    (all : ∀ pair ∈ supplied, held pair.2) : Agree compare? supplied := by
  intro key first second here there
  obtain ⟨kept, found, left⟩ := unites.bound here
  obtain ⟨also, again, right⟩ := unites.bound there
  cases found.symm.trans again
  have source := all _ (unites.source found)
  exact comparable.fair.trans (all _ here) source (all _ there)
    (comparable.fair.symm source (all _ here) left) right

theorem Unites.mem_supplied [LawfulBEq Key] {table supplied : List (Key × Item)}
    (unites : Unites compare? table supplied) {pair : Key × Item} (member : pair ∈ table) :
    pair ∈ supplied :=
  unites.source (Entries.get?_of_mem unites.distinct member)

/-- What one table binds another one binds alike, if what the other one unites is supplied for the
first one and leaves out no key. -/
theorem Unites.equal {table supplied other further : List (Key × Item)}
    (unites : Unites compare? table supplied) (also : Unites compare? other further)
    (within : further ⊆ supplied)
    (keys : ∀ key, key ∈ supplied.map Prod.fst → key ∈ further.map Prod.fst) {key : Key} {item : Item}
    (found : Entries.get? table key = some item) :
    ∃ kept, Entries.get? other key = some kept ∧ compare? item kept = some true := by
  obtain ⟨⟨name, value⟩, member, rfl⟩ :=
    List.mem_map.mp (keys key (List.mem_map_of_mem (unites.source found)))
  obtain ⟨kept, there, -⟩ := also.bound member
  obtain ⟨bound, again, equal⟩ := unites.bound (within (also.source there))
  cases found.symm.trans again
  exact ⟨kept, there, equal⟩

/-- The item can be bound to the key: the key is not bound yet, or to an equal item. -/
def Fits (compare? : Item → Item → Option Bool) (table : List (Key × Item)) (key : Key)
    (item : Item) : Prop :=
  ∀ kept, Entries.get? table key = some kept → compare? kept item = some true

theorem merge_cons_of_fits {table rest : List (Key × Item)} {key : Key} {item : Item}
    (fits : Fits compare? table key item) :
    merge compare? table ((key, item) :: rest) =
      merge compare? (Entries.put table key item) rest := by
  rw [merge]
  split
  · next kept found => rw [fits kept found]
  · rfl

theorem merge_cons_of_unequal {table rest : List (Key × Item)} {key : Key} {item kept : Item}
    (found : Entries.get? table key = some kept) (unequal : compare? kept item = some false) :
    merge compare? table ((key, item) :: rest) = (table, some (.unequal key)) := by
  simp [merge, found, unequal]

variable [LawfulBEq Key] {held : Item → Prop}

namespace Unites

variable {table supplied : List (Key × Item)}

theorem self (comparable : Comparable compare? held) (distinct : (table.map Prod.fst).Nodup)
    (all : ∀ pair ∈ table, held pair.2) : Unites compare? table table where
  distinct := distinct
  source _ _ found := Entries.mem_of_get? found
  bound _ item member :=
    ⟨item, Entries.get?_of_mem distinct member, comparable.fair.refl (all _ member)⟩

/-- One more binding that fits is added to what is supplied. -/
theorem put (comparable : Comparable compare? held) (unites : Unites compare? table supplied)
    {key : Key} {item : Item} (all : ∀ pair ∈ supplied ++ [(key, item)], held pair.2)
    (fits : Fits compare? table key item) :
    Unites compare? (Entries.put table key item) (supplied ++ [(key, item)]) where
  distinct := Entries.nodup_put unites.distinct
  source name value found := by
    by_cases same : key = name
    · subst same
      rw [Entries.get?_put_self, Option.some.injEq] at found
      simp [found]
    · rw [Entries.get?_put_of_ne table item same] at found
      exact List.mem_append_left _ (unites.source found)
  bound name value member := by
    have here : held item := all (key, item) (by simp)
    by_cases same : key = name
    · subst same
      refine ⟨item, Entries.get?_put_self table key item, ?_⟩
      rcases List.mem_append.mp member with earlier | last
      · obtain ⟨kept, found, equal⟩ := unites.bound earlier
        have before : held kept := all _ (List.mem_append_left _ (unites.source found))
        have back := comparable.fair.symm before here (fits kept found)
        exact comparable.fair.trans here before (all _ member) back equal
      · cases List.mem_singleton.mp last
        exact comparable.fair.refl here
    · rw [Entries.get?_put_of_ne table item same]
      rcases List.mem_append.mp member with earlier | last
      · exact unites.bound earlier
      · cases List.mem_singleton.mp last
        exact absurd rfl same

theorem mem_keys_iff (unites : Unites compare? table supplied) (key : Key) :
    key ∈ table.map Prod.fst ↔ key ∈ supplied.map Prod.fst := by
  rw [← Entries.get?_isSome_iff, Option.isSome_iff_exists]
  constructor
  · rintro ⟨item, found⟩
    exact List.mem_map_of_mem (unites.source found)
  · intro member
    obtain ⟨⟨name, item⟩, here, rfl⟩ := List.mem_map.mp member
    obtain ⟨kept, found, -⟩ := unites.bound here
    exact ⟨kept, found⟩

end Unites

-- The induction is on the bindings that are left to be added, for any table that unites what has been
-- supplied so far.
/-- Merging adds bindings as long as they fit. It stops at one that is unequal to what is bound, and
what was added by then remains. -/
theorem unites_merge (comparable : Comparable compare? held)
    {table supplied extra : List (Key × Item)} (unites : Unites compare? table supplied)
    (all : ∀ pair ∈ supplied ++ extra, held pair.2) :
    ∃ taken, taken <+: extra ∧ Unites compare? (merge compare? table extra).1 (supplied ++ taken) ∧
      ((merge compare? table extra).2 = none ∧ taken = extra ∨
        ∃ key item kept, (merge compare? table extra).2 = some (.unequal key) ∧
          (key, item) ∈ extra ∧ (key, kept) ∈ supplied ++ extra ∧ compare? kept item = some false) := by
  induction extra generalizing table supplied with
  | nil => exact ⟨[], List.nil_prefix, by simpa [merge] using unites, .inl ⟨rfl, rfl⟩⟩
  | cons pair rest tail =>
    obtain ⟨key, item⟩ := pair
    rw [← List.singleton_append, ← List.append_assoc] at all
    have known : ∀ pair ∈ supplied ++ [(key, item)], held pair.2 :=
      fun pair member => all pair (List.mem_append_left _ member)
    by_cases fits : Fits compare? table key item
    · have added := unites.put comparable known fits
      obtain ⟨taken, part, result, ending⟩ := tail added all
      rw [merge_cons_of_fits fits]
      refine ⟨(key, item) :: taken, by simpa using part, by simpa using result, ?_⟩
      rcases ending with ⟨done, whole⟩ | ⟨name, value, kept, stopped, within, source, differ⟩
      · exact .inl ⟨done, by rw [whole]⟩
      · exact .inr ⟨name, value, kept, stopped, List.mem_cons_of_mem _ within,
          by simpa using source, differ⟩
    · rw [Fits] at fits
      push Not at fits
      obtain ⟨kept, found, differ⟩ := fits
      have source := unites.source found
      have unequal := comparable.eq_some_false (known (key, kept) (by simp [source]))
        (known (key, item) (by simp)) differ
      rw [merge_cons_of_unequal found unequal]
      exact ⟨[], List.nil_prefix, by simpa using unites, .inr ⟨key, item, kept, rfl,
        List.mem_cons_self, List.mem_append_left _ source, unequal⟩⟩

section Merge

variable {target extra : List (Key × Item)} (comparable : Comparable compare? held)
  (distinct : (target.map Prod.fst).Nodup) (all : ∀ pair ∈ target ++ extra, held pair.2)

include comparable distinct all

theorem unites_target : Unites compare? target target :=
  .self comparable distinct fun pair member => all pair (List.mem_append_left _ member)

/-- Merging keeps what is bound, up to equality, also where it stops. -/
theorem kept_of_merge {key : Key} {item : Item} (found : Entries.get? target key = some item) :
    ∃ kept, Entries.get? (merge compare? target extra).1 key = some kept ∧
      compare? kept item = some true := by
  obtain ⟨taken, -, result, -⟩ :=
    unites_merge comparable (unites_target comparable distinct all) all
  exact result.bound (List.mem_append_left _ (Entries.mem_of_get? found))

theorem unites_of_merge (done : (merge compare? target extra).2 = none) :
    Unites compare? (merge compare? target extra).1 (target ++ extra) := by
  obtain ⟨taken, -, result, ⟨-, rfl⟩ | ⟨key, item, kept, stopped, -⟩⟩ :=
    unites_merge comparable (unites_target comparable distinct all) all
  · exact result
  · cases done.symm.trans stopped

theorem unequal_of_merge {obstacle : Obstacle Key}
    (stopped : (merge compare? target extra).2 = some obstacle) :
    ∃ key first second, obstacle = .unequal key ∧ (key, first) ∈ target ++ extra ∧
      (key, second) ∈ extra ∧ compare? first second = some false := by
  obtain ⟨taken, -, -, ⟨done, -⟩ | ⟨key, item, kept, found, within, source, differ⟩⟩ :=
    unites_merge comparable (unites_target comparable distinct all) all
  · cases done.symm.trans stopped
  · cases found.symm.trans stopped
    exact ⟨key, kept, item, rfl, source, within, differ⟩

/-- Merging succeeds exactly if all that is supplied for a key is equal. -/
theorem merge_succeeds_iff :
    (merge compare? target extra).2 = none ↔ Agree compare? (target ++ extra) := by
  cases ending : (merge compare? target extra).2 with
  | none =>
    have unites := unites_of_merge comparable distinct all ending
    exact iff_of_true rfl (unites.agree comparable all)
  | some obstacle =>
    refine iff_of_false nofun fun agree => ?_
    obtain ⟨key, first, second, -, here, there, differ⟩ :=
      unequal_of_merge comparable distinct all ending
    cases differ.symm.trans (agree here (List.mem_append_right _ there))

theorem held_of_merge {key : Key} {item : Item}
    (found : Entries.get? (merge compare? target extra).1 key = some item) : held item := by
  obtain ⟨taken, part, result, -⟩ :=
    unites_merge comparable (unites_target comparable distinct all) all
  rcases List.mem_append.mp (result.source found) with earlier | later
  · exact all _ (List.mem_append_left _ earlier)
  · exact all _ (List.mem_append_right _ (part.subset later))

end Merge

/-- What is bound at any time while tables are merged stays bound, up to equality. -/
theorem kept_of_mergeAll (comparable : Comparable compare? held) {target : List (Key × Item)}
    {before extras : List (List (Key × Item))} (distinct : (target.map Prod.fst).Nodup)
    (all : ∀ pair ∈ target ++ extras.flatten, held pair.2) (part : before <+: extras) {key : Key}
    {item : Item} (found : Entries.get? (mergeAll compare? target before).1 key = some item) :
    ∃ kept, Entries.get? (mergeAll compare? target extras).1 key = some kept ∧
      compare? kept item = some true := by
  obtain ⟨after, rfl⟩ := part
  rw [List.flatten_append, ← List.append_assoc] at all
  have earlier : ∀ pair ∈ target ++ before.flatten, held pair.2 :=
    fun pair member => all pair (List.mem_append_left _ member)
  rw [mergeAll_eq] at found
  rw [mergeAll_eq, List.flatten_append, merge_append]
  cases result : merge compare? target before.flatten with
  | mk table ending =>
    cases ending with
    | none =>
      have unites := unites_of_merge comparable distinct earlier (by rw [result])
      rw [result] at found unites
      refine kept_of_merge comparable unites.distinct (fun pair member => all pair ?_) found
      exact (List.mem_append.mp member).elim
        (fun here => List.mem_append_left _ (unites.mem_supplied here))
        (List.mem_append_right _)
    | some obstacle =>
      have here := held_of_merge comparable distinct earlier found
      rw [result] at found
      exact ⟨item, found, comparable.fair.refl here⟩

theorem comparable_definite : Comparable Value.compare? fun value => value.definite = true where
  decided first second here there := by simp [Value.compare?_of_definite here there]
  fair :=
    { refl := fun value here => Value.equal_iff.mp (Value.equivalenceOn_definite.refl here)
      symm := fun first second here there same =>
        Value.equal_iff.mp (Value.equivalenceOn_definite.symm here there (Value.equal_iff.mpr same))
      trans := fun first second third here there yonder same next =>
        Value.equal_iff.mp (Value.equivalenceOn_definite.trans here there yonder
          (Value.equal_iff.mpr same) (Value.equal_iff.mpr next)) }

/-- Two tables that unite the same supplies are equal as maps. -/
theorem equal_of_unites {table supplied other further : List (String × Value)}
    (unites : Unites Value.compare? table supplied) (also : Unites Value.compare? other further)
    (within : further ⊆ supplied)
    (keys : ∀ key, key ∈ supplied.map Prod.fst → key ∈ further.map Prod.fst) :
    Value.Equal (.ofNames table) (.ofNames other) := by
  have names (key : String) : key ∈ table.map Prod.fst ↔ key ∈ other.map Prod.fst := by
    rw [unites.mem_keys_iff, also.mem_keys_iff]
    exact ⟨keys key, fun member => List.map_subset _ within member⟩
  refine Value.equal_ofNames unites.distinct also.distinct names fun key value found => ?_
  obtain ⟨kept, there, same⟩ := unites.equal also within keys found
  exact ⟨kept, there, Value.equal_iff.mpr same⟩

/-- What comes of merging tables of values into a target, one after another: whether it succeeds, what
is bound then, that neither the order of the tables nor merging them again matters, what a failure
names, and that nothing is ever bound to an unequal value. -/
structure Exact (target : List (String × Value)) (extras : List (List (String × Value))) : Prop where
  succeeds_iff : (mergeAll Value.compare? target extras).2 = none ↔
    Agree Value.compare? (target ++ extras.flatten)
  union : ∀ table, mergeAll Value.compare? target extras = (table, none) →
    (∀ key, key ∈ table.map Prod.fst ↔ key ∈ (target ++ extras.flatten).map Prod.fst) ∧
    ∀ key value, (key, value) ∈ target ++ extras.flatten →
      ∃ kept, Entries.get? table key = some kept ∧ Value.Equal kept value
  order : ∀ others, others.Perm extras →
    ((mergeAll Value.compare? target others).2 = none ↔
      (mergeAll Value.compare? target extras).2 = none) ∧
    ∀ table other, mergeAll Value.compare? target extras = (table, none) →
      mergeAll Value.compare? target others = (other, none) →
      Value.Equal (.ofNames table) (.ofNames other)
  again : ∀ table, mergeAll Value.compare? target extras = (table, none) →
    ∃ result, mergeAll Value.compare? table extras = (result, none) ∧
      Value.Equal (.ofNames table) (.ofNames result)
  collision : ∀ table obstacle, mergeAll Value.compare? target extras = (table, some obstacle) →
    ∃ key first second, (key, first) ∈ target ++ extras.flatten ∧
      (key, second) ∈ target ++ extras.flatten ∧ Value.compare? first second = some false ∧
      ∀ kind names, (obstacle.failure kind some).kind? = some .misconfigured ∧
        (obstacle.failure kind some).message names =
          "expression attribute " ++ kind ++ " collision: " ++ key
  kept : ∀ before, before <+: extras → ∀ key value,
    Entries.get? (mergeAll Value.compare? target before).1 key = some value →
    ∃ kept, Entries.get? (mergeAll Value.compare? target extras).1 key = some kept ∧
      Value.Equal kept value

section Values

variable {target table : List (String × Value)} {extras : List (List (String × Value))}
  (distinct : (target.map Prod.fst).Nodup)
  (definite : ∀ pair ∈ target ++ extras.flatten, pair.2.definite = true)

include distinct definite

theorem mergeAll_succeeds_iff : (mergeAll Value.compare? target extras).2 = none ↔
    Agree Value.compare? (target ++ extras.flatten) := by
  rw [mergeAll_eq]
  exact merge_succeeds_iff comparable_definite distinct definite

theorem unites_of_mergeAll (done : mergeAll Value.compare? target extras = (table, none)) :
    Unites Value.compare? table (target ++ extras.flatten) := by
  rw [mergeAll_eq] at done
  have unites := unites_of_merge comparable_definite distinct definite (by rw [done])
  rwa [done] at unites

theorem mergeAll_perm {others : List (List (String × Value))} (perm : others.Perm extras) :
    ((mergeAll Value.compare? target others).2 = none ↔
      (mergeAll Value.compare? target extras).2 = none) ∧
    ∀ table other, mergeAll Value.compare? target extras = (table, none) →
      mergeAll Value.compare? target others = (other, none) →
      Value.Equal (.ofNames table) (.ofNames other) := by
  have supplies : (target ++ others.flatten).Perm (target ++ extras.flatten) :=
    perm.flatten.append_left target
  have also : ∀ pair ∈ target ++ others.flatten, pair.2.definite = true :=
    fun pair member => definite pair (supplies.subset member)
  refine ⟨?_, fun table other done alike => ?_⟩
  · rw [mergeAll_succeeds_iff distinct also, mergeAll_succeeds_iff distinct definite]
    exact ⟨fun agree => agree.of_subset supplies.symm.subset,
      fun agree => agree.of_subset supplies.subset⟩
  · exact equal_of_unites (unites_of_mergeAll distinct definite done)
      (unites_of_mergeAll distinct also alike) supplies.subset
      fun key member => List.map_subset _ supplies.symm.subset member

theorem mergeAll_again (done : mergeAll Value.compare? target extras = (table, none)) :
    ∃ result, mergeAll Value.compare? table extras = (result, none) ∧
      Value.Equal (.ofNames table) (.ofNames result) := by
  have unites := unites_of_mergeAll distinct definite done
  have within : table ++ extras.flatten ⊆ target ++ extras.flatten := by
    intro pair member
    rcases List.mem_append.mp member with here | supplied
    · exact unites.mem_supplied here
    · exact List.mem_append_right _ supplied
  have also : ∀ pair ∈ table ++ extras.flatten, pair.2.definite = true :=
    fun pair member => definite pair (within member)
  have agree := (mergeAll_succeeds_iff distinct definite).mp (by rw [done])
  have ending := (mergeAll_succeeds_iff unites.distinct also).mpr (agree.of_subset within)
  have repeated : mergeAll Value.compare? table extras =
      ((mergeAll Value.compare? table extras).1, none) := Prod.ext rfl ending
  refine ⟨_, repeated, ?_⟩
  apply equal_of_unites unites (unites_of_mergeAll unites.distinct also repeated) within
  intro key member
  rw [List.map_append, List.mem_append]
  exact .inl ((unites.mem_keys_iff key).mpr member)

/-- Tables of values without not-a-numbers merge exactly if all values that they and the target have for
a placeholder are equal, in whichever order they are merged. -/
theorem mergeAll_exact : Exact target extras where
  succeeds_iff := mergeAll_succeeds_iff distinct definite
  union table done := by
    have unites := unites_of_mergeAll distinct definite done
    refine ⟨unites.mem_keys_iff, fun key value member => ?_⟩
    obtain ⟨kept, found, equal⟩ := unites.bound member
    exact ⟨kept, found, Value.equal_iff.mpr equal⟩
  order others perm := mergeAll_perm distinct definite perm
  again table done := mergeAll_again distinct definite done
  collision table obstacle stopped := by
    rw [mergeAll_eq] at stopped
    obtain ⟨key, first, second, rfl, here, there, differ⟩ :=
      unequal_of_merge comparable_definite distinct definite (by rw [stopped])
    exact ⟨key, first, second, here, List.mem_append_right _ there, differ,
      fun kind names => ⟨rfl, rfl⟩⟩
  kept before part key value found := by
    obtain ⟨kept, there, equal⟩ :=
      kept_of_mergeAll comparable_definite distinct definite part found
    exact ⟨kept, there, Value.equal_iff.mpr equal⟩

end Values

/-- One written as a whole number, as a truth value and with a decimal, by itself and within sets. -/
def ones : List (List (String × Value)) :=
  [[(":v", .bool true), (":s", .set false [.int 1, .text "x"])],
    [(":s", .set true [.text "x", .decimal (.finite false 10 (-1))]), (":v", .int 1)]]

theorem mergeAll_exact_ones :
    (mergeAll Value.compare? [] ones).2 = none ∧ (mergeAll Value.compare? [] ones.reverse).2 = none ∧
      Agree Value.compare? ones.flatten ∧
      ∃ kept, Entries.get? (mergeAll Value.compare? [(":v", .int 2)] ones).1 ":v" = some kept ∧
        Value.Equal kept (.int 2) := by
  have exact : Exact [] ones := mergeAll_exact (by decide) (by decide +kernel)
  have unequal : Exact [(":v", .int 2)] ones := mergeAll_exact (by decide) (by decide +kernel)
  have done : (mergeAll Value.compare? [] ones).2 = none := by rfl
  refine ⟨done, ?_, exact.succeeds_iff.mp done, ?_⟩
  · exact (exact.order ones.reverse (List.reverse_perm ones)).1.mpr done
  · exact unequal.kept [] List.nil_prefix ":v" (.int 2) rfl

end RecordMerge.Bindings

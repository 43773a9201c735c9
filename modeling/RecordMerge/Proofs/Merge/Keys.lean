import RecordMerge.Proofs.Record.Identity
import RecordMerge.Proofs.Record.Position

/-! The keys of merged records: attribute names stay attribute names, and the key attributes are
those of the incoming record. -/

set_option autoImplicit false

namespace RecordMerge

theorem KeySchema.Lists.get?_eq_none {record identity : Record} {names : List String}
    {name : String} (listed : KeySchema.Lists record names identity) (other : name ∉ names) :
    identity.get? name = none := by
  cases found : identity.get? name with
  | none => rfl
  | some value =>
    obtain ⟨key, member, text, -⟩ := listed.of_mem (Record.mem_of_get? found)
    cases text
    exact absurd member other

namespace Record

theorem named_write {value : Value} {keep : Bool} {path : List String} {record : Record}
    (names : record.named = true) : (write value keep path record).named = true := by
  fun_cases write value keep path record with
  | case1 => exact names
  | case2 => exact names
  | case3 => exact named_set names
  | case4 => exact named_set names

theorem named_foldl_writeLeaf {leaves : List Leaf} {record : Record} (names : record.named = true) :
    (leaves.foldl writeLeaf record).named = true := by
  induction leaves generalizing record with
  | nil => exact names
  | cons leaf rest tail => exact tail (named_write names)

theorem setAll_cons (record rest : Record) (name : String) (value : Value) :
    record.setAll ((.text name, value) :: rest) = (record.set name value).setAll rest := rfl

theorem named_setAll {record identity : Record} (names : record.named = true) :
    (record.setAll identity).named = true := by
  induction identity generalizing record with
  | nil => exact names
  | cons entry rest tail => exact tail (named_set names)

theorem get?_setAll {record identity : Record} (distinct : identity.named = true) (name : String) :
    (record.setAll identity).get? name = (identity.get? name).or (record.get? name) := by
  fun_induction named identity generalizing record with
  | case1 => rfl
  | case2 key value rest tail =>
    obtain ⟨fresh, others⟩ := (named_cons_iff value).mp distinct
    rw [setAll_cons, tail others, get?_set, get?]
    by_cases same : key = name
    · subst same
      have absent : get? key rest = none := by simpa [contains] using fresh
      simp [absent]
    · simp [same]
  | case3 => cases distinct

theorem isTree_setAll {record identity : Record} (tree : record.isTree = true)
    (given : ∀ entry ∈ identity, entry.2.isTree = true) :
    (record.setAll identity).isTree = true := by
  induction identity generalizing record with
  | nil => exact tree
  | cons entry rest tail =>
    obtain ⟨first, others⟩ := List.forall_mem_cons.mp given
    exact tail (isTree_set tree first) others

theorem at?_setAll {record identity : Record} (distinct : identity.named = true) {name : String}
    (other : identity.get? name = none) (rest : List String) :
    (record.setAll identity).at? (name :: rest) = record.at? (name :: rest) := by
  simp only [at?, Value.at?_map_cons, get?_setAll distinct, other, Option.none_or]

/-- Giving a record attributes that it has keeps the order of its keys. -/
theorem keys_setAll {record identity : Record}
    (known : ∀ entry ∈ identity, record.contains entry.1.toText = true) :
    (record.setAll identity).map Prod.fst = record.map Prod.fst := by
  induction identity generalizing record with
  | nil => rfl
  | cons entry rest tail =>
    obtain ⟨first, others⟩ := List.forall_mem_cons.mp known
    have kept : ∀ other ∈ rest,
        (record.set entry.1.toText entry.2).contains other.1.toText = true := by
      intro other member
      rw [contains_set, others other member, Bool.or_true]
    exact (tail kept).trans (keys_set first)

theorem get?_merge {current incoming merged : Record} {schema : KeySchema} {policy : Policy}
    (done : merge current incoming schema policy = .ok merged) {name : String}
    (key : name ∈ schema.names) : merged.get? name = incoming.get? name := by
  obtain ⟨leaves, -, later⟩ := bind_eq_ok_iff.mp done
  obtain ⟨identity, keyed, built⟩ := bind_eq_ok_iff.mp later
  cases built
  have listed := KeySchema.identities_eq_ok_iff.mp keyed
  obtain ⟨value, found⟩ := listed.exists_identityOf key
  rw [get?_setAll (listed.named schema.nodup_names), listed.get?_eq key,
    KeySchema.get?_of_identityOf found]
  rfl

theorem named_merge {current incoming merged : Record} {schema : KeySchema} {policy : Policy}
    (names : current.named = true) (done : merge current incoming schema policy = .ok merged) :
    merged.named = true := by
  obtain ⟨leaves, -, later⟩ := bind_eq_ok_iff.mp done
  obtain ⟨identity, -, built⟩ := bind_eq_ok_iff.mp later
  cases built
  exact named_setAll (named_foldl_writeLeaf (named_copiedEntries names))

end Record

end RecordMerge

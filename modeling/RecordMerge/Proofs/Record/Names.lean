import Mathlib.Data.List.Nodup
import RecordMerge.Merge

/-! Records whose keys are attribute names: texts, no two of them equal. -/

set_option autoImplicit false

namespace RecordMerge.Record

/-- Whether every key is a text and no two are equal. -/
def named : Record → Bool
  | [] => true
  | (.text name, _) :: rest => !contains name rest && named rest
  | _ :: _ => false

theorem named_cons_iff {name : String} (value : Value) {rest : Record} :
    named ((.text name, value) :: rest) = true ↔
      rest.contains name = false ∧ rest.named = true := by
  rw [named, Bool.and_eq_true, Bool.not_eq_true']

theorem contains_iff {name : String} {record : Record} :
    record.contains name = true ↔ ∃ value, record.get? name = some value := by
  rw [contains, Option.isSome_iff_exists]

theorem ne_of_get? {record : Record} {absent name : String} {value : Value}
    (fresh : record.contains absent = false) (found : record.get? name = some value) :
    absent ≠ name := by
  rintro rfl
  simp [contains, found] at fresh

theorem mem_of_get? {name : String} {record : Record} {value : Value}
    (found : record.get? name = some value) : (.text name, value) ∈ record := by
  fun_induction get? name record with
  | case1 => cases found
  | case2 held rest => simp_all
  | case3 key held rest differs tail => exact List.mem_cons_of_mem _ (tail found)
  | case4 entry rest other tail => exact List.mem_cons_of_mem _ (tail found)

theorem get?_set {name other : String} (value : Value) (record : Record) :
    get? other (set name value record) =
      if name = other then some value else get? other record := by
  by_cases same : name = other
  · subst same
    simp [get?_set_self]
  · simp [get?_set_of_ne value record same, same]

theorem set_of_get? {name : String} {value : Value} {record : Record}
    (found : record.get? name = some value) : record.set name value = record := by
  fun_induction set name value record with
  | case1 => cases found
  | case2 held rest =>
    rw [get?, if_pos rfl, Option.some.injEq] at found
    rw [found]
  | case3 key held rest differs tail =>
    rw [get?, if_neg differs] at found
    rw [tail found]
  | case4 entry rest other tail =>
    rw [get?] at found
    · rw [tail found]
    · exact other

theorem contains_set {name other : String} (value : Value) (record : Record) :
    contains other (set name value record) = (decide (name = other) || contains other record) := by
  by_cases same : name = other <;> simp [contains, get?_set, same]

theorem keys_set {name : String} {value : Value} {record : Record}
    (known : record.contains name = true) :
    (record.set name value).map Prod.fst = record.map Prod.fst := by
  fun_induction set name value record with
  | case1 => cases known
  | case2 => rfl
  | case3 key held rest differs tail =>
    have later : contains name rest = true := by simpa [contains, get?, differs] using known
    rw [List.map_cons, List.map_cons, tail later]
  | case4 entry rest other tail =>
    have later : contains name rest = true := by
      rw [contains, get?] at known
      · exact known
      · exact other
    rw [List.map_cons, List.map_cons, tail later]

theorem named_set {name : String} {value : Value} {record : Record} (names : record.named = true) :
    (record.set name value).named = true := by
  fun_induction set name value record with
  | case1 => rfl
  | case2 held rest => simpa [named] using names
  | case3 key held rest differs tail =>
    obtain ⟨fresh, others⟩ := (named_cons_iff held).mp names
    refine (named_cons_iff _).mpr ⟨?_, tail others⟩
    rw [contains_set, fresh]
    simp [Ne.symm differs]
  | case4 entry rest other tail =>
    obtain ⟨key, held⟩ := entry
    cases key with
    | text key => exact absurd rfl (other key held)
    | _ => cases names

theorem get?_of_mem {record : Record} (names : record.named = true) {entry : Value × Value}
    (member : entry ∈ record) :
    ∃ name, entry.1 = .text name ∧ record.get? name = some entry.2 := by
  fun_induction named record with
  | case1 => cases member
  | case2 key held rest tail =>
    obtain ⟨fresh, others⟩ := (named_cons_iff held).mp names
    rcases List.mem_cons.mp member with same | later
    · subst same
      exact ⟨key, rfl, by simp [get?]⟩
    · obtain ⟨name, text, found⟩ := tail others later
      exact ⟨name, text, by simp [get?, ne_of_get? fresh found, found]⟩
  | case3 => cases names

theorem get?_of_toText? {record : Record} (names : record.named = true) {entry : Value × Value}
    (member : entry ∈ record) {name : String} (text : entry.1.toText? = some name) :
    record.get? name = some entry.2 := by
  obtain ⟨key, isText, found⟩ := get?_of_mem names member
  rw [isText, Value.toText?_text, Option.some.injEq] at text
  exact text ▸ found

theorem nodup_of_named {record : Record} (names : record.named = true) :
    (record.map Prod.fst).Nodup := by
  fun_induction named record with
  | case1 => exact List.nodup_nil
  | case2 key held rest tail =>
    obtain ⟨fresh, others⟩ := (named_cons_iff held).mp names
    rw [List.map_cons, List.nodup_cons]
    refine ⟨fun member => ?_, tail others⟩
    obtain ⟨entry, later, same⟩ := List.mem_map.mp member
    obtain ⟨name, text, found⟩ := get?_of_mem others later
    rw [text] at same
    exact ne_of_get? fresh found (Value.text.inj same).symm
  | case3 => cases names

theorem mem_keys_iff {record : Record} (names : record.named = true) {key : Value} :
    key ∈ record.map Prod.fst ↔ ∃ name value, key = .text name ∧ record.get? name = some value := by
  constructor
  · intro member
    obtain ⟨entry, later, rfl⟩ := List.mem_map.mp member
    obtain ⟨name, text, found⟩ := get?_of_mem names later
    exact ⟨name, entry.2, text, found⟩
  · rintro ⟨name, value, rfl, found⟩
    exact List.mem_map.mpr ⟨_, mem_of_get? found, rfl⟩

/-- Whether a record is named is a matter of its keys alone. -/
theorem named_iff {record : Record} :
    record.named = true ↔ (record.map Prod.fst).Nodup ∧
      ∀ key ∈ record.map Prod.fst, ∃ name, key = .text name := by
  constructor
  · intro names
    refine ⟨nodup_of_named names, fun key member => ?_⟩
    obtain ⟨name, value, text, -⟩ := (mem_keys_iff names).mp member
    exact ⟨name, text⟩
  · rintro ⟨distinct, texts⟩
    induction record with
    | nil => rfl
    | cons entry rest tail =>
      obtain ⟨key, value⟩ := entry
      obtain ⟨⟨name, rfl⟩, others⟩ := List.forall_mem_cons.mp texts
      obtain ⟨fresh, apart⟩ := List.nodup_cons.mp distinct
      refine (named_cons_iff _).mpr ⟨?_, tail apart others⟩
      rw [← Bool.not_eq_true]
      intro held
      obtain ⟨also, found⟩ := contains_iff.mp held
      exact fresh (List.mem_map.mpr ⟨_, mem_of_get? found, rfl⟩)

/-- Named records with the same keys in the same order are equal if they have the same values. -/
theorem ext_of_named {left right : Record} (names : left.named = true)
    (keys : left.map Prod.fst = right.map Prod.fst)
    (same : ∀ name, left.get? name = right.get? name) : left = right := by
  fun_induction named left generalizing right with
  | case1 => exact (List.map_eq_nil_iff.mp keys.symm).symm
  | case2 key value rest tail =>
    obtain ⟨fresh, apart⟩ := (named_cons_iff value).mp names
    have rightNames : right.named = true := by
      rw [named_iff, ← keys]
      exact named_iff.mp names
    cases right with
    | nil => cases keys
    | cons entry others =>
      obtain ⟨other, held⟩ := entry
      obtain ⟨rfl, later⟩ := List.cons.inj keys
      obtain ⟨otherFresh, -⟩ := (named_cons_iff held).mp rightNames
      have first : value = held := by simpa [get?] using same key
      have below (name : String) : get? name rest = get? name others := by
        by_cases equal : key = name
        · subst equal
          simp only [contains, Option.isSome_eq_false_iff, Option.isNone_iff_eq_none]
            at fresh otherFresh
          rw [fresh, otherFresh]
        · simpa [get?, equal] using same name
      rw [first, tail apart later below]
  | case3 => cases names

theorem keys_copiedEntries {record : Record} (names : record.named = true) :
    (Value.copiedEntries record).map Prod.fst = record.map Prod.fst := by
  fun_induction named record with
  | case1 => rfl
  | case2 key value rest tail =>
    obtain ⟨-, others⟩ := (named_cons_iff value).mp names
    simp [Value.copiedEntries, Value.copied, tail others]
  | case3 => cases names

theorem get?_copiedEntries (name : String) (record : Record) :
    get? name (Value.copiedEntries record) = (record.get? name).map Value.copied := by
  induction record with
  | nil => rfl
  | cons entry rest tail =>
    obtain ⟨key, held⟩ := entry
    cases key with
    | text key =>
      by_cases same : key = name <;> simp [Value.copiedEntries, Value.copied, get?, same, tail]
    | _ => simpa [Value.copiedEntries, Value.copied, get?] using tail

theorem named_copiedEntries {record : Record} (names : record.named = true) :
    named (Value.copiedEntries record) = true := by
  fun_induction named record with
  | case1 => rfl
  | case2 key held rest tail =>
    obtain ⟨fresh, others⟩ := (named_cons_iff held).mp names
    refine (named_cons_iff _).mpr ⟨?_, tail others⟩
    simpa [contains, get?_copiedEntries] using fresh
  | case3 => cases names

end RecordMerge.Record

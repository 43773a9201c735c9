import Mathlib.Data.List.Nodup
import RecordMerge.Entries

/-! Look-up and membership in insertion-ordered maps. -/

set_option autoImplicit false

namespace RecordMerge.Entries

variable {Key Item : Type} [BEq Key] [LawfulBEq Key]

theorem mem_of_get? {entries : List (Key × Item)} {key : Key} {item : Item}
    (found : get? entries key = some item) : (key, item) ∈ entries := by
  induction entries with
  | nil => cases found
  | cons pair rest tail =>
    obtain ⟨name, held⟩ := pair
    by_cases same : name = key
    · subst same
      simp only [get?, beq_self_eq_true, if_true, Option.some.injEq] at found
      simp [found]
    · simp only [get?, beq_iff_eq, same, if_false] at found
      exact List.mem_cons_of_mem _ (tail found)

theorem get?_isSome_iff (entries : List (Key × Item)) (key : Key) :
    (get? entries key).isSome = true ↔ key ∈ entries.map Prod.fst := by
  induction entries with
  | nil => simp
  | cons pair rest tail =>
    obtain ⟨name, held⟩ := pair
    by_cases same : name = key
    · simp [get?, same]
    · simp [get?, same, Ne.symm same, tail]

/-- In a map that has each key once, every pair is found under its key. -/
theorem get?_of_mem {entries : List (Key × Item)} {key : Key} {item : Item}
    (distinct : (entries.map Prod.fst).Nodup) (member : (key, item) ∈ entries) :
    get? entries key = some item := by
  induction entries with
  | nil => cases member
  | cons pair rest tail =>
    obtain ⟨name, held⟩ := pair
    rw [List.map_cons, List.nodup_cons] at distinct
    rcases List.mem_cons.mp member with same | later
    · cases same
      simp [get?]
    · have differs : name ≠ key := by
        rintro rfl
        exact distinct.1 (List.mem_map.mpr ⟨_, later, rfl⟩)
      simp [get?, differs, tail distinct.2 later]

theorem mem_put {entries : List (Key × Item)} {key : Key} {item : Item} {pair : Key × Item}
    (member : pair ∈ put entries key item) : pair ∈ entries ∨ pair = (key, item) := by
  induction entries with
  | nil => exact Or.inr (List.mem_singleton.mp member)
  | cons first rest tail =>
    obtain ⟨name, held⟩ := first
    by_cases same : name = key
    · subst same
      simp only [put, beq_self_eq_true, if_true, List.mem_cons] at member
      rcases member with same | later
      · exact Or.inr same
      · exact Or.inl (List.mem_cons_of_mem _ later)
    · simp only [put, beq_iff_eq, same, if_false, List.mem_cons] at member
      rcases member with same | later
      · exact Or.inl (List.mem_cons.mpr (Or.inl same))
      · exact (tail later).imp_left (List.mem_cons_of_mem _)

theorem mem_keys_put_iff {entries : List (Key × Item)} {key other : Key} {item : Item} :
    other ∈ (put entries key item).map Prod.fst ↔ other ∈ entries.map Prod.fst ∨ other = key := by
  rw [← get?_isSome_iff, ← get?_isSome_iff]
  by_cases same : key = other
  · subst same
    simp [get?_put_self]
  · simp [get?_put_of_ne entries item same, Ne.symm same]

theorem put_of_absent {entries : List (Key × Item)} {key : Key} (item : Item)
    (absent : key ∉ entries.map Prod.fst) : put entries key item = entries ++ [(key, item)] := by
  induction entries with
  | nil => rfl
  | cons pair rest tail =>
    obtain ⟨name, held⟩ := pair
    simp only [List.map_cons, List.mem_cons, not_or] at absent
    simp [put, Ne.symm absent.1, tail absent.2]

theorem nodup_put {entries : List (Key × Item)} {key : Key} {item : Item}
    (distinct : (entries.map Prod.fst).Nodup) : ((put entries key item).map Prod.fst).Nodup := by
  induction entries with
  | nil => simp [put]
  | cons pair rest tail =>
    obtain ⟨name, held⟩ := pair
    rw [List.map_cons, List.nodup_cons] at distinct
    by_cases same : name = key
    · subst same
      simpa [put] using distinct
    · have kept : (name == key) = false := by simp [same]
      simp only [put, kept, Bool.false_eq_true, if_false, List.map_cons, List.nodup_cons]
      refine ⟨fun member => ?_, tail distinct.2⟩
      rcases mem_keys_put_iff.mp member with earlier | equal
      · exact distinct.1 earlier
      · exact same equal

theorem putAll_of_nodup (entries extra : List (Key × Item))
    (distinct : ((entries ++ extra).map Prod.fst).Nodup) :
    putAll entries extra = entries ++ extra := by
  induction extra generalizing entries with
  | nil => simp [putAll]
  | cons pair rest tail =>
    have absent : pair.1 ∉ entries.map Prod.fst := by
      intro member
      rw [List.map_append, List.nodup_append] at distinct
      exact distinct.2.2 _ member _ (by simp) rfl
    have appended : putAll (put entries pair.1 pair.2) rest = entries ++ [pair] ++ rest := by
      rw [put_of_absent pair.2 absent]
      exact tail _ (by simpa using distinct)
    simpa [putAll] using appended

theorem ofPairs_of_nodup {pairs : List (Key × Item)} (distinct : (pairs.map Prod.fst).Nodup) :
    ofPairs pairs = pairs :=
  putAll_of_nodup [] pairs (by simpa using distinct)

theorem nodup_putAll {entries : List (Key × Item)} (extra : List (Key × Item))
    (distinct : (entries.map Prod.fst).Nodup) : ((putAll entries extra).map Prod.fst).Nodup := by
  induction extra generalizing entries with
  | nil => exact distinct
  | cons pair rest tail => exact tail (nodup_put distinct)

theorem mem_keys_putAll_iff {entries extra : List (Key × Item)} {key : Key} :
    key ∈ (putAll entries extra).map Prod.fst ↔
      key ∈ entries.map Prod.fst ∨ key ∈ extra.map Prod.fst := by
  induction extra generalizing entries with
  | nil => simp [putAll]
  | cons pair rest tail =>
    rw [show putAll entries (pair :: rest) = putAll (put entries pair.1 pair.2) rest from rfl, tail,
      mem_keys_put_iff, List.map_cons, List.mem_cons, or_assoc]

theorem mem_of_mem_putAll {entries extra : List (Key × Item)} {pair : Key × Item}
    (member : pair ∈ putAll entries extra) : pair ∈ entries ∨ pair ∈ extra := by
  induction extra generalizing entries with
  | nil => exact .inl member
  | cons first rest tail =>
    rcases tail member with written | later
    · exact (mem_put written).imp_right fun same => by simp [same]
    · exact .inr (List.mem_cons_of_mem _ later)

theorem mem_of_mem_ofPairs {pairs : List (Key × Item)} {pair : Key × Item}
    (member : pair ∈ ofPairs pairs) : pair ∈ pairs :=
  (mem_of_mem_putAll member).resolve_left List.not_mem_nil

/-- A map made of pairs has each of their keys once, and no other ones. -/
theorem keys_ofPairs (pairs : List (Key × Item)) :
    ((ofPairs pairs).map Prod.fst).Nodup ∧
      ∀ key, key ∈ (ofPairs pairs).map Prod.fst ↔ key ∈ pairs.map Prod.fst := by
  refine ⟨nodup_putAll pairs List.nodup_nil, fun key => ?_⟩
  rw [ofPairs, mem_keys_putAll_iff, List.map_nil]
  simp

end RecordMerge.Entries

import RecordMerge.Proofs.Leaf.Path

/-! The keys that a walk has to turn into text, and the fault of a walk: it ends early exactly if it
meets a key without a text. -/

set_option autoImplicit false

namespace RecordMerge

/-- The keys that a walk meets: those of the record, and those of the maps with entries in it, as far
as no key attribute is at or above them. -/
inductive Record.Meets (keys : List String) : List String → Record → Value → Prop where
  | here {parent : List String} {record : Record} {key value : Value} :
      (key, value) ∈ record → Meets keys parent record key
  | within {parent : List String} {record entries : Record} {key met : Value} {name : String} :
      (key, .map entries) ∈ record → key.toText? = some name → dotted (parent ++ [name]) ∉ keys →
      Meets keys (parent ++ [name]) entries met → Meets keys parent record met

theorem Record.not_meets_nil {keys parent : List String} {key : Value} :
    ¬ Meets keys parent [] key := by
  intro meets
  cases meets with
  | here member => cases member
  | within member => cases member

namespace Leaf

open Record (Meets)

variable {keys : List String} {policy : Policy} {failure : Failure}

theorem error_mem_ofEntries_cases {parent : List String} {entries : Record} :
    .error failure ∈ ofEntries keys policy parent entries ↔
      ∃ entry ∈ entries, entry.1.toText? = none ∧ failure = .reading .wrongKind ∨
        ∃ name, entry.1.toText? = some name ∧
          .error failure ∈ below keys policy (parent ++ [name]) entry.2 := by
  induction entries with
  | nil => simp [ofEntries]
  | cons entry rest tail =>
    obtain ⟨key, value⟩ := entry
    rw [ofEntries, List.mem_append, tail]
    simp only [List.mem_cons, exists_eq_or_imp]
    apply or_congr_left
    cases key.toText? <;> simp

theorem error_mem_ofEntries_of_each {parent : List String} {entries : Record}
    (each : ∀ entry ∈ entries, ∀ path, .error failure ∈ below keys policy path entry.2 ↔
      failure = .reading .wrongKind ∧ dotted path ∉ keys ∧
        ∃ inner key, entry.2 = .map inner ∧ Meets keys path inner key ∧ key.toText? = none) :
    .error failure ∈ ofEntries keys policy parent entries ↔
      failure = .reading .wrongKind ∧ ∃ key, Meets keys parent entries key ∧ key.toText? = none := by
  rw [error_mem_ofEntries_cases]
  constructor
  · rintro ⟨⟨key, value⟩, member, ⟨textless, rfl⟩ | ⟨name, text, met⟩⟩
    · exact ⟨rfl, key, .here member, textless⟩
    · obtain ⟨rfl, outside, inner, found, rfl, meets, textless⟩ := (each _ member _).mp met
      exact ⟨rfl, found, .within member text outside meets, textless⟩
  · rintro ⟨rfl, key, meets, textless⟩
    cases meets with
    | here member => exact ⟨_, member, Or.inl ⟨textless, rfl⟩⟩
    | within member text outside inner =>
      exact ⟨_, member, Or.inr ⟨_, text,
        (each _ member _).mpr ⟨rfl, outside, _, key, rfl, inner, textless⟩⟩⟩

theorem error_mem_below_iff {path : List String} {value : Value} :
    .error failure ∈ below keys policy path value ↔
      failure = .reading .wrongKind ∧ dotted path ∉ keys ∧
        ∃ inner key, value = .map inner ∧ Meets keys path inner key ∧ key.toText? = none := by
  induction value using Value.map_induction generalizing path with
  | plain value plain =>
    have none : .error failure ∉ below keys policy path value := by
      rw [below_of_not_mapNode path plain]
      split <;> simp
    refine iff_of_false none ?_
    rintro ⟨-, -, inner, key, rfl, meets, -⟩
    cases inner with
    | nil => exact Record.not_meets_nil meets
    | cons entry rest => cases plain
  | node entries node tail =>
    rw [below_mapNode path node]
    by_cases key : dotted path ∈ keys
    · simp [key]
    · simp only [List.contains_iff_mem, key, if_false, not_false_iff, true_and,
        error_mem_ofEntries_of_each fun entry member path => tail entry member]
      simp

theorem error_mem_ofEntries_iff {parent : List String} {entries : Record} :
    .error failure ∈ ofEntries keys policy parent entries ↔
      failure = .reading .wrongKind ∧ ∃ key, Meets keys parent entries key ∧ key.toText? = none :=
  error_mem_ofEntries_of_each fun _ _ _ => error_mem_below_iff

end Leaf

namespace Walk

variable {visits : List Leaf.Visit} {failure : Failure}

theorem error_mem_of_fault (found : (ofVisits visits).fault = some failure) :
    .error failure ∈ visits := by
  fun_induction ofVisits visits with
  | case1 => cases found
  | case2 leaf rest walk tail => exact List.mem_cons_of_mem _ (tail found)
  | case3 =>
    cases found
    exact List.mem_cons_self

theorem fault_ne_none_of_mem (met : .error failure ∈ visits) : (ofVisits visits).fault ≠ none := by
  fun_induction ofVisits visits with
  | case1 => cases met
  | case2 leaf rest walk tail =>
    cases met with
    | tail _ later => exact tail later
  | case3 => exact Option.some_ne_none _

end Walk

namespace Record

variable {record : Record} {schema : KeySchema} {policy : Policy}

theorem fault_of_walk {failure : Failure} (found : (record.walk schema policy).fault = some failure) :
    failure = .reading .wrongKind ∧ ∃ key, Meets schema.names [] record key ∧ key.toText? = none :=
  Leaf.error_mem_ofEntries_iff.mp (Walk.error_mem_of_fault found)

/-- A walk comes to its end exactly if all the keys that it meets have a text. -/
theorem fault_eq_none_iff :
    (record.walk schema policy).fault = none ↔
      ∀ key, Meets schema.names [] record key → key.toText? ≠ none := by
  constructor
  · intro complete key meets textless
    have met : .error (.reading .wrongKind) ∈ Leaf.ofEntries schema.names policy [] record :=
      Leaf.error_mem_ofEntries_iff.mpr ⟨rfl, key, meets, textless⟩
    exact Walk.fault_ne_none_of_mem met complete
  · intro texts
    cases found : (record.walk schema policy).fault with
    | none => rfl
    | some failure =>
      obtain ⟨-, key, meets, textless⟩ := fault_of_walk found
      exact absurd textless (texts key meets)

end Record

end RecordMerge

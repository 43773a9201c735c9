import Mathlib.Data.List.Basic
import RecordMerge.Value.Equality

/-! The elements that a set keeps of a row: the first of equal ones, in the order of the row. -/

set_option autoImplicit false

namespace RecordMerge.Value

/-- Keep an element unless an equal one is kept already. -/
def keepNew (kept : List Value) (element : Value) : List Value :=
  if kept.any fun known => same known element then kept else kept ++ [element]

def distinct (elements : List Value) : List Value :=
  elements.foldl keepNew []

theorem setOf_eq (frozen : Bool) (elements : List Value) :
    setOf frozen elements = .set frozen (distinct elements) := rfl

/-- No element equals a later one. -/
def Unequal (elements : List Value) : Prop :=
  elements.Pairwise fun earlier later => same earlier later = false

theorem subset_keepNew (kept : List Value) (element : Value) : kept ⊆ keepNew kept element := by
  unfold keepNew
  split
  · exact List.Subset.refl _
  · exact List.subset_append_left _ _

theorem mem_keepNew {kept : List Value} {element value : Value}
    (member : value ∈ keepNew kept element) : value ∈ kept ∨ value = element := by
  unfold keepNew at member
  split at member
  · exact Or.inl member
  · simpa using member

theorem mem_foldl_keepNew {elements kept : List Value} {value : Value}
    (member : value ∈ elements.foldl keepNew kept) : value ∈ kept ∨ value ∈ elements := by
  induction elements generalizing kept with
  | nil => exact Or.inl member
  | cons first rest tail =>
    rcases tail member with earlier | later
    · rcases mem_keepNew earlier with held | rfl
      · exact Or.inl held
      · exact Or.inr List.mem_cons_self
    · exact Or.inr (List.mem_cons_of_mem _ later)

theorem mem_of_mem_distinct {elements : List Value} {value : Value}
    (member : value ∈ distinct elements) : value ∈ elements :=
  (mem_foldl_keepNew member).resolve_left List.not_mem_nil

theorem subset_foldl_keepNew (elements kept : List Value) :
    kept ⊆ elements.foldl keepNew kept := by
  induction elements generalizing kept with
  | nil => exact List.Subset.refl _
  | cons first rest tail => exact List.Subset.trans (subset_keepNew kept first) (tail _)

theorem distinct_ne_nil {elements : List Value} (nonempty : elements ≠ []) :
    distinct elements ≠ [] := by
  obtain ⟨first, rest, rfl⟩ := List.exists_cons_of_ne_nil nonempty
  have kept : first ∈ distinct (first :: rest) :=
    subset_foldl_keepNew rest (keepNew [] first) (by simp [keepNew])
  exact List.ne_nil_of_mem kept

theorem unequal_keepNew {kept : List Value} (unequal : Unequal kept) (element : Value) :
    Unequal (keepNew kept element) := by
  unfold keepNew
  split
  · exact unequal
  · next fresh =>
    refine List.pairwise_append.mpr ⟨unequal, List.pairwise_singleton _ _, ?_⟩
    intro known member other single
    rw [List.mem_singleton.mp single]
    simp only [Bool.not_eq_true, List.any_eq_false] at fresh
    exact fresh known member

theorem unequal_distinct (elements : List Value) : Unequal (distinct elements) := by
  have within (kept : List Value) (unequal : Unequal kept) :
      Unequal (elements.foldl keepNew kept) := by
    induction elements generalizing kept with
    | nil => exact unequal
    | cons first rest tail => exact tail _ (unequal_keepNew unequal first)
  exact within [] List.Pairwise.nil

/-- Of a row without equal elements a set keeps all. -/
theorem distinct_of_unequal {elements : List Value} (unequal : Unequal elements) :
    distinct elements = elements := by
  have within (kept rest : List Value) (unequal : Unequal (kept ++ rest)) :
      rest.foldl keepNew kept = kept ++ rest := by
    induction rest generalizing kept with
    | nil => simp
    | cons first rest tail =>
      have fresh : kept.any (fun known => same known first) = false := by
        rw [List.any_eq_false]
        intro known member
        simp [(List.pairwise_append.mp unequal).2.2 known member first List.mem_cons_self]
      have appended : keepNew kept first = kept ++ [first] := by simp [keepNew, fresh]
      rw [List.foldl_cons, appended, tail _ (by simpa using unequal)]
      simp
  exact within [] elements unequal

-- Equality is not transitive for all values, so that it has to be kept for every two elements, and
-- not only for those that are compared.
/-- What changes every element and no equality between them can be done before or after. -/
theorem distinct_map {change : Value → Value} {elements : List Value}
    (kept : ∀ first ∈ elements, ∀ second ∈ elements,
      same (change first) (change second) = same first second) :
    distinct (elements.map change) = (distinct elements).map change := by
  have within (rest known : List Value)
      (kept : ∀ first ∈ known, ∀ second ∈ rest,
        same (change first) (change second) = same first second)
      (also : ∀ first ∈ rest, ∀ second ∈ rest,
        same (change first) (change second) = same first second) :
      (rest.map change).foldl keepNew (known.map change) =
        (rest.foldl keepNew known).map change := by
    induction rest generalizing known with
    | nil => rfl
    | cons first rest tail =>
      have step : keepNew (known.map change) (change first) = (keepNew known first).map change := by
        have alike : (known.map change).any (fun value => same value (change first)) =
            known.any fun value => same value first := by
          rw [List.any_map, Bool.eq_iff_iff, List.any_eq_true, List.any_eq_true]
          refine exists_congr fun value => and_congr_right fun member => ?_
          rw [Function.comp_apply, kept value member first List.mem_cons_self]
        simp only [keepNew, alike]
        split <;> simp
      rw [List.map_cons, List.foldl_cons, List.foldl_cons, step]
      refine tail _ (fun value member second later => ?_) (fun value member second later =>
        also value (List.mem_cons_of_mem _ member) second (List.mem_cons_of_mem _ later))
      rcases mem_keepNew member with earlier | rfl
      · exact kept value earlier second (List.mem_cons_of_mem _ later)
      · exact also _ List.mem_cons_self second (List.mem_cons_of_mem _ later)
  exact within elements [] (by simp) kept

end RecordMerge.Value

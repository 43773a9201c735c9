import RecordMerge.Proofs.Condition

/-! What the placeholders of a condition are bound to: each segment to itself, and each token to the
value that was given for it. -/

set_option autoImplicit false

namespace RecordMerge.Condition

variable {condition : String} {given : Value}

theorem nodup_bindNames {names : List (String × String)} {segments : List (List Char)}
    (distinct : (names.map Prod.fst).Nodup) :
    ((bindNames names segments).map Prod.fst).Nodup := by
  induction segments generalizing names with
  | nil => exact distinct
  | cons segment rest tail =>
    apply tail
    exact Entries.nodup_put distinct

-- A segment may be bound again, but the placeholder spells the name, so that it is always bound to
-- the same one.
theorem get?_bindNames (names : List (String × String)) (segments : List (List Char))
    (segment : List Char) :
    Entries.get? (bindNames names segments) (String.ofList ('#' :: segment)) =
      if segment ∈ segments then some (String.ofList segment)
      else Entries.get? names (String.ofList ('#' :: segment)) := by
  induction segments generalizing names with
  | nil => rfl
  | cons first rest tail =>
    have step : bindNames names (first :: rest) =
        bindNames (Entries.put names (String.ofList ('#' :: first)) (String.ofList first)) rest := rfl
    rw [step, tail]
    by_cases same : first = segment
    · subst same
      simp [Entries.get?_put_self]
    · have differs : String.ofList ('#' :: first) ≠ String.ofList ('#' :: segment) := by
        intro equal
        exact same (List.cons.inj (String.ofList_injective equal)).2
      rw [Entries.get?_put_of_ne names _ differs]
      simp [Ne.symm same]

theorem mem_bindNames_iff {segments : List (List Char)} {pair : String × String} :
    pair ∈ bindNames [] segments ↔ ∃ segment ∈ segments,
      pair = (String.ofList ('#' :: segment), String.ofList segment) := by
  constructor
  · intro member
    exact (mem_bindNames member).resolve_left (by simp)
  · rintro ⟨segment, member, rfl⟩
    apply Entries.mem_of_get?
    rw [get?_bindNames, if_pos member]

theorem nodup_bindValues {values result : List (String × Value)} {bound : List String}
    (distinct : (values.map Prod.fst).Nodup)
    (done : bindValues condition given values bound = .ok result) :
    (result.map Prod.fst).Nodup := by
  induction bound generalizing values with
  | nil =>
    cases done
    exact distinct
  | cons token rest tail =>
    rw [bindValues] at done
    split at done
    · exact tail distinct done
    · obtain ⟨value, -, later⟩ := bind_eq_ok_iff.mp done
      exact tail (Entries.nodup_put distinct) later

/-- A token that is bound already stays as it is; any other one is bound to its given value. -/
theorem get?_bindValues {values result : List (String × Value)} {bound : List String}
    (done : bindValues condition given values bound = .ok result) (token : String) :
    (token ∈ bound → Entries.get? values token = none →
      ∃ value, givenFor condition given token = .ok value ∧
        Entries.get? result token = some value) ∧
    (token ∉ bound ∨ Entries.get? values token ≠ none →
      Entries.get? result token = Entries.get? values token) := by
  induction bound generalizing values with
  | nil =>
    cases done
    simp
  | cons first rest tail =>
    rw [bindValues] at done
    split at done
    · next held known =>
      obtain ⟨new, old⟩ := tail done
      constructor
      · intro member fresh
        rcases List.mem_cons.mp member with rfl | later
        · rw [known] at fresh
          cases fresh
        · exact new later fresh
      · rintro (absent | present)
        · exact old (Or.inl fun later => absent (List.mem_cons_of_mem _ later))
        · exact old (Or.inr present)
    · next fresh =>
      obtain ⟨value, asked, later⟩ := bind_eq_ok_iff.mp done
      obtain ⟨new, old⟩ := tail later
      by_cases same : first = token
      · subst same
        rw [Entries.get?_put_self] at old
        have kept := old (Or.inr (by simp))
        refine ⟨fun _ _ => ⟨value, asked, kept⟩, ?_⟩
        rintro (absent | present)
        · exact absurd List.mem_cons_self absent
        · exact absurd fresh present
      · rw [Entries.get?_put_of_ne values value same] at new old
        constructor
        · intro member unbound
          exact new ((List.mem_cons.mp member).resolve_left (Ne.symm same)) unbound
        · rintro (absent | present)
          · exact old (Or.inl fun later => absent (List.mem_cons_of_mem _ later))
          · exact old (Or.inr present)

theorem givenFor_of_bindValues_error {values : List (String × Value)} {bound : List String}
    {failure : Failure} (failed : bindValues condition given values bound = .error failure) :
    ∃ token ∈ bound, givenFor condition given token = .error failure := by
  induction bound generalizing values with
  | nil => cases failed
  | cons token rest tail =>
    rw [bindValues] at failed
    split at failed
    · obtain ⟨other, member, asked⟩ := tail failed
      exact ⟨other, List.mem_cons_of_mem _ member, asked⟩
    · cases asked : givenFor condition given token with
      | error cause =>
        rw [asked] at failed
        cases failed
        exact ⟨token, List.mem_cons_self, asked⟩
      | ok value =>
        rw [asked] at failed
        obtain ⟨other, member, also⟩ := tail failed
        exact ⟨other, List.mem_cons_of_mem _ member, also⟩

/-- The segments and tokens of the atoms of a condition. -/
def segmentsOf (condition : String) : List (List Char) :=
  (atoms condition.toList).flatMap Atom.segments

def tokensOf (condition : String) : List String :=
  (atoms condition.toList).flatMap fun atom =>
    atom.tokens.map fun token => String.ofList (':' :: token)

/-- What is bound for a condition is bound to what it spells or to what was given for it. -/
structure Placeholders.Given (found : Placeholders) (condition : String) (given : Value) :
    Prop where
  names_nodup : (found.names.map Prod.fst).Nodup
  names : ∀ pair, pair ∈ found.names ↔ ∃ segment ∈ segmentsOf condition,
    pair = (String.ofList ('#' :: segment), String.ofList segment)
  values_nodup : (found.values.map Prod.fst).Nodup
  values : ∀ token value, Entries.get? found.values token = some value ↔
    token ∈ tokensOf condition ∧ givenFor condition given token = .ok value

theorem given_of_parse {found : Placeholders} (parsed : parse condition given = .ok found) :
    found.Given condition given := by
  obtain ⟨values, bound, built⟩ := bind_eq_ok_iff.mp parsed
  cases built
  refine ⟨nodup_bindNames (by simp), fun pair => mem_bindNames_iff,
    nodup_bindValues (by simp) bound, fun token value => ?_⟩
  obtain ⟨new, old⟩ := get?_bindValues bound token
  constructor
  · intro held
    have member : token ∈ tokensOf condition := by
      apply Classical.byContradiction
      intro absent
      have none := old (Or.inl absent)
      rw [held] at none
      cases none
    obtain ⟨other, asked, same⟩ := new member rfl
    obtain rfl := Option.some.inj (held.symm.trans same)
    exact ⟨member, asked⟩
  · rintro ⟨member, asked⟩
    obtain ⟨other, also, held⟩ := new member rfl
    obtain rfl := Except.ok.inj (asked.symm.trans also)
    exact held

theorem givenFor_of_parse {found : Placeholders} (parsed : parse condition given = .ok found) :
    ∀ token ∈ tokensOf condition, ∃ value, givenFor condition given token = .ok value := by
  obtain ⟨values, bound, -⟩ := bind_eq_ok_iff.mp parsed
  intro token member
  obtain ⟨value, asked, -⟩ := (get?_bindValues bound token).1 member rfl
  exact ⟨value, asked⟩

theorem parse_of_given (all : ∀ token ∈ tokensOf condition,
      ∃ value, givenFor condition given token = .ok value) :
    ∃ found, parse condition given = .ok found := by
  cases bound : bindValues condition given [] (tokensOf condition) with
  | ok values =>
    exact ⟨⟨bindNames [] (segmentsOf condition), values⟩, bind_eq_ok_iff.mpr ⟨values, bound, rfl⟩⟩
  | error failure =>
    obtain ⟨token, member, failed⟩ := givenFor_of_bindValues_error bound
    obtain ⟨value, asked⟩ := all token member
    rw [asked] at failed
    cases failed

theorem givenFor_of_parse_error {failure : Failure}
    (failed : parse condition given = .error failure) :
    ∃ token ∈ tokensOf condition, givenFor condition given token = .error failure := by
  cases bound : bindValues condition given [] (tokensOf condition) with
  | ok values =>
    have done : parse condition given = .ok ⟨bindNames [] (segmentsOf condition), values⟩ :=
      bind_eq_ok_iff.mpr ⟨values, bound, rfl⟩
    rw [failed] at done
    cases done
  | error cause =>
    have same : parse condition given = .error cause := by
      unfold parse
      unfold tokensOf at bound
      simp only [bound]
      rfl
    rw [failed] at same
    cases same
    exact givenFor_of_bindValues_error bound

end RecordMerge.Condition

import RecordMerge.Proofs.Condition.Exact

/-! Parsing is sound on any text, be it a written condition or not: nothing is bound and nothing is
missed but whole tokens of the text, and nothing that is given for other tokens matters. -/

set_option autoImplicit false

namespace RecordMerge.Condition

variable {condition : String}

theorem has_of_mem_segmentsOf {segment : List Char} (member : segment ∈ segmentsOf condition) :
    Has '#' segment condition.toList := by
  obtain ⟨atom, known, within⟩ := List.mem_flatMap.mp member
  exact (within_of_mem_atoms known).segments segment within

theorem has_of_mem_tokensOf {token : String} (member : token ∈ tokensOf condition) :
    ∃ word, Has ':' word condition.toList ∧ token = String.ofList (':' :: word) := by
  obtain ⟨atom, known, within⟩ := List.mem_flatMap.mp member
  obtain ⟨word, listed, rfl⟩ := List.mem_map.mp within
  exact ⟨word, (within_of_mem_atoms known).tokens word listed, rfl⟩

theorem parse_eq (condition : String) (given : Value) :
    parse condition given =
      (bindValues condition given [] (tokensOf condition)).bind fun values =>
        .ok ⟨bindNames [] (segmentsOf condition), values⟩ := rfl

theorem bindValues_congr {given other : Value} {bound : List String}
    (alike : ∀ token ∈ bound, givenFor condition given token = givenFor condition other token)
    (values : List (String × Value)) :
    bindValues condition given values bound = bindValues condition other values bound := by
  induction bound generalizing values with
  | nil => rfl
  | cons token rest tail =>
    obtain ⟨here, later⟩ := List.forall_mem_cons.mp alike
    simp only [bindValues, here, tail later]

theorem givenFor_supplied_congr {entries others : Option Record} {token : String}
    (alike : suppliedFor? entries token = suppliedFor? others token) :
    givenFor condition (supplied entries) token = givenFor condition (supplied others) token := by
  cases held : suppliedFor? others token with
  | none => rw [givenFor_supplied_of_none held, givenFor_supplied_of_none (alike.trans held)]
  | some value => rw [givenFor_supplied_of_some held, givenFor_supplied_of_some (alike.trans held)]

/-- Every name is bound to itself, every token to what is given for it, and both are in the text. -/
structure Placeholders.Sound (found : Placeholders) (text : List Char) (entries : Option Record) :
    Prop where
  names_nodup : (found.names.map Prod.fst).Nodup
  names : ∀ pair ∈ found.names, ∃ word, Has '#' word text ∧
    pair = (String.ofList ('#' :: word), String.ofList word)
  values_nodup : (found.values.map Prod.fst).Nodup
  values : ∀ pair ∈ found.values, ∃ word, Has ':' word text ∧
    pair.1 = String.ofList (':' :: word) ∧ suppliedFor? entries pair.1 = some pair.2

-- A word of the text may be the beginning of a longer one that is found in it. That the readers take
-- words to their ends is what `Has` says of them, whatever else of an atom fails to be read.
/-- Whatever the text is, parsing binds whole tokens of it to what they spell or to what is given for
them, or it fails for a whole token for which nothing is given. What is given for anything else makes no
difference. -/
theorem parse_sound (condition : String) (entries : Option Record) :
    (∀ found, parse condition (supplied entries) = .ok found →
      found.Sound condition.toList entries) ∧
    (∀ failure, parse condition (supplied entries) = .error failure →
      ∃ word, Has ':' word condition.toList ∧
        suppliedFor? entries (String.ofList (':' :: word)) = none ∧
        failure = .missingValue (String.ofList (':' :: word)) condition) ∧
    ∀ others : Option Record, (∀ word, Has ':' word condition.toList →
        suppliedFor? others (String.ofList (':' :: word)) =
          suppliedFor? entries (String.ofList (':' :: word))) →
      parse condition (supplied others) = parse condition (supplied entries) := by
  refine ⟨fun found parsed => ?_, fun failure failed => ?_, fun others alike => ?_⟩
  · have bound := given_of_parse parsed
    refine ⟨bound.names_nodup, fun pair member => ?_, bound.values_nodup, fun pair member => ?_⟩
    · obtain ⟨segment, within, rfl⟩ := (bound.names pair).mp member
      exact ⟨segment, has_of_mem_segmentsOf within, rfl⟩
    · obtain ⟨within, given⟩ :=
        (bound.values pair.1 pair.2).mp (Entries.get?_of_mem bound.values_nodup member)
      obtain ⟨word, has, spelt⟩ := has_of_mem_tokensOf within
      exact ⟨word, has, spelt, givenFor_supplied_eq_ok_iff.mp given⟩
  · obtain ⟨token, within, given⟩ := givenFor_of_parse_error failed
    obtain ⟨word, has, rfl⟩ := has_of_mem_tokensOf within
    cases held : suppliedFor? entries (String.ofList (':' :: word)) with
    | none =>
      rw [givenFor_supplied_of_none held] at given
      exact ⟨word, has, held, (Except.error.inj given).symm⟩
    | some value =>
      rw [givenFor_supplied_of_some held] at given
      cases given
  · have given (token : String) (within : token ∈ tokensOf condition) :
        givenFor condition (supplied others) token =
          givenFor condition (supplied entries) token := by
      obtain ⟨word, has, rfl⟩ := has_of_mem_tokensOf within
      exact givenFor_supplied_congr (alike word has)
    rw [parse_eq, parse_eq, bindValues_congr given]

end RecordMerge.Condition

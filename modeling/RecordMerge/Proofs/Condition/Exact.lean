import RecordMerge.Proofs.Condition.Given
import RecordMerge.Proofs.Condition.Scanning

/-! Parsing is exact on written conditions: it binds the segments and the tokens of their tests and
no others, or it fails for one of these tokens. -/

set_option autoImplicit false

namespace RecordMerge.Condition

variable {tests : List (Form × Atom)} {condition : String}

/-- A condition that is written with the tests. Blanks may stand before it and behind it. -/
def States (condition : String) (tests : List (Form × Atom)) : Prop :=
  ∃ before text after, Blank before ∧ Written tests text ∧ Blank after ∧
    condition.toList = before ++ (text ++ after)

/-- The segments of the paths of tests, and the tokens that stand for their values. -/
def segments (tests : List (Form × Atom)) : List (List Char) :=
  tests.flatMap fun test => test.2.segments

def tokens (tests : List (Form × Atom)) : List String :=
  tests.flatMap fun test => test.2.tokens.map fun token => String.ofList (':' :: token)

theorem kinds_eq_readers :
    kinds = [Form.comparison, .size, .call, .between, .membership].map Form.reader := rfl

theorem States.scan_eq (states : States condition tests) (form : Form) :
    scan form.reader 0 condition.toList = form.atoms tests := by
  obtain ⟨before, text, after, blankBefore, written, blankAfter, spelt⟩ := states
  have ends : Expression.EndsWord after := by
    have closed := endsWord_append_blank blankAfter Expression.endsWord_nil
    rwa [List.append_nil] at closed
  have closes : next? after ≠ some '(' := by
    have none := next?_append blankAfter []
    rw [List.append_nil] at none
    rw [none]
    nofun
  have nothing : scan form.reader 0 after = [] := by
    have passed := scan_of_passes (form.passes_blank blankAfter [])
    rwa [List.append_nil] at passed
  rw [spelt, scan_of_passes (form.passes_blank blankBefore _),
    written.scans form after (fun _ _ _ => ends) closes, nothing, List.append_nil]

/-- The atoms that are found are those of the tests. -/
theorem States.mem_atoms_iff (states : States condition tests) (atom : Atom) :
    atom ∈ atoms condition.toList ↔ ∃ form, (form, atom) ∈ tests := by
  have all (form : Form) :
      form ∈ [Form.comparison, .size, .call, .between, .membership] := by
    cases form <;> decide
  rw [atoms, kinds_eq_readers, List.flatMap_map]
  simp only [states.scan_eq, List.mem_flatMap, Form.atoms, List.mem_map, List.mem_filter,
    decide_eq_true_eq]
  constructor
  · rintro ⟨form, -, ⟨own, atom⟩, ⟨member, rfl⟩, rfl⟩
    exact ⟨own, member⟩
  · rintro ⟨form, member⟩
    exact ⟨form, all form, (form, atom), ⟨member, rfl⟩, rfl⟩

theorem States.mem_segmentsOf_iff (states : States condition tests) (segment : List Char) :
    segment ∈ segmentsOf condition ↔ segment ∈ segments tests := by
  simp only [segmentsOf, segments, List.mem_flatMap, states.mem_atoms_iff]
  constructor
  · rintro ⟨atom, ⟨form, member⟩, known⟩
    exact ⟨(form, atom), member, known⟩
  · rintro ⟨⟨form, atom⟩, member, known⟩
    exact ⟨atom, ⟨form, member⟩, known⟩

theorem States.mem_tokensOf_iff (states : States condition tests) (token : String) :
    token ∈ tokensOf condition ↔ token ∈ tokens tests := by
  simp only [tokensOf, tokens, List.mem_flatMap, states.mem_atoms_iff]
  constructor
  · rintro ⟨atom, ⟨form, member⟩, known⟩
    exact ⟨(form, atom), member, known⟩
  · rintro ⟨⟨form, atom⟩, member, known⟩
    exact ⟨atom, ⟨form, member⟩, known⟩

/-- The values that may be given with a condition, if any are. -/
def supplied : Option Record → Value
  | none => .null
  | some entries => .map entries

def suppliedFor? (entries : Option Record) (token : String) : Option Value :=
  entries.bind (Record.get? token)

theorem givenFor_supplied_of_some {entries : Option Record} {token : String} {value : Value}
    (held : suppliedFor? entries token = some value) :
    givenFor condition (supplied entries) token = .ok value := by
  cases entries with
  | none => cases held
  | some pairs =>
    have held : Record.get? token pairs = some value := held
    simp only [supplied, givenFor, held]

theorem givenFor_supplied_of_none {entries : Option Record} {token : String}
    (absent : suppliedFor? entries token = none) :
    givenFor condition (supplied entries) token = .error (.missingValue token condition) := by
  cases entries with
  | none => rfl
  | some pairs =>
    have absent : Record.get? token pairs = none := absent
    simp only [supplied, givenFor, absent]

theorem givenFor_supplied_eq_ok_iff {entries : Option Record} {token : String} {value : Value} :
    givenFor condition (supplied entries) token = .ok value ↔
      suppliedFor? entries token = some value := by
  constructor
  · intro asked
    cases held : suppliedFor? entries token with
    | none =>
      rw [givenFor_supplied_of_none held] at asked
      cases asked
    | some other =>
      rw [givenFor_supplied_of_some held] at asked
      rw [Except.ok.inj asked]
  · exact givenFor_supplied_of_some

/-- Each segment of the tests is bound to itself, each token of the tests to its given value, and
nothing else is bound. -/
structure Placeholders.Exact (found : Placeholders) (tests : List (Form × Atom))
    (entries : Option Record) : Prop where
  names_nodup : (found.names.map Prod.fst).Nodup
  names : ∀ pair, pair ∈ found.names ↔ ∃ segment ∈ segments tests,
    pair = (String.ofList ('#' :: segment), String.ofList segment)
  values_nodup : (found.values.map Prod.fst).Nodup
  values : ∀ token value, Entries.get? found.values token = some value ↔
    token ∈ tokens tests ∧ suppliedFor? entries token = some value

theorem Placeholders.Given.exact {found : Placeholders} {entries : Option Record}
    (bound : found.Given condition (supplied entries)) (states : States condition tests) :
    found.Exact tests entries where
  names_nodup := bound.names_nodup
  names pair := by
    rw [bound.names]
    simp only [states.mem_segmentsOf_iff]
  values_nodup := bound.values_nodup
  values token value := by
    rw [bound.values, states.mem_tokensOf_iff, givenFor_supplied_eq_ok_iff]

/-- If every token of the tests has a value, parsing binds exactly what the tests name. Otherwise it
fails for a token of the tests that has none. -/
theorem parse_exact (states : States condition tests) (entries : Option Record) :
    ((∀ token ∈ tokens tests, ∃ value, suppliedFor? entries token = some value) →
      ∃ found, parse condition (supplied entries) = .ok found ∧ found.Exact tests entries) ∧
    ((∃ token ∈ tokens tests, suppliedFor? entries token = none) →
      ∃ token ∈ tokens tests, suppliedFor? entries token = none ∧
        parse condition (supplied entries) = .error (.missingValue token condition)) := by
  constructor
  · intro all
    obtain ⟨found, parsed⟩ := parse_of_given fun token member => by
      obtain ⟨value, held⟩ := all token ((states.mem_tokensOf_iff token).mp member)
      exact ⟨value, givenFor_supplied_of_some held⟩
    exact ⟨found, parsed, (given_of_parse parsed).exact states⟩
  · rintro ⟨missing, member, absent⟩
    cases parsed : parse condition (supplied entries) with
    | ok found =>
      obtain ⟨value, asked⟩ :=
        givenFor_of_parse parsed missing ((states.mem_tokensOf_iff missing).mpr member)
      rw [givenFor_supplied_of_none absent] at asked
      cases asked
    | error failure =>
      obtain ⟨token, known, failed⟩ := givenFor_of_parse_error parsed
      have unbound : suppliedFor? entries token = none := by
        cases held : suppliedFor? entries token with
        | none => rfl
        | some value =>
          rw [givenFor_supplied_of_some held] at failed
          cases failed
      rw [givenFor_supplied_of_none unbound] at failed
      cases failed
      exact ⟨token, (states.mem_tokensOf_iff token).mp known, unbound, rfl⟩

theorem parse_exact_keywords :
    let condition := "NOT(#IN between :a And :b) or size ( #size . #b )>=:a"
    let tests := [(Form.between, Atom.mk [['I', 'N']] [['a'], ['b']]),
      (.size, ⟨[['s', 'i', 'z', 'e'], ['b']], [['a']]⟩)]
    let entries : Record := [(.text ":c", .null), (.text ":b", .int 2), (.text ":a", .int 1)]
    States condition tests ∧
      (∃ found, parse condition (supplied (some entries)) = .ok found ∧
        found.Exact tests (some entries)) ∧
      ∃ token ∈ tokens tests, suppliedFor? none token = none ∧
        parse condition (supplied none) = .error (.missingValue token condition) := by
  intro condition tests entries
  have space : Blank [' '] := by decide
  have nothing : Blank [] := by decide
  have first : Expression.IsWord ['a'] := by decide
  have second : Expression.IsWord ['b'] := by decide
  have name : Path [['I', 'N']] ['#', 'I', 'N'] := .one (by decide)
  have path : Path [['s', 'i', 'z', 'e'], ['b']] "#size . #b".toList :=
    .more (by decide) space space (.one second)
  have range := Test.between name space (by decide)
    (show Keyword "BETWEEN" "between".toList by decide) space (by decide) first space (by decide)
    (show Keyword "AND" "And".toList by decide) space (by decide) second
  have size := Test.size space space path space nothing (show ">=" ∈ comparators by decide) nothing
    first
  have negated := Written.negation (show Keyword "NOT" "NOT".toList by decide) nothing
    (by intro _ _ _; rfl) (.grouped nothing (.test range) nothing)
  have joined := Written.joined (show "OR" ∈ ["AND", "OR"] by decide) negated space
    (show Keyword "OR" "or".toList by decide) space (.test size) (by intro _ _ _; rfl)
    (by intro _ _ _; rfl)
  have states : States condition tests := ⟨[], _, [], nothing, joined, nothing, by decide⟩
  refine ⟨states, (parse_exact states (some entries)).1 ?_, (parse_exact states none).2 ?_⟩
  · intro token member
    have known : token ∈ [":a", ":b", ":a"] := member
    simp only [List.mem_cons, List.not_mem_nil, or_false] at known
    rcases known with rfl | rfl | rfl
    · exact ⟨.int 1, rfl⟩
    · exact ⟨.int 2, rfl⟩
    · exact ⟨.int 1, rfl⟩
  · exact ⟨":a", by decide, rfl⟩

end RecordMerge.Condition

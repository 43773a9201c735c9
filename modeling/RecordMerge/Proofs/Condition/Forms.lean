import RecordMerge.Proofs.Condition.Passing

/-! The forms of a test are told from each other: what is looked for in one form is not found in a
test of another one. -/

set_option autoImplicit false

namespace RecordMerge.Condition

namespace Form

/-- The form of a test that begins with a path, by the character that comes next behind it. -/
def ofNext? (char : Char) : Option Form :=
  match char.toUpper with
  | '=' | '<' | '>' => some .comparison
  | 'B' => some .between
  | 'I' => some .membership
  | _ => none

/-- The form that the next character tells. -/
def Follows (form : Form) (char : Char) : Prop :=
  ofNext? char = some form

/-- The functions that a test begins with. -/
def names : Form → List String
  | .size => ["size"]
  | .call => functions
  | _ => []

end Form

variable {text rest : List Char}

theorem eq_of_literal? {expected : List Char} (found : literal? expected text = some rest) :
    text = expected ++ rest := by
  unfold literal? at found
  split at found
  · next isPrefix =>
    cases found
    rw [List.isPrefixOf_iff_prefix] at isPrefix
    exact List.prefix_iff_eq_append.mp isPrefix |>.symm
  · cases found

theorem next?_of_literal? {char : Char} (found : literal? [char] (skipBlanks text) = some rest) :
    next? text = some char := by
  rw [next?, eq_of_literal? found]
  rfl

theorem skipBlanks_of_blanks? (found : blanks? text = some rest) : skipBlanks text = rest := by
  cases text with
  | nil => cases found
  | cons char text =>
    rw [blanks?] at found
    split at found
    · next blank =>
      cases found
      rw [skipBlanks, List.dropWhile_cons_of_pos blank, skipBlanks]
    · cases found

theorem next?_of_keyword? {expected : List Char} {first : Char} {blanked : List Char}
    (blanks : blanks? text = some blanked)
    (found : keyword? (first :: expected) blanked = some rest) :
    ∃ char, next? text = some char ∧ char.toUpper = first := by
  unfold keyword? at found
  split at found
  · next same =>
    rw [next?, skipBlanks_of_blanks? blanks]
    cases blanked with
    | nil => cases same
    | cons char others => exact ⟨char, rfl, (List.cons.inj same).1⟩
  · cases found

theorem next?_of_comparator? (found : comparator? (skipBlanks text) = some rest) :
    ∃ char, next? text = some char ∧ char ∈ ['=', '<', '>'] := by
  unfold next?
  unfold comparator? at found
  split at found
  · next same => exact ⟨'<', by rw [same]; rfl, by decide⟩
  · next same => exact ⟨'<', by rw [same]; rfl, by decide⟩
  · next same => exact ⟨'>', by rw [same]; rfl, by decide⟩
  · next same => exact ⟨'=', by rw [same]; rfl, by decide⟩
  · next same => exact ⟨'<', by rw [same]; rfl, by decide⟩
  · next same => exact ⟨'>', by rw [same]; rfl, by decide⟩
  · cases found

theorem Form.follows_comparison {char : Char} (known : char ∈ ['=', '<', '>']) :
    Form.comparison.Follows char := by
  simp only [List.mem_cons, List.not_mem_nil, or_false] at known
  rcases known with rfl | rfl | rfl <;> rfl

theorem Form.follows_between {char : Char} (letter : char.toUpper = 'B') :
    Form.between.Follows char := by
  rw [Follows, ofNext?, letter]
  rfl

theorem Form.follows_membership {char : Char} (letter : char.toUpper = 'I') :
    Form.membership.Follows char := by
  rw [Follows, ofNext?, letter]
  rfl

theorem readsPath_comparison : ReadsPath comparison? Form.comparison.Follows := by
  intro text found read
  simp only [comparison?, Option.bind_eq_bind, Option.bind_eq_some_iff] at read
  obtain ⟨⟨segments, behind⟩, path, remaining, compared, -⟩ := read
  obtain ⟨char, next, known⟩ := next?_of_comparator? compared
  exact ⟨segments, behind, char, path, next, Form.follows_comparison known⟩

theorem readsPath_between : ReadsPath between? Form.between.Follows := by
  intro text found read
  simp only [between?, Option.bind_eq_bind, Option.bind_eq_some_iff] at read
  obtain ⟨⟨segments, behind⟩, path, blanked, blanks, remaining, keyword, -⟩ := read
  obtain ⟨char, next, capital⟩ := next?_of_keyword? blanks keyword
  exact ⟨segments, behind, char, path, next, Form.follows_between capital⟩

theorem readsPath_membership : ReadsPath membership? Form.membership.Follows := by
  intro text found read
  simp only [membership?, Option.bind_eq_bind, Option.bind_eq_some_iff] at read
  obtain ⟨⟨segments, behind⟩, path, blanked, blanks, remaining, keyword, -⟩ := read
  obtain ⟨char, next, capital⟩ := next?_of_keyword? blanks keyword
  exact ⟨segments, behind, char, path, next, Form.follows_membership capital⟩

theorem readsCall_size : ReadsCall sizeComparison? Form.size.names where
  isWord := by decide
  begins text found read := by
    simp only [sizeComparison?, Option.bind_eq_bind, Option.bind_eq_some_iff] at read
    obtain ⟨behind, named, inside, opened, -⟩ := read
    exact ⟨"size", List.mem_cons_self, behind, eq_of_literal? named, next?_of_literal? opened⟩

theorem readsCall_call : ReadsCall call? Form.call.names where
  isWord := by decide
  begins text found read := by
    simp only [call?, Option.bind_eq_bind, Option.bind_eq_some_iff] at read
    obtain ⟨behind, named, inside, opened, -⟩ := read
    obtain ⟨function, known, begun⟩ := List.exists_of_findSome?_eq_some named
    exact ⟨function, known, behind, eq_of_literal? begun, next?_of_literal? opened⟩

/-- Each form is looked for in one of two ways. -/
theorem Form.reads (form : Form) :
    ReadsPath form.reader form.Follows ∨ ReadsCall form.reader form.names := by
  cases form with
  | comparison => exact Or.inl readsPath_comparison
  | size => exact Or.inr readsCall_size
  | call => exact Or.inr readsCall_call
  | between => exact Or.inl readsPath_between
  | membership => exact Or.inl readsPath_membership

theorem Form.four_le_length (form : Form) : ∀ name ∈ form.names, 4 ≤ name.length := by
  cases form <;> decide

/-- No short word ends with a name. -/
theorem Form.not_suffix_of_length {form : Form} {word : List Char} (short : word.length < 4) :
    ∀ name ∈ form.names, ¬ name.toList <:+ word := by
  intro name known suffix
  have least := form.four_le_length name known
  have most := suffix.length_le
  rw [String.length_toList] at most
  omega

/-- No name of one form ends with a name of another one. -/
theorem Form.not_suffix {form other : Form} (differs : form ≠ other) {function : String}
    (known : function ∈ form.names) :
    ∀ name ∈ other.names, ¬ name.toList <:+ function.toList := by
  have sizeFirst : ∀ name ∈ functions, ¬ name.toList <:+ "size".toList := by decide
  have sizeLast : ∀ function ∈ functions, ¬ "size".toList <:+ function.toList := by decide
  intro name given
  cases form with
  | comparison | between | membership => cases known
  | size =>
    obtain rfl := List.mem_singleton.mp known
    cases other with
    | comparison | between | membership => cases given
    | size => exact absurd rfl differs
    | call => exact sizeFirst name given
  | call =>
    cases other with
    | comparison | between | membership => cases given
    | size =>
      obtain rfl := List.mem_singleton.mp given
      exact sizeLast function known
    | call => exact absurd rfl differs

end RecordMerge.Condition

import RecordMerge.Proofs.Condition.Forms

/-! What a condition is scanned for. A test is found in its own form and passed over in every other
one; connectives, blanks and parentheses are passed over in all of them. -/

set_option autoImplicit false

namespace RecordMerge.Condition

open Expression (EndsWord IsWord)
open Placeholder (isWordChar)

variable {text rest : List Char}

/-- A path that stands before the text ends there, and what comes next tells no form but the one. -/
structure PathStops (form : Form) (text : List Char) : Prop where
  ends : EndsWord text
  next : ∃ char, next? text = some char ∧ char ≠ '.' ∧
    ∀ other : Form, other.Follows char → form = other

section Stops

variable {form : Form}

theorem PathStops.append_blank {blank : List Char} (stops : PathStops form text)
    (blanks : Blank blank) : PathStops form (blank ++ text) where
  ends := endsWord_append_blank blanks stops.ends
  next := by
    rw [next?_append blanks]
    exact stops.next

theorem pathStops_plain {char : Char} (noBlank : isBlank char = false)
    (noWord : isWordChar char = false) (noDot : char ≠ '.')
    (tells : ∀ other : Form, other.Follows char → form = other) (rest : List Char) :
    PathStops form (char :: rest) where
  ends := Expression.endsWord_cons noWord rest
  next := ⟨char, next?_cons noBlank rest, noDot, tells⟩

theorem pathStops_keyword {capitals : String} {blank keyword others : List Char} {first : Char}
    (blanks : Blank blank) (nonempty : blank ≠ []) (isKeyword : Keyword capitals keyword)
    (isWord : IsWord capitals.toList) (spelt : capitals.toList = first :: others)
    (follows : ∀ char : Char, char.toUpper = first → form.Follows char) (rest : List Char) :
    PathStops form (blank ++ (keyword ++ rest)) where
  ends := endsWord_of_blank blanks nonempty _
  next := by
    obtain ⟨char, behind, rfl, capital⟩ := isKeyword.cons spelt
    have word : isWordChar char = true := (isKeyword.isWord isWord).2 char List.mem_cons_self
    refine ⟨char, ?_, ?_, fun other also => ?_⟩
    · rw [next?_append blanks, List.cons_append, next?_cons (isBlank_of_isWordChar word)]
    · rintro rfl
      cases word
    · exact Option.some.inj ((follows char capital).symm.trans also)

end Stops

namespace Test

variable {form other : Form} {atom : Atom}

/-- A test of a form has one path in its text, and no mark of a segment before or behind it. -/
def HasPath (form : Form) (segments : List (List Char)) (text : List Char) : Prop :=
  ∃ lead path tail, text = lead ++ (path ++ tail) ∧ '#' ∉ lead ∧ '#' ∉ tail ∧
    Path segments path ∧ ∀ rest, PathStops form (tail ++ rest)

section Views

variable {segments tokens : List (List Char)}

theorem hasPath_comparison {path first second token : List Char} {operator : String}
    (written : Path segments path) (blankFirst : Blank first) (known : operator ∈ comparators)
    (blankSecond : Blank second) (isWord : IsWord token) :
    HasPath .comparison segments
      (path ++ (first ++ (operator.toList ++ (second ++ (':' :: token))))) := by
  refine ⟨[], path, _, rfl, by simp, ?_, written, fun rest => ?_⟩
  · simp only [List.mem_append, List.mem_cons, not_or]
    exact ⟨not_mem_of_blank blankFirst rfl, not_mem_of_comparator known (by decide),
      not_mem_of_blank blankSecond rfl, by decide, not_mem_of_isWord isWord.2 rfl⟩
  · obtain ⟨char, others, spelt, plain, noWord, noDot⟩ := comparators_cons known
    have follows : Form.comparison.Follows char := by
      apply Form.follows_comparison
      apply comparator_subset known
      rw [spelt]
      exact List.mem_cons_self
    rw [spelt, List.append_assoc, List.cons_append, List.cons_append]
    refine PathStops.append_blank (pathStops_plain plain noWord noDot ?_ _) blankFirst
    exact fun other also => Option.some.inj (follows.symm.trans also)

theorem hasPath_size {path first second third fourth fifth token : List Char} {operator : String}
    (blankFirst : Blank first) (blankSecond : Blank second) (written : Path segments path)
    (blankThird : Blank third) (blankFourth : Blank fourth) (known : operator ∈ comparators)
    (blankFifth : Blank fifth) (isWord : IsWord token) :
    HasPath .size segments ("size".toList ++ (first ++ ('(' :: (second ++ (path ++ (third ++
      (')' :: (fourth ++ (operator.toList ++ (fifth ++ (':' :: token))))))))))) := by
  refine ⟨"size".toList ++ (first ++ ('(' :: second)), path, _, by simp; rfl, ?_, ?_, written,
    fun rest => ?_⟩
  · simp only [List.mem_append, List.mem_cons, not_or]
    exact ⟨by decide, not_mem_of_blank blankFirst rfl, by decide, not_mem_of_blank blankSecond rfl⟩
  · simp only [List.mem_append, List.mem_cons, not_or]
    exact ⟨not_mem_of_blank blankThird rfl, by decide, not_mem_of_blank blankFourth rfl,
      not_mem_of_comparator known (by decide), not_mem_of_blank blankFifth rfl, by decide,
      not_mem_of_isWord isWord.2 rfl⟩
  · rw [List.append_assoc, List.cons_append]
    exact (pathStops_plain rfl rfl (by decide) (by rintro _ ⟨⟩) _).append_blank blankThird

theorem hasPath_call {path first second third argument : List Char} {function : String}
    (known : function ∈ functions) (blankFirst : Blank first) (blankSecond : Blank second)
    (written : Path segments path) (blankThird : Blank third) (given : Argument tokens argument) :
    HasPath .call segments (function.toList ++ (first ++ ('(' :: (second ++ (path ++ (third ++
      (argument ++ [')']))))))) := by
  refine ⟨function.toList ++ (first ++ ('(' :: second)), path, third ++ (argument ++ [')']),
    by simp, ?_, ?_, written, fun rest => ?_⟩
  · simp only [List.mem_append, List.mem_cons, not_or]
    exact ⟨not_mem_of_isWord (readsCall_call.isWord function known).2 rfl,
      not_mem_of_blank blankFirst rfl, by decide, not_mem_of_blank blankSecond rfl⟩
  · simp only [List.mem_append, List.mem_singleton, not_or]
    exact ⟨not_mem_of_blank blankThird rfl, not_mem_of_argument given (by decide) rfl rfl, by decide⟩
  · rw [List.append_assoc, List.append_assoc]
    refine PathStops.append_blank ?_ blankThird
    cases given with
    | none => exact pathStops_plain rfl rfl (by decide) (by rintro _ ⟨⟩) _
    | some => exact pathStops_plain rfl rfl (by decide) (by rintro _ ⟨⟩) _

theorem hasPath_between {path first second third fourth low high between_ and_ : List Char}
    (written : Path segments path) (blankFirst : Blank first) (someFirst : first ≠ [])
    (isBetween : Keyword "BETWEEN" between_) (blankSecond : Blank second) (isLow : IsWord low)
    (blankThird : Blank third) (isAnd : Keyword "AND" and_) (blankFourth : Blank fourth)
    (isHigh : IsWord high) :
    HasPath .between segments (path ++ (first ++ (between_ ++ (second ++ (':' :: (low ++ (third ++
      (and_ ++ (fourth ++ (':' :: high)))))))))) := by
  have between : IsWord "BETWEEN".toList := by decide
  have connective : IsWord "AND".toList := by decide
  refine ⟨[], path, _, rfl, by simp, ?_, written, fun rest => ?_⟩
  · simp only [List.mem_append, List.mem_cons, not_or]
    exact ⟨not_mem_of_blank blankFirst rfl, not_mem_of_isWord (isBetween.isWord between).2 rfl,
      not_mem_of_blank blankSecond rfl, by decide, not_mem_of_isWord isLow.2 rfl,
      not_mem_of_blank blankThird rfl, not_mem_of_isWord (isAnd.isWord connective).2 rfl,
      not_mem_of_blank blankFourth rfl, by decide, not_mem_of_isWord isHigh.2 rfl⟩
  · rw [List.append_assoc, List.append_assoc]
    exact pathStops_keyword blankFirst someFirst isBetween between rfl
      (fun _ => Form.follows_between) _

theorem hasPath_membership {path first second third fourth in_ values : List Char}
    (written : Path segments path) (blankFirst : Blank first) (someFirst : first ≠ [])
    (isIn : Keyword "IN" in_) (blankSecond : Blank second) (blankThird : Blank third)
    (listed : Values tokens values) (blankFourth : Blank fourth) :
    HasPath .membership segments (path ++ (first ++ (in_ ++ (second ++ ('(' :: (third ++
      (values ++ (fourth ++ [')'])))))))) := by
  have inside : IsWord "IN".toList := by decide
  refine ⟨[], path, _, rfl, by simp, ?_, written, fun rest => ?_⟩
  · simp only [List.mem_append, List.mem_cons, List.not_mem_nil, or_false, not_or]
    exact ⟨not_mem_of_blank blankFirst rfl, not_mem_of_isWord (isIn.isWord inside).2 rfl,
      not_mem_of_blank blankSecond rfl, by decide, not_mem_of_blank blankThird rfl,
      not_mem_of_chain listed (by decide) (by decide) rfl rfl, not_mem_of_blank blankFourth rfl,
      by decide⟩
  · rw [List.append_assoc, List.append_assoc]
    exact pathStops_keyword blankFirst someFirst isIn inside rfl
      (fun _ => Form.follows_membership) _

end Views

/-- The text of a test has one path. -/
theorem path_view (test : Test form atom text) : HasPath form atom.segments text := by
  cases test with
  | comparison written blankFirst known blankSecond isWord =>
    exact hasPath_comparison written blankFirst known blankSecond isWord
  | size blankFirst blankSecond written blankThird blankFourth known blankFifth isWord =>
    exact hasPath_size blankFirst blankSecond written blankThird blankFourth known blankFifth isWord
  | call known blankFirst blankSecond written blankThird given =>
    exact hasPath_call known blankFirst blankSecond written blankThird given
  | between written blankFirst someFirst isBetween blankSecond _ isLow blankThird _ isAnd blankFourth
      _ isHigh =>
    exact hasPath_between written blankFirst someFirst isBetween blankSecond isLow blankThird isAnd
      blankFourth isHigh
  | membership written blankFirst someFirst isIn blankSecond blankThird listed blankFourth =>
    exact hasPath_membership written blankFirst someFirst isIn blankSecond blankThird listed
      blankFourth

theorem passes_path (reads : ReadsPath other.reader other.Follows) (test : Test form atom text)
    (differs : form ≠ other) (rest : List Char) : Passes other.reader text rest := by
  obtain ⟨lead, path, tail, rfl, noLead, noTail, written, stops⟩ := test.path_view
  obtain ⟨ends, char, next, noDot, tells⟩ := stops rest
  apply (reads.passes_of_not_mem noLead _).append
  apply Passes.append _ (reads.passes_of_not_mem noTail rest)
  exact reads.passes_path written ends next noDot fun follows => differs (tells other follows)

section Calls

variable {segments tokens : List (List Char)} (reads : ReadsCall other.reader other.names)

include reads

theorem passes_comparison {path first second token : List Char} {operator : String}
    (written : Path segments path) (blankFirst : Blank first) (known : operator ∈ comparators)
    (blankSecond : Blank second) (isWord : IsWord token)
    (separate : Separate (path ++ (first ++ (operator.toList ++ (second ++ (':' :: token))))) rest)
    (next : next? rest ≠ some '(') :
    Passes other.reader (path ++ (first ++ (operator.toList ++ (second ++ (':' :: token))))) rest := by
  refine reads.passes_of_not_mem ?_ separate next
  simp only [List.mem_append, List.mem_cons, not_or]
  exact ⟨not_mem_of_chain written (by decide) (by decide) rfl rfl, not_mem_of_blank blankFirst rfl,
    not_mem_of_comparator known (by decide), not_mem_of_blank blankSecond rfl, by decide,
    not_mem_of_isWord isWord.2 rfl⟩

theorem passes_size {path first second third fourth fifth token : List Char} {operator : String}
    (differs : .size ≠ other) (blankFirst : Blank first) (blankSecond : Blank second)
    (written : Path segments path) (blankThird : Blank third) (blankFourth : Blank fourth)
    (known : operator ∈ comparators) (blankFifth : Blank fifth) (isWord : IsWord token)
    (separate : Separate ("size".toList ++ (first ++ ('(' :: (second ++ (path ++ (third ++ (')' ::
      (fourth ++ (operator.toList ++ (fifth ++ (':' :: token))))))))))) rest)
    (next : next? rest ≠ some '(') :
    Passes other.reader ("size".toList ++ (first ++ ('(' :: (second ++ (path ++ (third ++ (')' ::
      (fourth ++ (operator.toList ++ (fifth ++ (':' :: token))))))))))) rest := by
  refine reads.passes_applied (by decide) blankFirst (Form.not_suffix differs List.mem_cons_self) ?_
    (separate.of_suffix ?_) next
  · simp only [List.mem_append, List.mem_cons, not_or]
    exact ⟨not_mem_of_blank blankSecond rfl,
      not_mem_of_chain written (by decide) (by decide) rfl rfl, not_mem_of_blank blankThird rfl,
      by decide, not_mem_of_blank blankFourth rfl, not_mem_of_comparator known (by decide),
      not_mem_of_blank blankFifth rfl, by decide, not_mem_of_isWord isWord.2 rfl⟩
  · exact ⟨"size".toList ++ (first ++ ['(']), by simp⟩

theorem passes_call {path first second third argument : List Char} {function : String}
    (differs : .call ≠ other) (known : function ∈ functions) (blankFirst : Blank first)
    (blankSecond : Blank second) (written : Path segments path) (blankThird : Blank third)
    (given : Argument tokens argument)
    (separate : Separate (function.toList ++ (first ++ ('(' :: (second ++ (path ++ (third ++
      (argument ++ [')']))))))) rest) (next : next? rest ≠ some '(') :
    Passes other.reader (function.toList ++ (first ++ ('(' :: (second ++ (path ++ (third ++
      (argument ++ [')']))))))) rest := by
  refine reads.passes_applied (readsCall_call.isWord function known) blankFirst
    (Form.not_suffix differs known) ?_ (separate.of_suffix ?_) next
  · simp only [List.mem_append, List.mem_singleton, not_or]
    exact ⟨not_mem_of_blank blankSecond rfl,
      not_mem_of_chain written (by decide) (by decide) rfl rfl, not_mem_of_blank blankThird rfl,
      not_mem_of_argument given (by decide) rfl rfl, by decide⟩
  · exact ⟨function.toList ++ (first ++ ['(']), by simp⟩

theorem passes_between {path first second third fourth low high between_ and_ : List Char}
    (written : Path segments path) (blankFirst : Blank first)
    (isBetween : Keyword "BETWEEN" between_) (blankSecond : Blank second) (isLow : IsWord low)
    (blankThird : Blank third) (isAnd : Keyword "AND" and_) (blankFourth : Blank fourth)
    (isHigh : IsWord high)
    (separate : Separate (path ++ (first ++ (between_ ++ (second ++ (':' :: (low ++ (third ++ (and_ ++
      (fourth ++ (':' :: high)))))))))) rest) (next : next? rest ≠ some '(') :
    Passes other.reader (path ++ (first ++ (between_ ++ (second ++ (':' :: (low ++ (third ++ (and_ ++
      (fourth ++ (':' :: high)))))))))) rest := by
  refine reads.passes_of_not_mem ?_ separate next
  simp only [List.mem_append, List.mem_cons, not_or]
  exact ⟨not_mem_of_chain written (by decide) (by decide) rfl rfl, not_mem_of_blank blankFirst rfl,
    not_mem_of_isWord (isBetween.isWord (by decide)).2 rfl, not_mem_of_blank blankSecond rfl,
    by decide, not_mem_of_isWord isLow.2 rfl, not_mem_of_blank blankThird rfl,
    not_mem_of_isWord (isAnd.isWord (by decide)).2 rfl, not_mem_of_blank blankFourth rfl,
    by decide, not_mem_of_isWord isHigh.2 rfl⟩

-- The keyword is taken for a function, so that the path before it is passed on its own.
theorem passes_membership {path first second third fourth in_ values : List Char}
    (written : Path segments path) (blankFirst : Blank first) (someFirst : first ≠ [])
    (isIn : Keyword "IN" in_) (blankSecond : Blank second) (blankThird : Blank third)
    (listed : Values tokens values) (blankFourth : Blank fourth)
    (separate : Separate (path ++ (first ++ (in_ ++ (second ++ ('(' :: (third ++ (values ++
      (fourth ++ [')'])))))))) rest) (next : next? rest ≠ some '(') :
    Passes other.reader (path ++ (first ++ (in_ ++ (second ++ ('(' :: (third ++ (values ++
      (fourth ++ [')'])))))))) rest := by
  have inside : IsWord in_ := isIn.isWord (by decide)
  have short : in_.length < 4 := by
    rw [isIn.length_eq]
    decide
  rw [← List.append_assoc]
  apply Passes.append
  · refine reads.passes_of_not_mem ?_ ?_ ?_
    · simp only [List.mem_append, not_or]
      exact ⟨not_mem_of_chain written (by decide) (by decide) rfl rfl,
        not_mem_of_blank blankFirst rfl⟩
    · exact separate_blank blankFirst someFirst
    · rw [List.append_assoc]
      exact next?_word_ne inside rfl _
  · refine reads.passes_applied inside blankSecond (Form.not_suffix_of_length short) ?_
      (separate.of_suffix ?_) next
    · simp only [List.mem_append, List.mem_singleton, not_or]
      exact ⟨not_mem_of_blank blankThird rfl,
        not_mem_of_chain listed (by decide) (by decide) rfl rfl, not_mem_of_blank blankFourth rfl,
        by decide⟩
    · exact ⟨path ++ (first ++ (in_ ++ (second ++ ['(']))), by simp⟩

-- A path whose form is told by a word is followed by a blank, so that the word cannot join it.
theorem passes_calls (test : Test form atom text) (differs : form ≠ other)
    (separate : Separate text rest) (next : next? rest ≠ some '(') :
    Passes other.reader text rest := by
  cases test with
  | comparison written blankFirst known blankSecond isWord =>
    exact passes_comparison reads written blankFirst known blankSecond isWord separate next
  | size blankFirst blankSecond written blankThird blankFourth known blankFifth isWord =>
    exact passes_size reads differs blankFirst blankSecond written blankThird blankFourth known
      blankFifth isWord separate next
  | call known blankFirst blankSecond written blankThird given =>
    exact passes_call reads differs known blankFirst blankSecond written blankThird given separate
      next
  | between written blankFirst _ isBetween blankSecond _ isLow blankThird _ isAnd blankFourth _
      isHigh =>
    exact passes_between reads written blankFirst isBetween blankSecond isLow blankThird isAnd
      blankFourth isHigh separate next
  | membership written blankFirst someFirst isIn blankSecond blankThird listed blankFourth =>
    exact passes_membership reads written blankFirst someFirst isIn blankSecond blankThird listed
      blankFourth separate next

end Calls

theorem ne_nil (test : Test form atom text) : text ≠ [] := by
  obtain ⟨lead, path, tail, rfl, -, -, written, -⟩ := test.path_view
  obtain ⟨others, rfl⟩ := Chain.cons written
  simp

/-- A test is found where it is looked for in its own form, and nowhere else. -/
theorem scan_append (test : Test form atom text) (other : Form) (separate : Separate text rest)
    (next : next? rest ≠ some '(') :
    scan other.reader 0 (text ++ rest) =
      (if form = other then [atom] else []) ++ scan other.reader 0 rest := by
  by_cases same : form = other
  · subst same
    rw [scan_of_found (reader_append test separate) test.ne_nil, if_pos rfl]
    rfl
  · rw [if_neg same, List.nil_append]
    apply scan_of_passes
    rcases other.reads with reads | reads
    · exact test.passes_path reads same rest
    · exact passes_calls reads test same separate next

end Test

section Between

variable (form : Form)

theorem Form.passes_plain (noMark : '#' ∉ text) (plain : ∀ char ∈ text, isWordChar char = false)
    (rest : List Char) : Passes form.reader text rest := by
  rcases form.reads with reads | reads
  · exact reads.passes_of_not_mem noMark rest
  · exact reads.passes_plain plain rest

theorem Form.passes_blank (blanks : Blank text) (rest : List Char) :
    Passes form.reader text rest :=
  form.passes_plain (not_mem_of_blank blanks rfl)
    (fun char member => isWordChar_of_isBlank (blanks char member)) rest

/-- A word is passed if it is shorter than all names of functions, whatever comes next. -/
theorem Form.passes_short (isWord : IsWord text) (short : text.length < 4) (ends : EndsWord rest) :
    Passes form.reader text rest := by
  rcases form.reads with reads | reads
  · exact reads.passes_of_not_mem (not_mem_of_isWord isWord.2 rfl) rest
  · exact reads.passes_word isWord.2 ends
      (Or.inr (Form.not_suffix_of_length short))

end Between

/-- The atoms of one form among tests. -/
def Form.atoms (form : Form) (tests : List (Form × Atom)) : List Atom :=
  (tests.filter fun test => test.1 = form).map Prod.snd

theorem Form.atoms_singleton (form own : Form) (atom : Atom) :
    form.atoms [(own, atom)] = if own = form then [atom] else [] := by
  by_cases same : own = form <;> simp [atoms, same]

theorem Form.atoms_append (form : Form) (first second : List (Form × Atom)) :
    form.atoms (first ++ second) = form.atoms first ++ form.atoms second := by
  rw [atoms, List.filter_append, List.map_append, atoms, atoms]

theorem Written.ne_nil {tests : List (Form × Atom)} (written : Written tests text) : text ≠ [] := by
  induction written with
  | test test => exact test.ne_nil
  | negation isNot blanks separate written inside =>
    intro empty
    exact inside (List.append_eq_nil_iff.mp (List.append_eq_nil_iff.mp empty).2).2
  | joined known left before isWord after right separateLeft separateRight leftInside rightInside =>
    intro empty
    exact leftInside (List.append_eq_nil_iff.mp empty).1
  | grouped before written after inside => simp

theorem isWord_connective {connective : String} {word : List Char}
    (known : connective ∈ ["AND", "OR"]) (keyword : Keyword connective word) :
    IsWord word ∧ word.length < 4 := by
  rw [keyword.length_eq]
  simp only [List.mem_cons, List.not_mem_nil, or_false] at known
  rcases known with rfl | rfl
  · exact ⟨keyword.isWord (by decide), by decide⟩
  · exact ⟨keyword.isWord (by decide), by decide⟩

/-- In the text, with what comes behind it, the tests of one form are found and nothing else. No
parenthesis may come behind, since the last word of the text would be taken for a function. -/
def Scans (form : Form) (tests : List (Form × Atom)) (text : List Char) : Prop :=
  ∀ rest, Separate text rest → next? rest ≠ some '(' →
    scan form.reader 0 (text ++ rest) = form.atoms tests ++ scan form.reader 0 rest

section Steps

variable {form : Form} {tests : List (Form × Atom)}

theorem Test.scans {own : Form} {atom : Atom} (test : Test own atom text) :
    Scans form [(own, atom)] text := by
  intro rest separate next
  rw [test.scan_append form separate next, form.atoms_singleton]

theorem Scans.negation {not_ blank : List Char} (scans : Scans form tests text)
    (nonempty : text ≠ []) (isNot : Keyword "NOT" not_) (blanks : Blank blank)
    (apart : Separate not_ (blank ++ text)) : Scans form tests (not_ ++ (blank ++ text)) := by
  intro rest separate next
  have isWord : IsWord not_ := isNot.isWord (by decide)
  have short : not_.length < 4 := by
    rw [isNot.length_eq]
    decide
  have joint : blank ++ text ≠ [] := fun empty => nonempty (List.append_eq_nil_iff.mp empty).2
  have suffix : text <:+ not_ ++ (blank ++ text) := ⟨not_ ++ blank, by simp⟩
  have ends := (apart.append joint rest).endsWord isWord
  rw [List.append_assoc, scan_of_passes (form.passes_short isWord short ends), List.append_assoc,
    scan_of_passes (form.passes_blank blanks _)]
  exact scans rest (separate.of_suffix suffix) next

theorem Scans.joined {first second : List (Form × Atom)} {connective : String}
    {left before word after right : List Char} (leftScans : Scans form first left)
    (rightScans : Scans form second right) (nonempty : right ≠ [])
    (known : connective ∈ ["AND", "OR"]) (keyword : Keyword connective word)
    (blankBefore : Blank before) (blankAfter : Blank after)
    (leftApart : Separate left (before ++ word)) (rightApart : Separate word (after ++ right)) :
    Scans form (first ++ second) (left ++ (before ++ (word ++ (after ++ right)))) := by
  intro rest separate next
  obtain ⟨isWord, short⟩ := isWord_connective known keyword
  have leftJoint : before ++ word ≠ [] := fun empty => isWord.1 (List.append_eq_nil_iff.mp empty).2
  have rightJoint : after ++ right ≠ [] := fun empty => nonempty (List.append_eq_nil_iff.mp empty).2
  have suffix : right <:+ left ++ (before ++ (word ++ (after ++ right))) :=
    ⟨left ++ (before ++ (word ++ after)), by simp⟩
  have ends := (rightApart.append rightJoint rest).endsWord isWord
  have apart := leftApart.append leftJoint (after ++ right ++ rest)
  have unopened : next? (before ++ (word ++ (after ++ right ++ rest))) ≠ some '(' := by
    rw [next?_append blankBefore]
    exact next?_word_ne isWord rfl _
  have whole : left ++ (before ++ (word ++ (after ++ right))) ++ rest =
      left ++ (before ++ (word ++ (after ++ right ++ rest))) := by simp
  rw [List.append_assoc] at apart
  rw [whole, leftScans _ apart unopened, scan_of_passes (form.passes_blank blankBefore _),
    scan_of_passes (form.passes_short isWord short ends), List.append_assoc,
    scan_of_passes (form.passes_blank blankAfter _),
    rightScans rest (separate.of_suffix suffix) next, form.atoms_append, List.append_assoc]

theorem scan_parenthesis {char : Char} (known : char = '(' ∨ char = ')') (rest : List Char) :
    scan form.reader 0 (char :: rest) = scan form.reader 0 rest := by
  have passed : Passes form.reader [char] rest := by
    rcases known with rfl | rfl
    · exact form.passes_plain (by decide) (List.forall_mem_singleton.mpr rfl) rest
    · exact form.passes_plain (by decide) (List.forall_mem_singleton.mpr rfl) rest
  exact scan_of_passes passed

theorem Scans.grouped {before after : List Char} (scans : Scans form tests text)
    (blankBefore : Blank before) (blankAfter : Blank after) :
    Scans form tests ('(' :: (before ++ (text ++ (after ++ [')'])))) := by
  intro rest separate next
  have closes : EndsWord (after ++ (')' :: rest)) :=
    endsWord_append_blank blankAfter (Expression.endsWord_cons rfl rest)
  have closed : next? (after ++ (')' :: rest)) ≠ some '(' := by
    rw [next?_append blankAfter, next?_cons rfl]
    decide
  have whole : '(' :: (before ++ (text ++ (after ++ [')']))) ++ rest =
      '(' :: (before ++ (text ++ (after ++ (')' :: rest)))) := by simp
  rw [whole, scan_parenthesis (Or.inl rfl), scan_of_passes (form.passes_blank blankBefore _),
    scans _ (fun _ _ _ => closes) closed, scan_of_passes (form.passes_blank blankAfter _),
    scan_parenthesis (Or.inr rfl)]

theorem Written.scans (written : Written tests text) (form : Form) : Scans form tests text := by
  induction written with
  | test test => exact test.scans
  | negation isNot blanks apart written inside =>
    exact inside.negation written.ne_nil isNot blanks apart
  | joined known left before keyword after right leftApart rightApart leftInside rightInside =>
    exact leftInside.joined rightInside right.ne_nil known keyword before after leftApart rightApart
  | grouped before written after inside => exact inside.grouped before after

end Steps

end RecordMerge.Condition

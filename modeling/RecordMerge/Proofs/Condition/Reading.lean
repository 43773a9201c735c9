import RecordMerge.Proofs.Condition.Syntax

/-! Reading a test where it stands. What comes behind a lexeme is part of each statement, since a
reader takes as much as it can. -/

set_option autoImplicit false

namespace RecordMerge.Condition

open Expression (EndsWord IsWord takeWhile_append_endsWord takeWhile_word)
open Placeholder (isWordChar)

variable {rest : List Char}

theorem word?_append {word : List Char} (isWord : IsWord word) (ends : EndsWord rest) :
    word? (word ++ rest) = some (word, rest) := by
  have longest : (word ++ rest).takeWhile isWordChar = word := by
    rw [takeWhile_append_endsWord word ends, takeWhile_word isWord.2]
  have remaining : (word ++ rest).dropWhile isWordChar = rest := by
    have both := List.takeWhile_append_dropWhile (p := isWordChar) (l := word ++ rest)
    rw [longest] at both
    exact List.append_cancel_left both
  unfold word?
  rw [longest, remaining]
  split
  · exact absurd rfl isWord.1
  · rfl

theorem segment?_append {word : List Char} (isWord : IsWord word) (ends : EndsWord rest) :
    segment? ('#' :: (word ++ rest)) = some (word, rest) :=
  word?_append isWord ends

theorem token?_append {word : List Char} (isWord : IsWord word) (ends : EndsWord rest) :
    token? (':' :: (word ++ rest)) = some (word, rest) :=
  word?_append isWord ends

theorem literal?_append (expected rest : List Char) :
    literal? expected (expected ++ rest) = some rest := by
  simp [literal?]

theorem literal?_single (char : Char) (rest : List Char) :
    literal? [char] (char :: rest) = some rest :=
  literal?_append [char] rest

theorem keyword?_append {capitals : String} {text : List Char} (keyword : Keyword capitals text)
    (rest : List Char) : keyword? capitals.toList (text ++ rest) = some rest := by
  have length : capitals.toList.length = text.length := by
    rw [String.length_toList, keyword.length_eq]
  unfold keyword?
  rw [length, List.take_left, List.drop_left]
  exact if_pos keyword

theorem blanks?_append {blank : List Char} (blanks : Blank blank) (nonempty : blank ≠ [])
    (rest : List Char) : blanks? (blank ++ rest) = some (skipBlanks rest) := by
  cases blank with
  | nil => exact absurd rfl nonempty
  | cons char blank =>
    obtain ⟨first, others⟩ := List.forall_mem_cons.mp blanks
    rw [List.cons_append, blanks?, if_pos first, skipBlanks_append others]

/-- A comparator is read to its end, as nothing that could continue it comes behind it. -/
theorem comparator?_append {operator : String} (known : operator ∈ comparators)
    (ends : ∀ char, rest.head? = some char → char ≠ '=' ∧ char ≠ '>') :
    comparator? (operator.toList ++ rest) = some rest := by
  have plain (first : Char) (single : first = '<' ∨ first = '>') :
      comparator? (first :: rest) = some rest := by
    cases rest with
    | nil => rcases single with rfl | rfl <;> rfl
    | cons char others =>
      obtain ⟨noEqual, noGreater⟩ := ends char rfl
      rcases single with rfl | rfl <;> simp [comparator?, noEqual, noGreater]
  simp only [comparators, List.mem_cons, List.not_mem_nil, or_false] at known
  rcases known with rfl | rfl | rfl | rfl | rfl | rfl
  · rfl
  · rfl
  · exact plain '<' (Or.inl rfl)
  · rfl
  · exact plain '>' (Or.inr rfl)
  · rfl

section Chains

variable {mark separator : Char} {part : List Char → Option (List Char × List Char)}
  (reads : ∀ word rest, IsWord word → EndsWord rest →
    part (mark :: (word ++ rest)) = some (word, rest))
  (markPlain : isBlank mark = false) (separatorPlain : isBlank separator = false)
  (separatorEnds : isWordChar separator = false)

theorem Chain.cons {words : List (List Char)} {text : List Char}
    (chain : Chain mark separator words text) : ∃ others, text = mark :: others := by
  cases chain with
  | one isWord => exact ⟨_, rfl⟩
  | more isWord before after others => exact ⟨_, rfl⟩

theorem Chain.length_le {words : List (List Char)} {text : List Char}
    (chain : Chain mark separator words text) : words.length ≤ text.length := by
  induction chain with
  | one isWord => simp
  | more isWord before after others tail =>
    simp only [List.length_cons, List.length_append]
    omega

theorem links_eq_nil (limit : Nat) (stops : next? rest ≠ some separator) :
    links separator part limit rest = ([], rest) := by
  cases limit with
  | zero => rfl
  | succ limit =>
    have none : link? separator part rest = none := by
      unfold link?
      unfold next? at stops
      split
      · next char others found =>
        rw [found] at stops
        exact if_neg fun same => stops (congrArg some same)
      · rfl
    rw [links, none]

include reads markPlain separatorPlain separatorEnds

-- The induction is on the chain. A word is read to its end because blanks, or the separator, stand
-- behind it.
theorem links_of_chain {words : List (List Char)} {before after text : List Char} {limit : Nat}
    (blankBefore : Blank before) (blankAfter : Blank after)
    (chain : Chain mark separator words text) (ends : EndsWord rest)
    (stops : next? rest ≠ some separator) (enough : words.length ≤ limit) :
    links separator part limit (before ++ (separator :: (after ++ (text ++ rest)))) =
      (words, rest) := by
  induction chain generalizing before after limit with
  | @one word isWord =>
    cases limit with
    | zero => simp at enough
    | succ limit =>
      have first : link? separator part
          (before ++ (separator :: (after ++ (mark :: word ++ rest)))) = some (word, rest) := by
        unfold link?
        rw [skipBlanks_append blankBefore, skipBlanks_cons separatorPlain]
        simp only [if_true]
        rw [skipBlanks_append blankAfter, List.cons_append, skipBlanks_cons markPlain]
        exact reads word rest isWord ends
      simp only [links, first, links_eq_nil limit stops]
  | @more word blank following words text isWord blanks followingBlanks chain tail =>
    cases limit with
    | zero => simp at enough
    | succ limit =>
      have wordEnds : EndsWord (blank ++ (separator :: (following ++ (text ++ rest)))) :=
        endsWord_append_blank blanks (Expression.endsWord_cons separatorEnds _)
      have first : link? separator part (before ++ (separator :: (after ++
          (mark :: (word ++ (blank ++ (separator :: (following ++ text)))) ++ rest)))) =
            some (word, blank ++ (separator :: (following ++ (text ++ rest)))) := by
        unfold link?
        rw [skipBlanks_append blankBefore, skipBlanks_cons separatorPlain]
        simp only [if_true]
        rw [skipBlanks_append blankAfter, List.cons_append, skipBlanks_cons markPlain]
        simp only [List.append_assoc, List.cons_append]
        exact reads word _ isWord wordEnds
      have within : words.length ≤ limit := by simpa using enough
      simp only [links, first, tail blanks followingBlanks within]

theorem parts?_of_chain {words : List (List Char)} {text : List Char}
    (chain : Chain mark separator words text) (ends : EndsWord rest)
    (stops : next? rest ≠ some separator) :
    parts? separator part (text ++ rest) = some (words, rest) := by
  cases chain with
  | @one word isWord =>
    have first := reads word rest isWord ends
    simp only [parts?, List.cons_append, first, Option.bind_eq_bind, Option.bind_some,
      links_eq_nil rest.length stops]
  | @more word blank following words text isWord blanks followingBlanks chain =>
    have wordEnds : EndsWord (blank ++ (separator :: (following ++ (text ++ rest)))) :=
      endsWord_append_blank blanks (Expression.endsWord_cons separatorEnds _)
    have first := reads word _ isWord wordEnds
    have enough : words.length ≤ (blank ++ (separator :: (following ++ (text ++ rest)))).length := by
      have least := chain.length_le
      simp only [List.length_append, List.length_cons]
      omega
    have others := links_of_chain reads markPlain separatorPlain separatorEnds blanks
      followingBlanks chain ends stops enough
    simp only [parts?, List.cons_append, List.append_assoc, first, Option.bind_eq_bind,
      Option.bind_some, others]

end Chains

theorem path?_append {segments : List (List Char)} {path : List Char} (written : Path segments path)
    (ends : EndsWord rest) (stops : next? rest ≠ some '.') :
    path? (path ++ rest) = some (segments, rest) :=
  parts?_of_chain (fun _ _ => segment?_append) rfl rfl rfl written ends stops

theorem values?_append {tokens : List (List Char)} {values : List Char}
    (written : Values tokens values) (ends : EndsWord rest) (stops : next? rest ≠ some ',') :
    parts? ',' token? (values ++ rest) = some (tokens, rest) :=
  parts?_of_chain (fun _ _ => token?_append) rfl rfl rfl written ends stops

theorem argument?_append {tokens : List (List Char)} {argument : List Char}
    (written : Argument tokens argument) (rest : List Char) :
    argument? (argument ++ (')' :: rest)) = some (tokens, ')' :: rest) := by
  cases written with
  | none => rfl
  | @some before after token blankBefore blankAfter isWord =>
    have ends : EndsWord (after ++ (')' :: rest)) :=
      endsWord_append_blank blankAfter (Expression.endsWord_cons rfl _)
    have read := token?_append isWord ends
    simp only [argument?, List.cons_append, List.append_assoc, skipBlanks_append blankBefore,
      skipBlanks_cons (show isBlank ':' = false from rfl), read, Option.bind_eq_bind,
      Option.bind_some, skipBlanks_append blankAfter,
      skipBlanks_cons (show isBlank ')' = false from rfl)]

/-- Where blanks are followed by a plain character, that is the next one. -/
theorem skipBlanks_blank_cons {blank : List Char} (blanks : Blank blank) {char : Char}
    (plain : isBlank char = false) (rest : List Char) :
    skipBlanks (blank ++ (char :: rest)) = char :: rest := by
  rw [skipBlanks_append blanks, skipBlanks_cons plain]

theorem comparators_cons {operator : String} (known : operator ∈ comparators) :
    ∃ first others, operator.toList = first :: others ∧ isBlank first = false ∧
      isWordChar first = false ∧ first ≠ '.' := by
  simp only [comparators, List.mem_cons, List.not_mem_nil, or_false] at known
  rcases known with rfl | rfl | rfl | rfl | rfl | rfl <;> exact ⟨_, _, rfl, rfl, rfl, by decide⟩

/-- The comparator and the value behind the left side of a comparison. -/
theorem compared_append {operator : String} {first second token : List Char}
    (known : operator ∈ comparators) (blankFirst : Blank first) (blankSecond : Blank second)
    (isWord : IsWord token) (ends : EndsWord rest) :
    (do
      let behind ← comparator?
        (skipBlanks (first ++ (operator.toList ++ (second ++ (':' :: (token ++ rest))))))
      token? (skipBlanks behind)) = some (token, rest) := by
  obtain ⟨char, others, spelt, plain, -, -⟩ := comparators_cons known
  have kept : skipBlanks (first ++ (operator.toList ++ (second ++ (':' :: (token ++ rest))))) =
      operator.toList ++ (second ++ (':' :: (token ++ rest))) := by
    rw [spelt, List.cons_append, skipBlanks_blank_cons blankFirst plain]
  have following (char : Char)
      (head : (second ++ (':' :: (token ++ rest))).head? = some char) :
      char ≠ '=' ∧ char ≠ '>' := by
    cases second with
    | nil =>
      cases head
      decide
    | cons blank second =>
      cases head
      have isBlank := blankSecond char List.mem_cons_self
      constructor <;> rintro rfl <;> cases isBlank
  rw [kept, comparator?_append known following]
  simp only [Option.bind_eq_bind, Option.bind_some,
    skipBlanks_blank_cons blankSecond (show isBlank ':' = false from rfl)]
  exact token?_append isWord ends

/-- A path is read up to the character that comes next, which must not continue it. -/
theorem path?_append_next {segments : List (List Char)} {path blank others : List Char} {char : Char}
    (written : Path segments path) (blanks : Blank blank) (plain : isBlank char = false)
    (separates : blank ≠ [] ∨ isWordChar char = false) (stops : char ≠ '.') :
    path? (path ++ (blank ++ (char :: others))) = some (segments, blank ++ (char :: others)) := by
  apply path?_append written
  · rcases separates with nonempty | noWord
    · exact endsWord_of_blank blanks nonempty _
    · exact endsWord_append_blank blanks (Expression.endsWord_cons noWord others)
  · rw [next?_append blanks, next?_cons plain]
    exact fun same => stops (Option.some.inj same)

/-- No function is the beginning of another one. -/
theorem function?_append {function : String} (known : function ∈ functions) (rest : List Char) :
    functions.findSome? (fun other => literal? other.toList (function.toList ++ rest)) =
      some rest := by
  simp only [functions, List.mem_cons, List.not_mem_nil, or_false] at known
  rcases known with rfl | rfl | rfl | rfl | rfl <;> rfl

theorem skipBlanks_chain {mark separator : Char} {blank text : List Char}
    {words : List (List Char)} (blanks : Blank blank) (chain : Chain mark separator words text)
    (plain : isBlank mark = false) (rest : List Char) :
    skipBlanks (blank ++ (text ++ rest)) = text ++ rest := by
  obtain ⟨others, rfl⟩ := chain.cons
  rw [List.cons_append, skipBlanks_blank_cons blanks plain]

theorem skipBlanks_word {word : List Char} (isWord : IsWord word) (rest : List Char) :
    skipBlanks (word ++ rest) = word ++ rest := by
  obtain ⟨nonempty, chars⟩ := isWord
  cases word with
  | nil => exact absurd rfl nonempty
  | cons char word => exact skipBlanks_cons (isBlank_of_isWordChar (chars char List.mem_cons_self)) _

theorem next?_word_ne {word : List Char} (isWord : IsWord word) {char : Char}
    (plain : isWordChar char = false) (rest : List Char) : next? (word ++ rest) ≠ some char := by
  rw [next?, skipBlanks_word isWord]
  obtain ⟨nonempty, chars⟩ := isWord
  cases word with
  | nil => exact absurd rfl nonempty
  | cons first word =>
    intro same
    cases same
    rw [chars char List.mem_cons_self] at plain
    cases plain

/-- A path is read up to a word that stands behind it. -/
theorem path?_append_word {segments : List (List Char)} {path blank word : List Char}
    (written : Path segments path) (blanks : Blank blank) (nonempty : blank ≠ [])
    (isWord : IsWord word) (rest : List Char) :
    path? (path ++ (blank ++ (word ++ rest))) = some (segments, blank ++ (word ++ rest)) := by
  apply path?_append written (endsWord_of_blank blanks nonempty _)
  rw [next?_append blanks]
  exact next?_word_ne isWord rfl rest

section Tests

variable {segments tokens : List (List Char)}

theorem comparison?_append {path first second token : List Char} {operator : String}
    (written : Path segments path) (blankFirst : Blank first) (known : operator ∈ comparators)
    (blankSecond : Blank second) (isWord : IsWord token) (ends : EndsWord rest) :
    comparison? (path ++ (first ++ (operator.toList ++ (second ++ (':' :: token)))) ++ rest) =
      some (⟨segments, [token]⟩, rest) := by
  have compared := compared_append known blankFirst blankSecond isWord ends
  obtain ⟨char, others, spelt, plain, noWord, noDot⟩ := comparators_cons known
  rw [spelt] at compared ⊢
  simp only [comparison?, List.append_assoc, List.cons_append] at compared ⊢
  rw [path?_append_next written blankFirst plain (Or.inr noWord) noDot]
  simp only [Option.bind_eq_bind, Option.bind_some] at compared ⊢
  rw [← Option.bind_assoc, compared]
  rfl

theorem sizeComparison?_append {path first second third fourth fifth token : List Char}
    {operator : String} (blankFirst : Blank first) (blankSecond : Blank second)
    (written : Path segments path) (blankThird : Blank third) (blankFourth : Blank fourth)
    (known : operator ∈ comparators) (blankFifth : Blank fifth) (isWord : IsWord token)
    (ends : EndsWord rest) :
    sizeComparison? ("size".toList ++ (first ++ ('(' :: (second ++ (path ++ (third ++ (')' ::
      (fourth ++ (operator.toList ++ (fifth ++ (':' :: token)))))))))) ++ rest) =
        some (⟨segments, [token]⟩, rest) := by
  have compared := compared_append known blankFourth blankFifth isWord ends
  simp only [sizeComparison?, List.append_assoc, List.cons_append,
    Option.bind_eq_bind] at compared ⊢
  rw [literal?_append, Option.bind_some, skipBlanks_blank_cons blankFirst rfl,
    literal?_single, Option.bind_some, skipBlanks_chain blankSecond written rfl,
    path?_append_next written blankThird rfl (Or.inr rfl) (by decide), Option.bind_some]
  dsimp only
  rw [skipBlanks_blank_cons blankThird rfl, literal?_single, Option.bind_some,
    ← Option.bind_assoc, compared]
  rfl

/-- What comes behind the path of a call cannot continue the path. -/
theorem argument_cons {argument : List Char} (given : Argument tokens argument)
    (rest : List Char) : ∃ char others, argument ++ (')' :: rest) = char :: others ∧
      isBlank char = false ∧ isWordChar char = false ∧ char ≠ '.' := by
  cases given with
  | none => exact ⟨_, _, rfl, rfl, rfl, by decide⟩
  | some => exact ⟨_, _, rfl, rfl, rfl, by decide⟩

theorem call?_append {path first second third argument : List Char} {function : String}
    (known : function ∈ functions) (blankFirst : Blank first) (blankSecond : Blank second)
    (written : Path segments path) (blankThird : Blank third) (given : Argument tokens argument)
    (rest : List Char) :
    call? (function.toList ++ (first ++ ('(' :: (second ++ (path ++ (third ++
      (argument ++ [')'])))))) ++ rest) = some (⟨segments, tokens⟩, rest) := by
  have read := argument?_append given rest
  obtain ⟨char, others, spelt, plain, noWord, noDot⟩ := argument_cons given rest
  simp only [call?, List.append_assoc, List.cons_append, List.nil_append, Option.bind_eq_bind]
  rw [function?_append known, Option.bind_some, skipBlanks_blank_cons blankFirst rfl,
    literal?_single, Option.bind_some, skipBlanks_chain blankSecond written rfl, spelt,
    path?_append_next written blankThird plain (Or.inr noWord) noDot, Option.bind_some]
  dsimp only
  rw [skipBlanks_blank_cons blankThird plain, ← spelt, read, Option.bind_some]
  dsimp only
  rw [literal?_single]
  rfl

theorem between?_append {path first second third fourth low high between_ and_ : List Char}
    (written : Path segments path) (blankFirst : Blank first) (someFirst : first ≠ [])
    (isBetween : Keyword "BETWEEN" between_) (blankSecond : Blank second) (someSecond : second ≠ [])
    (isLow : IsWord low) (blankThird : Blank third) (someThird : third ≠ [])
    (isAnd : Keyword "AND" and_) (blankFourth : Blank fourth) (someFourth : fourth ≠ [])
    (isHigh : IsWord high) (ends : EndsWord rest) :
    between? (path ++ (first ++ (between_ ++ (second ++ (':' :: (low ++ (third ++ (and_ ++
      (fourth ++ (':' :: high))))))))) ++ rest) = some (⟨segments, [low, high]⟩, rest) := by
  have between : IsWord between_ := isBetween.isWord (by decide)
  have connective : IsWord and_ := isAnd.isWord (by decide)
  have lowRead := token?_append isLow (endsWord_of_blank blankThird someThird
    (and_ ++ (fourth ++ (':' :: (high ++ rest)))))
  simp only [between?, List.append_assoc, List.cons_append, Option.bind_eq_bind]
  rw [path?_append_word written blankFirst someFirst between, Option.bind_some]
  dsimp only
  rw [blanks?_append blankFirst someFirst, Option.bind_some, skipBlanks_word between,
    keyword?_append isBetween, Option.bind_some, blanks?_append blankSecond someSecond,
    Option.bind_some, skipBlanks_cons rfl, lowRead, Option.bind_some]
  dsimp only
  rw [blanks?_append blankThird someThird, Option.bind_some, skipBlanks_word connective,
    keyword?_append isAnd, Option.bind_some, blanks?_append blankFourth someFourth,
    Option.bind_some, skipBlanks_cons rfl, token?_append isHigh ends]
  rfl

theorem membership?_append {path first second third fourth in_ values : List Char}
    (written : Path segments path) (blankFirst : Blank first) (someFirst : first ≠ [])
    (isIn : Keyword "IN" in_) (blankSecond : Blank second) (blankThird : Blank third)
    (listed : Values tokens values) (blankFourth : Blank fourth) (rest : List Char) :
    membership? (path ++ (first ++ (in_ ++ (second ++ ('(' :: (third ++ (values ++
      (fourth ++ [')']))))))) ++ rest) = some (⟨segments, tokens⟩, rest) := by
  have inside : IsWord in_ := isIn.isWord (by decide)
  have closes : EndsWord (fourth ++ (')' :: rest)) :=
    endsWord_append_blank blankFourth (Expression.endsWord_cons rfl _)
  have stops : next? (fourth ++ (')' :: rest)) ≠ some ',' := by
    rw [next?_append blankFourth, next?_cons rfl]
    decide
  simp only [membership?, List.append_assoc, List.cons_append, List.nil_append,
    Option.bind_eq_bind]
  rw [path?_append_word written blankFirst someFirst inside, Option.bind_some]
  dsimp only
  rw [blanks?_append blankFirst someFirst, Option.bind_some, skipBlanks_word inside,
    keyword?_append isIn, Option.bind_some, skipBlanks_blank_cons blankSecond rfl,
    literal?_single, Option.bind_some, skipBlanks_chain blankThird listed rfl,
    values?_append listed closes stops, Option.bind_some]
  dsimp only
  rw [skipBlanks_blank_cons blankFourth rfl, literal?_single]
  rfl

end Tests

-- Only a test that ends in a token depends on what comes behind it.
/-- The tests of each form are read as a whole, up to what comes behind them. -/
theorem reader_append {form : Form} {atom : Atom} {text : List Char} (test : Test form atom text)
    (separate : Separate text rest) : form.reader (text ++ rest) = some (atom, rest) := by
  cases test with
  | @comparison segments path first second token operator written blankFirst known blankSecond
      isWord =>
    have ends := separate.endsWord_last (path ++ (first ++ (operator.toList ++ (second ++ [':']))))
      (by simp) isWord
    exact comparison?_append written blankFirst known blankSecond isWord ends
  | @size segments path first second third fourth fifth token operator blankFirst blankSecond
      written blankThird blankFourth known blankFifth isWord =>
    have ends := separate.endsWord_last ("size".toList ++ (first ++ ('(' :: (second ++ (path ++
      (third ++ (')' :: (fourth ++ (operator.toList ++ (fifth ++ [':']))))))))))
      (by simp) isWord
    exact sizeComparison?_append blankFirst blankSecond written blankThird blankFourth known
      blankFifth isWord ends
  | call known blankFirst blankSecond written blankThird given =>
    exact call?_append known blankFirst blankSecond written blankThird given rest
  | @between segments path first second third fourth low high between_ and_ written blankFirst
      someFirst isBetween blankSecond someSecond isLow blankThird someThird isAnd blankFourth
      someFourth isHigh =>
    have ends := separate.endsWord_last (path ++ (first ++ (between_ ++ (second ++ (':' :: (low ++
      (third ++ (and_ ++ (fourth ++ [':']))))))))) (by simp) isHigh
    exact between?_append written blankFirst someFirst isBetween blankSecond someSecond isLow
      blankThird someThird isAnd blankFourth someFourth isHigh ends
  | membership written blankFirst someFirst isIn blankSecond blankThird listed blankFourth =>
    exact membership?_append written blankFirst someFirst isIn blankSecond blankThird listed
      blankFourth rest

end RecordMerge.Condition

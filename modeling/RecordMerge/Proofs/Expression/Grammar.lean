import RecordMerge.Proofs.Expression.Token
import RecordMerge.Update

/-! The grammar of update expressions. A text is an expression of at most one list of assignments,
and its tokens are the placeholders of these. -/

set_option autoImplicit false

namespace RecordMerge.Expression

open Placeholder (isWordChar)

/-- Placeholders of names with points between them. -/
inductive PathText : List String → List Char → Prop where
  | single {word : List Char} : IsWord word → PathText [String.ofList ('#' :: word)] ('#' :: word)
  | link {word text : List Char} {path : List String} : IsWord word → PathText path text →
      PathText (String.ofList ('#' :: word) :: path) ('#' :: word ++ '.' :: text)

/-- A numbered placeholder of a value. -/
inductive ValueText : String → List Char → Prop where
  | numbered {digits : List Char} : digits ≠ [] → (∀ digit ∈ digits, digit.isDigit = true) →
      ValueText (":value" ++ String.ofList digits) (":value".toList ++ digits)

/-- `path = value`, or `path = if_not_exists(path, value)` with the same path twice. -/
inductive ClauseText : Assignment → List Char → Prop where
  | put {target : List String} {value : String} {path text : List Char} :
      PathText target path → ValueText value text →
      ClauseText ⟨target, value, false⟩ (path ++ (" = ".toList ++ text))
  | keep {target : List String} {value : String} {path text : List Char} :
      PathText target path → ValueText value text →
      ClauseText ⟨target, value, true⟩
        (path ++ (" = if_not_exists(".toList ++ (path ++ (", ".toList ++ (text ++ [')'])))))

/-- Clauses with commas between them. -/
inductive ClausesText : List Assignment → List Char → Prop where
  | last {assignment : Assignment} {text : List Char} :
      ClauseText assignment text → ClausesText [assignment] text
  | more {assignment : Assignment} {rest : List Assignment} {text others : List Char} :
      ClauseText assignment text → ClausesText rest others →
      ClausesText (assignment :: rest) (text ++ (", ".toList ++ others))

/-- The text is an expression that makes the assignments. -/
def Sentence (text : String) (assignments : List Assignment) : Prop :=
  ∃ clauses, text.toList = "SET ".toList ++ clauses ∧ ClausesText assignments clauses

/-- The text continues no path that stands before it. -/
def EndsPath (rest : List Char) : Prop :=
  EndsWord rest ∧ ∀ tail, rest ≠ '.' :: tail

theorem endsPath_cons {char : Char} (plain : isWordChar char = false) (noPoint : char ≠ '.')
    (rest : List Char) : EndsPath (char :: rest) :=
  ⟨endsWord_cons plain rest, fun _ same => noPoint (List.cons.inj same).1⟩

theorem endsPath_equals (rest : List Char) : EndsPath (" = ".toList ++ rest) :=
  endsPath_cons (by decide) (by decide) _

theorem endsPath_call (rest : List Char) : EndsPath (" = if_not_exists(".toList ++ rest) :=
  endsPath_cons (by decide) (by decide) _

theorem endsPath_comma (rest : List Char) : EndsPath (", ".toList ++ rest) :=
  endsPath_cons (by decide) (by decide) _

-- Texts of the grammar are told from what follows them, one nonterminal after the other. A word
-- ends where no word goes on, a path where no word and no point follows, and a clause where no
-- word follows its last placeholder; each separator of the grammar begins with such an end.
theorem PathText.append_inj {first second : List String} {left right leftRest rightRest : List Char}
    (one : PathText first left) (two : PathText second right) (leftEnds : EndsPath leftRest)
    (rightEnds : EndsPath rightRest) (same : left ++ leftRest = right ++ rightRest) :
    first = second ∧ leftRest = rightRest := by
  induction one generalizing second right with
  | single word =>
    cases two with
    | single other =>
      obtain ⟨rfl, rest⟩ := word_append_inj word other leftEnds.1 rightEnds.1 (List.cons.inj same).2
      exact ⟨rfl, rest⟩
    | link other path =>
      simp only [List.cons_append, List.append_assoc, List.cons.injEq, true_and] at same
      obtain ⟨-, rest⟩ :=
        word_append_inj word other leftEnds.1 (endsWord_cons (by decide) _) same
      exact absurd rest (leftEnds.2 _)
  | link word path tail =>
    cases two with
    | single other =>
      simp only [List.cons_append, List.append_assoc, List.cons.injEq, true_and] at same
      obtain ⟨-, rest⟩ :=
        word_append_inj word other (endsWord_cons (by decide) _) rightEnds.1 same
      exact absurd rest.symm (rightEnds.2 _)
    | link other path =>
      simp only [List.cons_append, List.append_assoc, List.cons.injEq, true_and] at same
      obtain ⟨rfl, rest⟩ := word_append_inj word other (endsWord_cons (by decide) _)
        (endsWord_cons (by decide) _) same
      obtain ⟨rfl, rest⟩ := tail path (List.cons.inj rest).2
      exact ⟨rfl, rest⟩

theorem isWord_of_digits {digits : List Char} (some : digits ≠ [])
    (all : ∀ digit ∈ digits, digit.isDigit = true) : IsWord digits :=
  ⟨some, fun digit member => by simp [isWordChar, Char.isAlphanum, all digit member]⟩

theorem ValueText.append_inj {first second : String} {left right leftRest rightRest : List Char}
    (one : ValueText first left) (two : ValueText second right) (leftEnds : EndsWord leftRest)
    (rightEnds : EndsWord rightRest) (same : left ++ leftRest = right ++ rightRest) :
    first = second ∧ leftRest = rightRest := by
  obtain ⟨some, all⟩ := one
  obtain ⟨others, each⟩ := two
  rw [List.append_assoc, List.append_assoc] at same
  obtain ⟨rfl, rest⟩ := word_append_inj (isWord_of_digits some all) (isWord_of_digits others each)
    leftEnds rightEnds (List.append_cancel_left same)
  exact ⟨rfl, rest⟩

theorem ClauseText.append_inj {first second : Assignment}
    {left right leftRest rightRest : List Char} (one : ClauseText first left)
    (two : ClauseText second right) (leftEnds : EndsWord leftRest) (rightEnds : EndsWord rightRest)
    (same : left ++ leftRest = right ++ rightRest) : first = second ∧ leftRest = rightRest := by
  cases one with
  | put path value =>
    cases two with
    | put otherPath otherValue =>
      simp only [List.append_assoc] at same
      obtain ⟨rfl, rest⟩ := path.append_inj otherPath (endsPath_equals _) (endsPath_equals _) same
      obtain ⟨rfl, rest⟩ :=
        value.append_inj otherValue leftEnds rightEnds (List.append_cancel_left rest)
      exact ⟨rfl, rest⟩
    | keep otherPath otherValue =>
      -- Behind the same path, one text goes on with a colon and the other one with a letter.
      simp only [List.append_assoc] at same
      obtain ⟨-, rest⟩ := path.append_inj otherPath (endsPath_equals _) (endsPath_call _) same
      cases value
      simp at rest
  | keep path value =>
    cases two with
    | put otherPath otherValue =>
      simp only [List.append_assoc] at same
      obtain ⟨-, rest⟩ := path.append_inj otherPath (endsPath_call _) (endsPath_equals _) same
      cases otherValue
      simp at rest
    | keep otherPath otherValue =>
      simp only [List.append_assoc] at same
      obtain ⟨rfl, rest⟩ := path.append_inj otherPath (endsPath_call _) (endsPath_call _) same
      obtain ⟨-, rest⟩ := path.append_inj otherPath (endsPath_comma _) (endsPath_comma _)
        (List.append_cancel_left rest)
      obtain ⟨rfl, rest⟩ := value.append_inj otherValue (endsWord_cons (by decide) _)
        (endsWord_cons (by decide) _) (List.append_cancel_left rest)
      exact ⟨rfl, (List.cons.inj rest).2⟩

theorem ClausesText.inj {first second : List Assignment} {text : List Char}
    (one : ClausesText first text) (two : ClausesText second text) : first = second := by
  induction one generalizing second with
  | last clause =>
    cases two with
    | last other =>
      obtain ⟨rfl, -⟩ := clause.append_inj other endsWord_nil endsWord_nil rfl
      rfl
    | more other rest =>
      obtain ⟨-, empty⟩ := clause.append_inj other endsWord_nil (endsPath_comma _).1
        (List.append_nil _)
      cases empty
  | more clause rest tail =>
    generalize whole : _ ++ (", ".toList ++ _) = text at two
    cases two with
    | last other =>
      subst whole
      obtain ⟨-, empty⟩ := clause.append_inj other (endsPath_comma _).1 endsWord_nil
        (List.append_nil _).symm
      cases empty
    | more other others =>
      obtain ⟨rfl, same⟩ := clause.append_inj other (endsPath_comma _).1
        (endsPath_comma _).1 whole
      obtain rfl := List.append_cancel_left same
      rw [tail others]

theorem Sentence.inj {text : String} {first second : List Assignment} (one : Sentence text first)
    (two : Sentence text second) : first = second := by
  obtain ⟨clauses, whole, read⟩ := one
  obtain ⟨others, same, reread⟩ := two
  rw [whole] at same
  obtain rfl := List.append_cancel_left same
  exact read.inj reread

theorem PathText.tokens_eq {target : List String} {text : List Char} (path : PathText target text) :
    tokens '#' text = target ∧ tokens ':' text = [] := by
  induction path with
  | single word =>
    exact ⟨tokens_marked (by decide) word.2, tokens_marked_of_ne (by decide) (by decide) word.2⟩
  | link word path tail =>
    have point (others : List Char) : EndsWord ('.' :: others) := endsWord_cons (by decide) others
    rw [tokens_append _ (point _), tokens_append _ (point _), tokens_marked (by decide) word.2,
      tokens_marked_of_ne (by decide) (by decide) word.2]
    simp [tokens, tail]

theorem ValueText.tokens_eq {value : String} {text : List Char} (read : ValueText value text) :
    tokens '#' text = [] ∧ tokens ':' text = [value] := by
  obtain ⟨some, all⟩ := read
  have letters : "value".toList.all isWordChar = true := by decide
  have word : ∀ char ∈ "value".toList ++ _, isWordChar char = true :=
    List.forall_mem_append.mpr ⟨List.all_eq_true.mp letters, (isWord_of_digits some all).2⟩
  have marked : ":value".toList = ':' :: "value".toList := by decide
  rw [marked, List.cons_append, tokens_marked (by decide) word,
    tokens_marked_of_ne (by decide) (by decide) word]
  exact ⟨rfl, by rw [List.cons.injEq, ← String.toList_inj]; simp⟩

theorem ClauseText.tokens_eq {assignment : Assignment} {text : List Char}
    (clause : ClauseText assignment text) :
    (∀ token, token ∈ tokens '#' text ↔ token ∈ assignment.target) ∧
      tokens ':' text = [assignment.value] := by
  cases clause with
  | put path value =>
    rw [tokens_separated _ (endsPath_equals _).1 (by decide),
      tokens_separated _ (endsPath_equals _).1 (by decide)]
    simp [path.tokens_eq, value.tokens_eq]
  | keep path value =>
    have closed : EndsWord [')'] := endsWord_cons (by decide) _
    have plain : tokens '#' [')'] = [] ∧ tokens ':' [')'] = [] := ⟨rfl, rfl⟩
    rw [tokens_separated _ (endsPath_call _).1 (by decide),
      tokens_separated _ (endsPath_comma _).1 (by decide), tokens_append _ closed,
      tokens_separated _ (endsPath_call _).1 (by decide),
      tokens_separated _ (endsPath_comma _).1 (by decide), tokens_append _ closed]
    simp [path.tokens_eq, value.tokens_eq, plain]

theorem ClausesText.tokens_eq {assignments : List Assignment} {text : List Char}
    (clauses : ClausesText assignments text) :
    (∀ token, token ∈ tokens '#' text ↔ ∃ assignment ∈ assignments, token ∈ assignment.target) ∧
      tokens ':' text = assignments.map Assignment.value := by
  induction clauses with
  | last clause => simp [clause.tokens_eq]
  | more clause rest tail =>
    rw [tokens_separated _ (endsPath_comma _).1 (by decide),
      tokens_separated _ (endsPath_comma _).1 (by decide)]
    simp [clause.tokens_eq, tail]

/-- The name tokens of a sentence are the placeholders in its targets, the value tokens those of its
values in order. -/
theorem Sentence.tokens_eq {text : String} {assignments : List Assignment}
    (sentence : Sentence text assignments) :
    (∀ token, token ∈ tokens '#' text.toList ↔
        ∃ assignment ∈ assignments, token ∈ assignment.target) ∧
      tokens ':' text.toList = assignments.map Assignment.value := by
  obtain ⟨clauses, whole, read⟩ := sentence
  rw [whole, tokens_append_of_not_mem (by decide), tokens_append_of_not_mem (by decide)]
  exact read.tokens_eq

end RecordMerge.Expression

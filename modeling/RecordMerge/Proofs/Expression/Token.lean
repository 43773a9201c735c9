import Mathlib.Data.List.TakeWhile
import RecordMerge.Placeholder

/-! Words and tokens in a text. A token is a mark with all of the word that follows it. -/

set_option autoImplicit false

namespace RecordMerge.Expression

open Placeholder (isWordChar)

/-- A non-empty text of letters, digits and underscores. -/
def IsWord (chars : List Char) : Prop :=
  chars ≠ [] ∧ ∀ char ∈ chars, isWordChar char = true

instance (chars : List Char) : Decidable (IsWord chars) :=
  decidable_of_iff (chars ≠ [] ∧ chars.all isWordChar = true)
    (and_congr Iff.rfl List.all_eq_true)

/-- The text continues no word that stands before it. -/
def EndsWord (rest : List Char) : Prop :=
  rest.takeWhile isWordChar = []

/-- The tokens of a text from left to right: each mark with the longest word behind it. -/
def tokens (mark : Char) : List Char → List String
  | [] => []
  | char :: rest =>
    if char = mark then String.ofList (mark :: rest.takeWhile isWordChar) :: tokens mark rest
    else tokens mark rest

variable {mark : Char}

theorem endsWord_nil : EndsWord [] := rfl

theorem endsWord_cons {char : Char} (plain : isWordChar char = false) (rest : List Char) :
    EndsWord (char :: rest) := by
  simp [EndsWord, plain]

theorem takeWhile_append_endsWord (first : List Char) {second : List Char}
    (ends : EndsWord second) :
    (first ++ second).takeWhile isWordChar = first.takeWhile isWordChar := by
  rw [List.takeWhile_append, ends]
  split
  · next whole =>
    rw [List.append_nil]
    exact (List.IsPrefix.eq_of_length (List.takeWhile_prefix _) whole).symm
  · rfl

theorem takeWhile_word {word : List Char} (chars : ∀ char ∈ word, isWordChar char = true) :
    word.takeWhile isWordChar = word :=
  List.takeWhile_eq_self_iff.mpr chars

/-- A word at the start of a text is told from what follows it. -/
theorem word_append_inj {first second left right : List Char} (one : IsWord first)
    (two : IsWord second) (leftEnds : EndsWord left) (rightEnds : EndsWord right)
    (same : first ++ left = second ++ right) : first = second ∧ left = right := by
  have words := congrArg (List.takeWhile isWordChar) same
  rw [takeWhile_append_endsWord first leftEnds, takeWhile_append_endsWord second rightEnds,
    takeWhile_word one.2, takeWhile_word two.2] at words
  subst words
  exact ⟨rfl, List.append_cancel_left same⟩

-- Only a word at the end of the first text could be continued by the second one.
theorem tokens_append (first : List Char) {second : List Char} (ends : EndsWord second) :
    tokens mark (first ++ second) = tokens mark first ++ tokens mark second := by
  induction first with
  | nil => rfl
  | cons char rest tail =>
    rw [List.cons_append, tokens, tokens, takeWhile_append_endsWord rest ends, tail]
    split <;> rfl

theorem tokens_append_of_not_mem {first : List Char} (absent : mark ∉ first)
    (second : List Char) : tokens mark (first ++ second) = tokens mark second := by
  induction first with
  | nil => rfl
  | cons char rest tail =>
    simp only [List.mem_cons, not_or] at absent
    rw [List.cons_append, tokens, if_neg (Ne.symm absent.1), tail absent.2]

theorem tokens_of_not_mem {text : List Char} (absent : mark ∉ text) : tokens mark text = [] := by
  have none := tokens_append_of_not_mem absent []
  rwa [List.append_nil] at none

theorem tokens_separated (first : List Char) {separator rest : List Char}
    (ends : EndsWord (separator ++ rest)) (absent : mark ∉ separator) :
    tokens mark (first ++ (separator ++ rest)) = tokens mark first ++ tokens mark rest := by
  rw [tokens_append first ends, tokens_append_of_not_mem absent]

theorem tokens_word {word : List Char} (plain : isWordChar mark = false)
    (chars : ∀ char ∈ word, isWordChar char = true) : tokens mark word = [] := by
  apply tokens_of_not_mem
  intro member
  rw [chars mark member] at plain
  cases plain

theorem tokens_marked {word : List Char} (plain : isWordChar mark = false)
    (chars : ∀ char ∈ word, isWordChar char = true) :
    tokens mark (mark :: word) = [String.ofList (mark :: word)] := by
  rw [tokens, if_pos rfl, takeWhile_word chars, tokens_word plain chars]

theorem tokens_marked_of_ne {other : Char} {word : List Char} (plain : isWordChar mark = false)
    (differs : other ≠ mark) (chars : ∀ char ∈ word, isWordChar char = true) :
    tokens mark (other :: word) = [] := by
  rw [tokens, if_neg differs, tokens_word plain chars]

theorem tokens_subset_of_suffix {text rest : List Char} (suffix : rest <:+ text) :
    tokens mark rest ⊆ tokens mark text := by
  obtain ⟨before, rfl⟩ := suffix
  induction before with
  | nil => exact fun _ member => member
  | cons char before tail =>
    intro token member
    rw [List.cons_append, tokens]
    split
    · exact List.mem_cons_of_mem _ (tail member)
    · exact tail member

end RecordMerge.Expression

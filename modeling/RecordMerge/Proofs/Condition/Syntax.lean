import RecordMerge.Condition
import RecordMerge.Proofs.Expression.Token

/-! The syntax of conditions. Tests are joined by connectives and grouped by parentheses; blanks may
stand between any two lexemes, and must stand where two words would join. -/

set_option autoImplicit false

namespace RecordMerge.Condition

open Expression (EndsWord IsWord)
open Placeholder (isWordChar)

/-- A run of blanks, which may be empty. -/
def Blank (text : List Char) : Prop :=
  ∀ char ∈ text, isBlank char = true

instance (text : List Char) : Decidable (Blank text) :=
  decidable_of_iff (text.all isBlank = true) List.all_eq_true

/-- No word goes on from the one text into the other. -/
def Separate (left right : List Char) : Prop :=
  ∀ last, left.getLast? = some last → isWordChar last = true → EndsWord right

/-- A word in any letter case, given in capitals. -/
def Keyword (capitals : String) (text : List Char) : Prop :=
  text.map Char.toUpper = capitals.toList

instance (capitals : String) (text : List Char) : Decidable (Keyword capitals text) :=
  inferInstanceAs (Decidable (text.map Char.toUpper = capitals.toList))

/-- Marked words with a separator between any two of them. -/
inductive Chain (mark separator : Char) : List (List Char) → List Char → Prop where
  | one {word : List Char} : IsWord word → Chain mark separator [word] (mark :: word)
  | more {word before after : List Char} {words : List (List Char)} {rest : List Char} :
      IsWord word → Blank before → Blank after → Chain mark separator words rest →
      Chain mark separator (word :: words)
        (mark :: (word ++ (before ++ (separator :: (after ++ rest)))))

/-- An attribute path, and a list of values. -/
abbrev Path := Chain '#' '.'

abbrev Values := Chain ':' ','

def comparators : List String := ["=", "<>", "<", "<=", ">", ">="]

/-- The second argument of a function. -/
inductive Argument : List (List Char) → List Char → Prop where
  | none : Argument [] []
  | some {before after token : List Char} : Blank before → Blank after → IsWord token →
      Argument [token] (',' :: (before ++ (':' :: (token ++ after))))

/-- The forms of a test. -/
inductive Form where
  | comparison
  | size
  | call
  | between
  | membership
  deriving DecidableEq

/-- How the tests of a form are looked for. -/
def Form.reader : Form → List Char → Option (Atom × List Char)
  | .comparison => comparison?
  | .size => sizeComparison?
  | .call => call?
  | .between => between?
  | .membership => membership?

/-- Tests with their texts. -/
inductive Test : Form → Atom → List Char → Prop where
  | comparison {segments : List (List Char)} {path first second token : List Char}
      {operator : String} :
      Path segments path → Blank first → operator ∈ comparators → Blank second → IsWord token →
      Test .comparison ⟨segments, [token]⟩
        (path ++ (first ++ (operator.toList ++ (second ++ (':' :: token)))))
  | size {segments : List (List Char)} {path first second third fourth fifth token : List Char}
      {operator : String} :
      Blank first → Blank second → Path segments path → Blank third → Blank fourth →
      operator ∈ comparators → Blank fifth → IsWord token →
      Test .size ⟨segments, [token]⟩
        ("size".toList ++ (first ++ ('(' :: (second ++ (path ++ (third ++ (')' ::
          (fourth ++ (operator.toList ++ (fifth ++ (':' :: token)))))))))))
  | call {segments tokens : List (List Char)} {path first second third argument : List Char}
      {function : String} :
      function ∈ functions → Blank first → Blank second → Path segments path → Blank third →
      Argument tokens argument →
      Test .call ⟨segments, tokens⟩
        (function.toList ++ (first ++ ('(' :: (second ++ (path ++ (third ++ (argument ++ [')'])))))))
  | between {segments : List (List Char)}
      {path first second third fourth low high between_ and_ : List Char} :
      Path segments path → Blank first → first ≠ [] → Keyword "BETWEEN" between_ → Blank second →
      second ≠ [] → IsWord low → Blank third → third ≠ [] → Keyword "AND" and_ → Blank fourth →
      fourth ≠ [] → IsWord high →
      Test .between ⟨segments, [low, high]⟩
        (path ++ (first ++ (between_ ++ (second ++ (':' :: (low ++ (third ++ (and_ ++
          (fourth ++ (':' :: high))))))))))
  | membership {segments tokens : List (List Char)}
      {path first second third fourth in_ values : List Char} :
      Path segments path → Blank first → first ≠ [] → Keyword "IN" in_ → Blank second →
      Blank third → Values tokens values → Blank fourth →
      Test .membership ⟨segments, tokens⟩
        (path ++ (first ++ (in_ ++ (second ++ ('(' :: (third ++ (values ++ (fourth ++ [')']))))))))

/-- Conditions with their tests from left to right and their texts. -/
inductive Written : List (Form × Atom) → List Char → Prop where
  | test {form : Form} {atom : Atom} {text : List Char} :
      Test form atom text → Written [(form, atom)] text
  | negation {tests : List (Form × Atom)} {not_ blank text : List Char} :
      Keyword "NOT" not_ → Blank blank → Separate not_ (blank ++ text) → Written tests text →
      Written tests (not_ ++ (blank ++ text))
  | joined {first second : List (Form × Atom)} {connective : String}
      {left before word after right : List Char} :
      connective ∈ ["AND", "OR"] → Written first left → Blank before → Keyword connective word →
      Blank after → Written second right → Separate left (before ++ word) →
      Separate word (after ++ right) →
      Written (first ++ second) (left ++ (before ++ (word ++ (after ++ right))))
  | grouped {tests : List (Form × Atom)} {before after text : List Char} :
      Blank before → Written tests text → Blank after →
      Written tests ('(' :: (before ++ (text ++ (after ++ [')']))))

/-- The first character that is not a blank. -/
def next? (text : List Char) : Option Char :=
  (skipBlanks text).head?

section Blanks

variable {text rest : List Char}

theorem isWordChar_of_isBlank {char : Char} (blank : isBlank char = true) :
    isWordChar char = false := by
  have small : char.toNat ≤ 32 := by
    simp only [isBlank, Bool.or_eq_true, beq_iff_eq, Bool.and_eq_true, decide_eq_true_eq] at blank
    rcases blank with rfl | ⟨-, most⟩
    · decide
    · have least : char.toNat ≤ 13 := most
      omega
  have none : ∀ code ≤ 32, isWordChar (Char.ofNat code) = false := by decide
  rw [← Char.ofNat_toNat char]
  exact none _ small

theorem isBlank_of_isWordChar {char : Char} (word : isWordChar char = true) :
    isBlank char = false := by
  rw [← Bool.not_eq_true]
  intro blank
  rw [isWordChar_of_isBlank blank] at word
  cases word

theorem skipBlanks_append (blank : Blank text) (rest : List Char) :
    skipBlanks (text ++ rest) = skipBlanks rest := by
  induction text with
  | nil => rfl
  | cons char text tail =>
    obtain ⟨first, others⟩ := List.forall_mem_cons.mp blank
    rw [skipBlanks, List.cons_append, List.dropWhile_cons_of_pos first]
    exact tail others

theorem skipBlanks_cons {char : Char} (plain : isBlank char = false) (rest : List Char) :
    skipBlanks (char :: rest) = char :: rest := by
  rw [skipBlanks, List.dropWhile_cons_of_neg (by simp [plain])]

theorem next?_append (blank : Blank text) (rest : List Char) : next? (text ++ rest) = next? rest := by
  rw [next?, skipBlanks_append blank, next?]

theorem next?_cons {char : Char} (plain : isBlank char = false) (rest : List Char) :
    next? (char :: rest) = some char := by
  rw [next?, skipBlanks_cons plain, List.head?_cons]

theorem endsWord_append_blank (blank : Blank text) (ends : EndsWord rest) :
    EndsWord (text ++ rest) := by
  cases text with
  | nil => exact ends
  | cons char text =>
    exact Expression.endsWord_cons (isWordChar_of_isBlank (blank char List.mem_cons_self)) _

end Blanks

section Keywords

variable {capitals : String} {text : List Char}

theorem isWordChar_of_toUpper {char : Char} (word : isWordChar char.toUpper = true) :
    isWordChar char = true := by
  by_cases lower : char.isLower = true
  · show ((char.isUpper || char.isLower || char.isDigit) || char == '_') = true
    rw [lower, Bool.or_true, Bool.true_or, Bool.true_or]
  · have same : char.toUpper = char := by
      apply dif_neg
      rintro ⟨least, most⟩
      apply lower
      exact Bool.and_eq_true_iff.mpr ⟨decide_eq_true least, decide_eq_true most⟩
    rwa [same] at word

theorem Keyword.length_eq (keyword : Keyword capitals text) : text.length = capitals.length := by
  rw [← List.length_map Char.toUpper, keyword, String.length_toList]

/-- A word in another letter case is a word. -/
theorem Keyword.isWord (keyword : Keyword capitals text) (word : IsWord capitals.toList) :
    IsWord text := by
  constructor
  · rintro rfl
    exact word.1 keyword.symm
  · intro char member
    apply isWordChar_of_toUpper
    apply word.2
    rw [← keyword]
    exact List.mem_map_of_mem member

theorem Keyword.cons {first : Char} {rest : List Char} (keyword : Keyword capitals text)
    (spelt : capitals.toList = first :: rest) :
    ∃ char others, text = char :: others ∧ char.toUpper = first := by
  cases text with
  | nil =>
    rw [← keyword] at spelt
    cases spelt
  | cons char others =>
    rw [← keyword] at spelt
    exact ⟨char, others, rfl, (List.cons.inj spelt).1⟩

end Keywords

section Words

variable {word rest : List Char}

theorem endsWord_of_blank {blank : List Char} (blanks : Blank blank) (nonempty : blank ≠ [])
    (rest : List Char) : EndsWord (blank ++ rest) := by
  cases blank with
  | nil => exact absurd rfl nonempty
  | cons char blank =>
    exact Expression.endsWord_cons (isWordChar_of_isBlank (blanks char List.mem_cons_self)) _

theorem Separate.of_suffix {left right : List Char} (separate : Separate left rest)
    (suffix : right <:+ left) : Separate right rest := by
  obtain ⟨before, rfl⟩ := suffix
  intro last found
  apply separate last
  rw [List.getLast?_append, found, Option.some_or]

theorem Separate.append {left right : List Char} (separate : Separate left right)
    (nonempty : right ≠ []) (rest : List Char) : Separate left (right ++ rest) := by
  intro last found word
  have ends := separate last found word
  cases right with
  | nil => exact absurd rfl nonempty
  | cons char right =>
    cases plain : isWordChar char with
    | false => exact Expression.endsWord_cons plain _
    | true =>
      rw [EndsWord, List.takeWhile_cons_of_pos plain] at ends
      cases ends

/-- No word goes on behind a blank. -/
theorem separate_blank {left blank : List Char} (blanks : Blank blank) (nonempty : blank ≠ []) :
    Separate (left ++ blank) rest := by
  intro last found word
  rw [List.getLast?_append, List.getLast?_eq_some_getLast nonempty, Option.some_or] at found
  cases found
  rw [isWordChar_of_isBlank (blanks _ (List.getLast_mem nonempty))] at word
  cases word

/-- A word is told from what stands behind it. -/
theorem Separate.endsWord (separate : Separate word rest) (isWord : IsWord word) : EndsWord rest := by
  obtain ⟨nonempty, chars⟩ := isWord
  have last := List.getLast?_eq_some_getLast nonempty
  exact separate _ last (chars _ (List.getLast_mem nonempty))

theorem Separate.endsWord_last {text : List Char} (separate : Separate text rest)
    (before : List Char) (last : text = before ++ word) (isWord : IsWord word) : EndsWord rest :=
  (separate.of_suffix ⟨before, last.symm⟩).endsWord isWord

end Words

end RecordMerge.Condition

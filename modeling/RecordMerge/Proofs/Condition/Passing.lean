import Mathlib.Data.List.Infix
import RecordMerge.Proofs.Condition.Reading

/-! Passing over text in search of the tests of one form. Three forms are found by the path they
begin with and by the character behind it, the other two by the name of a function and the
parenthesis behind it. Nothing else in a condition looks like either of these. -/

set_option autoImplicit false

namespace RecordMerge.Condition

open Expression (EndsWord IsWord word_append_inj)
open Placeholder (isWordChar)

variable {kind : List Char → Option (Atom × List Char)} {text rest : List Char}

/-- Nothing is found at any place of the text, with what comes behind it. -/
def Passes (kind : List Char → Option (Atom × List Char)) : List Char → List Char → Prop
  | [], _ => True
  | char :: text, rest => kind (char :: (text ++ rest)) = none ∧ Passes kind text rest

theorem Passes.append {first second : List Char} (one : Passes kind first (second ++ rest))
    (two : Passes kind second rest) : Passes kind (first ++ second) rest := by
  induction first with
  | nil => exact two
  | cons char first tail =>
    obtain ⟨here, later⟩ := one
    refine ⟨?_, tail later⟩
    show kind (char :: (first ++ second ++ rest)) = none
    rw [List.append_assoc]
    exact here

theorem scan_of_passes (passes : Passes kind text rest) :
    scan kind 0 (text ++ rest) = scan kind 0 rest := by
  induction text with
  | nil => rfl
  | cons char text tail =>
    obtain ⟨here, later⟩ := passes
    rw [List.cons_append, scan, here]
    exact tail later

theorem scan_length (text rest : List Char) :
    scan kind text.length (text ++ rest) = scan kind 0 rest := by
  induction text with
  | nil => rfl
  | cons char text tail => exact tail

/-- What is found at a place is passed over as a whole. -/
theorem scan_of_found {atom : Atom} (found : kind (text ++ rest) = some (atom, rest))
    (nonempty : text ≠ []) : scan kind 0 (text ++ rest) = atom :: scan kind 0 rest := by
  cases text with
  | nil => exact absurd rfl nonempty
  | cons char text =>
    have passed : (text ++ rest).length - rest.length = text.length := by
      rw [List.length_append]
      omega
    rw [List.cons_append] at found ⊢
    rw [scan, found]
    simp only [passed, scan_length]

theorem not_mem_of_isWord {word : List Char} {char : Char}
    (chars : ∀ char ∈ word, isWordChar char = true) (plain : isWordChar char = false) :
    char ∉ word := by
  intro member
  rw [chars char member] at plain
  cases plain

theorem not_mem_of_blank {blank : List Char} {char : Char} (blanks : Blank blank)
    (plain : isBlank char = false) : char ∉ blank := by
  intro member
  rw [blanks char member] at plain
  cases plain

theorem not_mem_of_chain {mark separator char : Char} {words : List (List Char)}
    {text : List Char} (chain : Chain mark separator words text) (noMark : char ≠ mark)
    (noSeparator : char ≠ separator)
    (noWord : isWordChar char = false) (plain : isBlank char = false) : char ∉ text := by
  induction chain with
  | one isWord =>
    simp only [List.mem_cons, not_or]
    exact ⟨noMark, not_mem_of_isWord isWord.2 noWord⟩
  | more isWord before after others tail =>
    simp only [List.mem_cons, List.mem_append, not_or]
    exact ⟨noMark, not_mem_of_isWord isWord.2 noWord, not_mem_of_blank before plain, noSeparator,
      not_mem_of_blank after plain, tail⟩

theorem comparator_subset {operator : String} (known : operator ∈ comparators) :
    operator.toList ⊆ ['=', '<', '>'] := by
  have within : ∀ operator ∈ comparators, operator.toList ⊆ ['=', '<', '>'] := by decide
  exact within operator known

theorem not_mem_of_comparator {operator : String} {char : Char} (known : operator ∈ comparators)
    (other : char ∉ ['=', '<', '>']) : char ∉ operator.toList :=
  fun member => other (comparator_subset known member)

theorem not_mem_of_argument {tokens : List (List Char)} {argument : List Char} {char : Char}
    (written : Argument tokens argument) (other : char ∉ [',', ':'])
    (noWord : isWordChar char = false) (plain : isBlank char = false) : char ∉ argument := by
  simp only [List.mem_cons, List.not_mem_nil, or_false, not_or] at other
  cases written with
  | none => simp
  | some before after isWord =>
    simp only [List.mem_cons, List.mem_append, not_or]
    exact ⟨other.1, not_mem_of_blank before plain, other.2, not_mem_of_isWord isWord.2 noWord,
      not_mem_of_blank after plain⟩

section Paths

/-- The tests of a kind begin with a path, with one of certain characters behind it. -/
def ReadsPath (kind : List Char → Option (Atom × List Char)) (follows : Char → Prop) : Prop :=
  ∀ text found, kind text = some found → ∃ segments behind char,
    path? text = some (segments, behind) ∧ next? behind = some char ∧ follows char

variable {follows : Char → Prop}

theorem path?_cons_of_ne {char : Char} (noMark : char ≠ '#') (rest : List Char) :
    path? (char :: rest) = none := by
  have none : segment? (char :: rest) = none := by
    unfold segment?
    split
    · next same => exact absurd (List.cons.inj same).1 noMark
    · rfl
  simp [path?, parts?, none]

theorem ReadsPath.passes_of_not_mem (reads : ReadsPath kind follows) (noMark : '#' ∉ text)
    (rest : List Char) : Passes kind text rest := by
  induction text with
  | nil => trivial
  | cons char text tail =>
    simp only [List.mem_cons, not_or] at noMark
    refine ⟨?_, tail noMark.2⟩
    cases found : kind (char :: (text ++ rest)) with
    | none => rfl
    | some result =>
      obtain ⟨segments, behind, next, read, -, -⟩ := reads _ _ found
      rw [path?_cons_of_ne (Ne.symm noMark.1)] at read
      cases read

-- A path is passed from each of its segments on, and from each the same character comes behind it.
theorem ReadsPath.passes_path (reads : ReadsPath kind follows) {segments : List (List Char)}
    {path : List Char} (written : Path segments path) (ends : EndsWord rest) {char : Char}
    (next : next? rest = some char) (stops : char ≠ '.') (other : ¬ follows char) :
    Passes kind path rest := by
  have noDot : next? rest ≠ some '.' := by
    rw [next]
    exact fun same => stops (Option.some.inj same)
  have fails {segments : List (List Char)} {path : List Char} (written : Path segments path) :
      kind (path ++ rest) = none := by
    cases found : kind (path ++ rest) with
    | none => rfl
    | some result =>
      obtain ⟨read, behind, behindNext, same, first, follows⟩ := reads _ _ found
      rw [path?_append written ends noDot] at same
      cases same
      obtain rfl := Option.some.inj (next.symm.trans first)
      exact absurd follows other
  induction written with
  | one isWord =>
    exact ⟨fails (.one isWord),
      reads.passes_of_not_mem (not_mem_of_isWord isWord.2 rfl) rest⟩
  | @more word before after words path isWord blankBefore blankAfter written tail =>
    refine ⟨fails (.more isWord blankBefore blankAfter written), ?_⟩
    have noMark : '#' ∉ word ++ (before ++ ('.' :: after)) := by
      simp only [List.mem_append, List.mem_cons, not_or]
      exact ⟨not_mem_of_isWord isWord.2 rfl, not_mem_of_blank blankBefore rfl, by decide,
        not_mem_of_blank blankAfter rfl⟩
    have whole : word ++ (before ++ ('.' :: (after ++ path))) =
        (word ++ (before ++ ('.' :: after))) ++ path := by simp
    rw [whole]
    exact (reads.passes_of_not_mem noMark _).append tail

end Paths

section Calls

/-- The tests of a kind begin with one of certain names, with a parenthesis behind it. -/
structure ReadsCall (kind : List Char → Option (Atom × List Char)) (names : List String) :
    Prop where
  isWord : ∀ name ∈ names, IsWord name.toList
  begins : ∀ text found, kind text = some found → ∃ name ∈ names, ∃ behind,
    text = name.toList ++ behind ∧ next? behind = some '('

variable {names : List String}

theorem endsWord_of_next? {char : Char} (next : next? text = some char)
    (plain : isWordChar char = false) : EndsWord text := by
  cases text with
  | nil => rfl
  | cons first others =>
    cases blank : isBlank first with
    | true => exact Expression.endsWord_cons (isWordChar_of_isBlank blank) others
    | false =>
      rw [next?_cons blank, Option.some.injEq] at next
      exact Expression.endsWord_cons (next ▸ plain) others

theorem next?_append_cases {char : Char} (next : next? (text ++ rest) = some char) :
    char ∈ text ∨ next? rest = some char := by
  induction text with
  | nil => exact Or.inr next
  | cons first others tail =>
    cases blank : isBlank first with
    | true =>
      have passed : next? (first :: others ++ rest) = next? (others ++ rest) :=
        next?_append (List.forall_mem_singleton.mpr blank) (others ++ rest)
      rw [passed] at next
      exact (tail next).imp_left (List.mem_cons_of_mem _)
    | false =>
      rw [List.cons_append, next?_cons blank] at next
      cases next
      exact Or.inl List.mem_cons_self

variable (reads : ReadsCall kind names)

include reads

/-- A word is passed if no parenthesis comes next, or if it does not end with any of the names. -/
theorem ReadsCall.passes_word {word : List Char} (chars : ∀ char ∈ word, isWordChar char = true)
    (ends : EndsWord rest)
    (other : next? rest ≠ some '(' ∨ ∀ name ∈ names, ¬ name.toList <:+ word) :
    Passes kind word rest := by
  induction word with
  | nil => trivial
  | cons char word tail =>
    obtain ⟨first, others⟩ := List.forall_mem_cons.mp chars
    refine ⟨?_, tail others ?_⟩
    · cases found : kind (char :: (word ++ rest)) with
      | none => rfl
      | some result =>
        obtain ⟨name, known, behind, same, next⟩ := reads.begins _ _ found
        obtain ⟨spelt, rfl⟩ := word_append_inj ⟨by simp, chars⟩ (reads.isWord name known) ends
          (endsWord_of_next? next rfl) same
        rcases other with noParenthesis | noName
        · exact absurd next noParenthesis
        · rw [spelt] at noName
          exact absurd (List.suffix_refl _) (noName name known)
    · exact other.imp_right fun noName name known suffix =>
        noName name known (suffix.trans (List.suffix_cons char word))

theorem ReadsCall.passes_plain (plain : ∀ char ∈ text, isWordChar char = false) (rest : List Char) :
    Passes kind text rest := by
  induction text with
  | nil => trivial
  | cons char text tail =>
    obtain ⟨first, others⟩ := List.forall_mem_cons.mp plain
    refine ⟨?_, tail others⟩
    cases found : kind (char :: (text ++ rest)) with
    | none => rfl
    | some result =>
      obtain ⟨name, known, behind, same, -⟩ := reads.begins _ _ found
      obtain ⟨nonempty, chars⟩ := reads.isWord name known
      cases spelt : name.toList with
      | nil => exact absurd spelt nonempty
      | cons head others =>
        rw [spelt] at same chars
        obtain ⟨rfl, -⟩ := List.cons.inj same
        rw [chars char List.mem_cons_self] at first
        cases first

-- The name and its parenthesis would have to stand in the text, behind it, or across its end.
theorem ReadsCall.passes_of_not_mem (unopened : '(' ∉ text) (separate : Separate text rest)
    (next : next? rest ≠ some '(') : Passes kind text rest := by
  induction text with
  | nil => trivial
  | cons char text tail =>
    refine ⟨?_, tail (fun later => unopened (List.mem_cons_of_mem _ later))
      (separate.of_suffix (List.suffix_cons char text))⟩
    cases found : kind (char :: (text ++ rest)) with
    | none => rfl
    | some result =>
      obtain ⟨name, known, behind, same, opened⟩ := reads.begins _ _ found
      rw [← List.cons_append] at same
      rcases List.append_eq_append_iff.mp same with
        ⟨across, inName, inRest⟩ | ⟨within, inText, after⟩
      · cases across with
        | nil =>
          obtain rfl : rest = behind := inRest
          exact absurd opened next
        | cons following across =>
          have chars := (reads.isWord name known).2
          rw [inName] at chars
          obtain ⟨inText, beyond⟩ := List.forall_mem_append.mp chars
          have joined := separate.endsWord ⟨by simp, inText⟩
          rw [inRest, EndsWord, List.cons_append,
            List.takeWhile_cons_of_pos (beyond following List.mem_cons_self)] at joined
          cases joined
      · rw [after] at opened
        rcases next?_append_cases opened with inside | behindAll
        · rw [inText] at unopened
          exact absurd (List.mem_append_right _ inside) unopened
        · exact absurd behindAll next

/-- A word with a parenthesis behind it is passed if it does not end with any of the names. -/
theorem ReadsCall.passes_applied {word blank tail : List Char} (isWord : IsWord word)
    (blanks : Blank blank) (noName : ∀ name ∈ names, ¬ name.toList <:+ word) (unopened : '(' ∉ tail)
    (separate : Separate tail rest) (next : next? rest ≠ some '(') :
    Passes kind (word ++ (blank ++ ('(' :: tail))) rest := by
  have ends : EndsWord (blank ++ ('(' :: tail) ++ rest) := by
    rw [List.append_assoc]
    exact endsWord_append_blank blanks (Expression.endsWord_cons rfl _)
  have plain : ∀ char ∈ blank ++ ['('], isWordChar char = false := by
    intro char member
    rcases List.mem_append.mp member with inBlank | opening
    · exact isWordChar_of_isBlank (blanks char inBlank)
    · obtain rfl := List.mem_singleton.mp opening
      rfl
  apply (reads.passes_word isWord.2 ends (Or.inr noName)).append
  rw [← List.singleton_append, ← List.append_assoc]
  apply (reads.passes_plain plain (tail ++ rest)).append
  exact reads.passes_of_not_mem unopened separate next

end Calls

end RecordMerge.Condition

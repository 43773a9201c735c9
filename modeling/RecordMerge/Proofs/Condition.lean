import RecordMerge.Condition
import RecordMerge.Proofs.Entries
import RecordMerge.Proofs.Expression.Token
import RecordMerge.Proofs.Outcome

/-! The placeholders that are found in a condition. Each of them is a whole token of its text. -/

set_option autoImplicit false

namespace RecordMerge.Condition

open Expression (IsWord tokens tokens_subset_of_suffix)
open Placeholder (isWordChar)

/-- A mark with the word is a token of the text. -/
def Has (mark : Char) (word text : List Char) : Prop :=
  IsWord word ∧ String.ofList (mark :: word) ∈ tokens mark text

-- Every reader of a condition gives back the end of its text that it has not read. What it has
-- found so far is found in the whole text for that reason alone, since the tokens of an end are
-- tokens of the text. So a reader's lemma needs no more than those of its parts, chained by
-- `of_suffix`.
structure Finds (mark : Char) (words : List (List Char)) (text rest : List Char) : Prop where
  suffix : rest <:+ text
  has : ∀ word ∈ words, Has mark word text

variable {mark separator : Char} {text rest : List Char}

theorem Has.of_suffix {word : List Char} (has : Has mark word rest) (suffix : rest <:+ text) :
    Has mark word text :=
  ⟨has.1, tokens_subset_of_suffix suffix has.2⟩

theorem Finds.append {first second : List (List Char)} {middle : List Char}
    (earlier : Finds mark first text middle) (later : Finds mark second middle rest) :
    Finds mark (first ++ second) text rest where
  suffix := later.suffix.trans earlier.suffix
  has word member := by
    rcases List.mem_append.mp member with before | after
    · exact earlier.has word before
    · exact (later.has word after).of_suffix earlier.suffix

theorem Finds.of_suffix {words : List (List Char)} {middle : List Char}
    (found : Finds mark words middle rest) (suffix : middle <:+ text) :
    Finds mark words text rest where
  suffix := found.suffix.trans suffix
  has word member := (found.has word member).of_suffix suffix

theorem skipBlanks_suffix (text : List Char) : skipBlanks text <:+ text :=
  List.dropWhile_suffix _

theorem blanks?_suffix (found : blanks? text = some rest) : rest <:+ text := by
  cases text with
  | nil => cases found
  | cons char tail =>
    rw [blanks?] at found
    split at found
    · cases found
      exact (skipBlanks_suffix tail).trans (List.suffix_cons char tail)
    · cases found

theorem literal?_suffix {expected : List Char} (found : literal? expected text = some rest) :
    rest <:+ text := by
  unfold literal? at found
  split at found
  · cases found
    exact List.drop_suffix _ _
  · cases found

theorem keyword?_suffix {expected : List Char} (found : keyword? expected text = some rest) :
    rest <:+ text := by
  unfold keyword? at found
  split at found
  · cases found
    exact List.drop_suffix _ _
  · cases found

theorem comparator?_suffix (found : comparator? text = some rest) : rest <:+ text := by
  have one (char : Char) (tail : List Char) : tail <:+ char :: tail := List.suffix_cons char tail
  have two (first second : Char) (tail : List Char) : tail <:+ first :: second :: tail :=
    (one second tail).trans (one first _)
  unfold comparator? at found
  split at found <;> cases found
  · exact two '<' '>' rest
  · exact two '<' '=' rest
  · exact two '>' '=' rest
  · exact one '=' rest
  · exact one '<' rest
  · exact one '>' rest

theorem word?_spec {word : List Char} (found : word? text = some (word, rest)) :
    IsWord word ∧ word = text.takeWhile isWordChar ∧ rest <:+ text := by
  unfold word? at found
  split at found
  · cases found
  · next nonempty =>
    cases found
    exact ⟨⟨nonempty, fun char member => List.mem_takeWhile_imp member⟩, rfl,
      List.dropWhile_suffix _⟩

-- The word behind a mark is read to its end. A shorter reading would stand in the text as well, but
-- not as a token.
theorem finds_of_word? {word : List Char} (found : word? text = some (word, rest)) :
    Finds mark [word] (mark :: text) rest := by
  obtain ⟨isWord, longest, suffix⟩ := word?_spec found
  refine ⟨suffix.trans (List.suffix_cons mark text), fun other member => ?_⟩
  obtain rfl := List.mem_singleton.mp member
  refine ⟨isWord, ?_⟩
  rw [tokens, if_pos rfl, ← longest]
  exact List.mem_cons_self

theorem finds_of_segment? {word : List Char} (found : segment? text = some (word, rest)) :
    Finds '#' [word] text rest := by
  unfold segment? at found
  split at found
  · exact finds_of_word? found
  · cases found

theorem finds_of_token? {word : List Char} (found : token? text = some (word, rest)) :
    Finds ':' [word] text rest := by
  unfold token? at found
  split at found
  · exact finds_of_word? found
  · cases found

section Lists

variable {part : List Char → Option (List Char × List Char)}
  (finds : ∀ text word rest, part text = some (word, rest) → Finds mark [word] text rest)

include finds

theorem finds_of_link? {word : List Char} (found : link? separator part text = some (word, rest)) :
    Finds mark [word] text rest := by
  unfold link? at found
  split at found
  · next char tail blanks =>
    split at found
    · refine (finds _ _ _ found).of_suffix ((skipBlanks_suffix tail).trans ?_)
      exact (List.suffix_cons char tail).trans (blanks ▸ skipBlanks_suffix text)
    · cases found
  · cases found

theorem finds_links (limit : Nat) (text : List Char) :
    Finds mark (links separator part limit text).1 text (links separator part limit text).2 := by
  induction limit generalizing text with
  | zero => exact ⟨List.suffix_refl text, by simp [links]⟩
  | succ limit tail =>
    rw [links]
    split
    · exact ⟨List.suffix_refl text, by simp⟩
    · next word rest found => exact (finds_of_link? finds found).append (tail rest)

theorem finds_of_parts? {words : List (List Char)}
    (found : parts? separator part text = some (words, rest)) : Finds mark words text rest := by
  simp only [parts?, Option.bind_eq_bind, Option.bind_eq_some_iff] at found
  obtain ⟨⟨first, middle⟩, one, built⟩ := found
  cases built
  exact (finds _ _ _ one).append (finds_links finds _ _)

end Lists

theorem finds_of_path? {segments : List (List Char)}
    (found : path? text = some (segments, rest)) : Finds '#' segments text rest :=
  finds_of_parts? (fun _ _ _ => finds_of_segment?) found

/-- All words of an atom are found in the text. -/
structure Atom.Within (atom : Atom) (text : List Char) : Prop where
  segments : ∀ segment ∈ atom.segments, Has '#' segment text
  tokens : ∀ token ∈ atom.tokens, Has ':' token text

theorem Atom.Within.of_suffix {atom : Atom} (within : atom.Within rest) (suffix : rest <:+ text) :
    atom.Within text where
  segments segment member := (within.segments segment member).of_suffix suffix
  tokens token member := (within.tokens token member).of_suffix suffix

theorem finds_of_compared {token next last : List Char}
    (compared : comparator? (skipBlanks text) = some next)
    (read : token? (skipBlanks next) = some (token, last)) : Finds ':' [token] text last :=
  (finds_of_token? read).of_suffix
    (((skipBlanks_suffix next).trans (comparator?_suffix compared)).trans (skipBlanks_suffix text))

theorem finds_of_keyword {expected token blank next start last : List Char}
    (before : blanks? text = some blank) (word : keyword? expected blank = some next)
    (after : blanks? next = some start) (read : token? start = some (token, last)) :
    Finds ':' [token] text last :=
  (finds_of_token? read).of_suffix
    (((blanks?_suffix after).trans (keyword?_suffix word)).trans (blanks?_suffix before))

theorem within_of_comparison? {atom : Atom} (found : comparison? text = some (atom, rest)) :
    atom.Within text := by
  simp only [comparison?, Option.bind_eq_bind, Option.bind_eq_some_iff] at found
  obtain ⟨⟨segments, middle⟩, path, next, compared, ⟨token, last⟩, read, built⟩ := found
  cases built
  have left := finds_of_path? path
  have right := finds_of_compared compared read
  exact ⟨left.has, (right.of_suffix left.suffix).has⟩

theorem within_of_sizeComparison? {atom : Atom}
    (found : sizeComparison? text = some (atom, rest)) : atom.Within text := by
  simp only [sizeComparison?, Option.bind_eq_bind, Option.bind_eq_some_iff] at found
  obtain ⟨start, size, inner, opened, ⟨segments, middle⟩, path, outer, closed, next, compared,
    ⟨token, last⟩, read, built⟩ := found
  cases built
  have before : inner <:+ text :=
    ((literal?_suffix opened).trans (skipBlanks_suffix start)).trans (literal?_suffix size)
  have left := (finds_of_path? path).of_suffix ((skipBlanks_suffix inner).trans before)
  have between : outer <:+ middle := (literal?_suffix closed).trans (skipBlanks_suffix middle)
  have right := (finds_of_compared compared read).of_suffix (between.trans left.suffix)
  exact ⟨left.has, right.has⟩

theorem finds_of_argument? {words : List (List Char)}
    (found : argument? text = some (words, rest)) : Finds ':' words text rest := by
  unfold argument? at found
  split at found
  · next tail =>
    simp only [Option.bind_eq_bind, Option.bind_eq_some_iff] at found
    obtain ⟨⟨token, last⟩, read, built⟩ := found
    cases built
    have token := (finds_of_token? read).of_suffix
      ((skipBlanks_suffix tail).trans (List.suffix_cons ',' tail))
    exact ⟨(skipBlanks_suffix last).trans token.suffix, token.has⟩
  · cases found
    exact ⟨List.suffix_refl text, by simp⟩

theorem within_of_call? {atom : Atom} (found : call? text = some (atom, rest)) :
    atom.Within text := by
  simp only [call?, Option.bind_eq_bind, Option.bind_eq_some_iff] at found
  obtain ⟨start, named, inner, opened, ⟨segments, middle⟩, path, ⟨words, next⟩, argument,
    last, closed, built⟩ := found
  cases built
  obtain ⟨function, -, name⟩ := List.exists_of_findSome?_eq_some named
  have before : inner <:+ text :=
    ((literal?_suffix opened).trans (skipBlanks_suffix start)).trans (literal?_suffix name)
  have left := (finds_of_path? path).of_suffix ((skipBlanks_suffix inner).trans before)
  have right := (finds_of_argument? argument).of_suffix
    ((skipBlanks_suffix middle).trans left.suffix)
  exact ⟨left.has, right.has⟩

theorem within_of_between? {atom : Atom} (found : between? text = some (atom, rest)) :
    atom.Within text := by
  simp only [between?, Option.bind_eq_bind, Option.bind_eq_some_iff] at found
  obtain ⟨⟨segments, middle⟩, path, start, first, inner, between, outer, second, ⟨low, next⟩,
    lowRead, blank, third, conjunction, both, last, fourth, ⟨high, ending⟩, highRead,
    built⟩ := found
  cases built
  have left := finds_of_path? path
  have lower := (finds_of_keyword first between second lowRead).of_suffix left.suffix
  have upper := (finds_of_keyword third both fourth highRead).of_suffix lower.suffix
  refine ⟨left.has, fun token member => ?_⟩
  rcases List.mem_cons.mp member with rfl | later
  · exact lower.has _ List.mem_cons_self
  · exact upper.has _ later

theorem within_of_membership? {atom : Atom} (found : membership? text = some (atom, rest)) :
    atom.Within text := by
  simp only [membership?, Option.bind_eq_bind, Option.bind_eq_some_iff] at found
  obtain ⟨⟨segments, middle⟩, path, start, first, inner, word, list, opened, ⟨words, next⟩, read,
    last, closed, built⟩ := found
  cases built
  have left := finds_of_path? path
  have before : list <:+ middle := ((literal?_suffix opened).trans (skipBlanks_suffix inner)).trans
    ((keyword?_suffix word).trans (blanks?_suffix first))
  have right := (finds_of_parts? (fun _ _ _ => finds_of_token?) read).of_suffix
    (((skipBlanks_suffix list).trans before).trans left.suffix)
  exact ⟨left.has, right.has⟩

theorem within_of_mem_kinds {kind : List Char → Option (Atom × List Char)} (known : kind ∈ kinds)
    {atom : Atom} (found : kind text = some (atom, rest)) : atom.Within text := by
  simp only [kinds, List.mem_cons, List.not_mem_nil, or_false] at known
  rcases known with rfl | rfl | rfl | rfl | rfl
  · exact within_of_comparison? found
  · exact within_of_sizeComparison? found
  · exact within_of_call? found
  · exact within_of_between? found
  · exact within_of_membership? found

-- The induction is on the scan. Where it steps over an atom that it has found, it goes on in the
-- rest of the same text, and not behind the atom.
theorem exists_of_mem_scan {kind : List Char → Option (Atom × List Char)} {skip : Nat} {atom : Atom}
    (member : atom ∈ scan kind skip text) :
    ∃ start rest, start <:+ text ∧ kind start = some (atom, rest) := by
  fun_induction scan kind skip text with
  | case1 => cases member
  | case2 skip char tail later =>
    obtain ⟨start, rest, suffix, found⟩ := later member
    exact ⟨start, rest, suffix.trans (List.suffix_cons char tail), found⟩
  | case3 char tail first remaining found later =>
    rcases List.mem_cons.mp member with rfl | following
    · exact ⟨_, remaining, List.suffix_refl _, found⟩
    · obtain ⟨start, rest, suffix, also⟩ := later following
      exact ⟨start, rest, suffix.trans (List.suffix_cons char tail), also⟩
  | case4 char tail none later =>
    obtain ⟨start, rest, suffix, found⟩ := later member
    exact ⟨start, rest, suffix.trans (List.suffix_cons char tail), found⟩

theorem within_of_mem_atoms {atom : Atom} (member : atom ∈ atoms text) : atom.Within text := by
  obtain ⟨kind, known, found⟩ := List.mem_flatMap.mp member
  obtain ⟨start, rest, suffix, read⟩ := exists_of_mem_scan found
  exact (within_of_mem_kinds known read).of_suffix suffix

/-- Every bound name is spelt by its placeholder, a number sign with the segment. -/
theorem mem_bindNames {names : List (String × String)} {segments : List (List Char)}
    {pair : String × String} (member : pair ∈ bindNames names segments) :
    pair ∈ names ∨ ∃ segment ∈ segments,
      pair = (String.ofList ('#' :: segment), String.ofList segment) := by
  induction segments generalizing names with
  | nil => exact Or.inl member
  | cons segment rest tail =>
    rcases tail member with earlier | ⟨other, within, same⟩
    · rcases Entries.mem_put earlier with before | rfl
      · exact Or.inl before
      · exact Or.inr ⟨segment, List.mem_cons_self, rfl⟩
    · exact Or.inr ⟨other, List.mem_cons_of_mem _ within, same⟩

theorem mem_keys_bindValues {condition : String} {given : Value}
    {values result : List (String × Value)} {bound : List String} {key : String}
    (done : bindValues condition given values bound = .ok result)
    (member : key ∈ result.map Prod.fst) : key ∈ values.map Prod.fst ∨ key ∈ bound := by
  induction bound generalizing values with
  | nil =>
    cases done
    exact Or.inl member
  | cons token rest tail =>
    rw [bindValues] at done
    split at done
    · exact (tail done).imp_right (List.mem_cons_of_mem _)
    · obtain ⟨value, -, later⟩ := bind_eq_ok_iff.mp done
      rcases tail later with earlier | following
      · rcases Entries.mem_keys_put_iff.mp earlier with before | rfl
        · exact Or.inl before
        · exact Or.inr List.mem_cons_self
      · exact Or.inr (List.mem_cons_of_mem _ following)

/-- The placeholders of a condition are tokens of its text, and each name is spelt by its own. -/
structure Placeholders.Within (found : Placeholders) (text : List Char) : Prop where
  names : ∀ pair ∈ found.names, pair.1 = "#" ++ pair.2 ∧ IsWord pair.2.toList ∧
    pair.1 ∈ tokens '#' text
  values : ∀ key ∈ found.values.map Prod.fst, key ∈ tokens ':' text

theorem parse_spec {condition : String} {given : Value} {found : Placeholders}
    (parsed : parse condition given = .ok found) : found.Within condition.toList := by
  obtain ⟨values, bound, built⟩ := bind_eq_ok_iff.mp parsed
  cases built
  constructor
  · intro pair member
    rcases mem_bindNames member with none | ⟨segment, inAtoms, rfl⟩
    · cases none
    · obtain ⟨atom, known, within⟩ := List.mem_flatMap.mp inAtoms
      obtain ⟨word, token⟩ := (within_of_mem_atoms known).segments segment within
      exact ⟨by rw [← String.toList_inj]; simp, by simpa using word, token⟩
  · intro key member
    rcases mem_keys_bindValues bound member with none | inAtoms
    · cases none
    · obtain ⟨atom, known, within⟩ := List.mem_flatMap.mp inAtoms
      obtain ⟨token, listed, rfl⟩ := List.mem_map.mp within
      exact ((within_of_mem_atoms known).tokens token listed).2

end RecordMerge.Condition

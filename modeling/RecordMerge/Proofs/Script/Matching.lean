import RecordMerge.Proofs.Value.Equivalence
import RecordMerge.Script.Match

/-!
When a value matches what is expected of it.

The keys and places of what is expected are followed in both values, and whatever stands at the same
place is held together there. The walk that looks for a difference comes to the same result, unless it
meets something that it cannot deal with.
-/

set_option autoImplicit false

namespace RecordMerge.Script

variable {part other expected actual : Value} {entries given : Record} {elements row : List Value}
  {failure : Failure}

/-- What a map has under a key: the value of its first entry with an equal key. -/
def Under (given : Record) (key value : Value) : Prop :=
  ∃ before name after, given = before ++ (name, value) :: after ∧ name.same key = true ∧
    ∀ entry ∈ before, entry.1.same key = false

/-- Following a key or a place of the expected value again and again, in both values, leads to these
two. -/
inductive Leads (part other : Value) : Value → Value → Prop where
  | here : Leads part other part other
  | entry {entries given : Record} {key expected actual : Value} (member : (key, expected) ∈ entries)
      (found : Under given key actual) (further : Leads part other expected actual) :
      Leads part other (.map entries) (.map given)
  | element {elements row : List Value} {expected actual : Value} (index : Nat)
      (wanted : elements[index]? = some expected) (found : row[index]? = some actual)
      (further : Leads part other expected actual) : Leads part other (.list elements) (.list row)

/-- A value that is compared as a whole. -/
def isLeaf : Value → Bool
  | .anything | .map _ | .list _ => false
  | _ => true

/-- What has to stand where the expected value has a wildcard, a map, a list or anything else. -/
inductive Fits : Value → Value → Prop where
  | anything (actual : Value) : Fits .anything actual
  | map {entries given : Record} (keys : ∀ entry ∈ entries, ∃ value, Under given entry.1 value) :
      Fits (.map entries) (.map given)
  | list {elements row : List Value} (length : row.length = elements.length) :
      Fits (.list elements) (.list row)
  | leaf {expected actual : Value} (leaf : isLeaf expected = true)
      (equal : expected.same actual = true) : Fits expected actual

/-- Wherever the keys and places of the expected value lead, the other value has what has to stand
there. -/
def Matches (expected actual : Value) : Prop :=
  ∀ part other, Leads part other expected actual → Fits part other

/-- Where the walk cannot go on: at a key without a text, which its place cannot be named by, and at
values that cannot be compared because of a signaling not-a-number. -/
inductive Stops : Failure → Value → Value → Prop where
  | key {entries given : Record} {key expected actual : Value} (member : (key, expected) ∈ entries)
      (found : Under given key actual) (textless : key.toText? = none) :
      Stops (.reading .wrongKind) (.map entries) (.map given)
  | leaf {expected actual : Value} (leaf : isLeaf expected = true)
      (incomparable : expected.compare? actual = none)
      (signals : expected.Signals ∨ actual.Signals) : Stops .incomparable expected actual

/-- The keys and places of the expected value lead to where the walk cannot go on. -/
def BreaksOff (failure : Failure) (expected actual : Value) : Prop :=
  ∃ part other, Leads part other expected actual ∧ Stops failure part other

theorem lookup_eq_some_iff {key : Value} :
    lookup key given = some actual ↔ Under given key actual := by
  unfold Under
  induction given with
  | nil => simp [lookup]
  | cons entry rest tail =>
    obtain ⟨first, value⟩ := entry
    rw [lookup]
    split
    · next equal =>
      constructor
      · rintro ⟨⟩
        exact ⟨[], first, rest, rfl, equal, nofun⟩
      · rintro ⟨before, name, after, same, -, others⟩
        cases before with
        | nil =>
          cases same
          rfl
        | cons earlier before =>
          cases same
          cases (others _ List.mem_cons_self).symm.trans equal
    · next differs =>
      rw [tail]
      constructor
      · rintro ⟨before, name, after, rfl, equal, others⟩
        exact ⟨(first, value) :: before, name, after, rfl, equal,
          List.forall_mem_cons.mpr ⟨Bool.eq_false_iff.mpr differs, others⟩⟩
      · rintro ⟨before, name, after, same, equal, others⟩
        cases before with
        | nil =>
          cases same
          exact absurd equal differs
        | cons earlier before =>
          cases same
          exact ⟨before, name, after, rfl, equal, (List.forall_mem_cons.mp others).2⟩

theorem matches_anything (actual : Value) : Matches .anything actual := by
  intro part other leads
  cases leads
  exact .anything actual

theorem matches_map_iff :
    Matches (.map entries) (.map given) ↔
      ∀ entry ∈ entries, ∃ value, lookup entry.1 given = some value ∧ Matches entry.2 value := by
  constructor
  · intro whole entry member
    cases whole _ _ .here with
    | map keys =>
      obtain ⟨value, found⟩ := keys entry member
      exact ⟨value, lookup_eq_some_iff.mpr found,
        fun part other leads => whole part other (.entry member found leads)⟩
    | leaf leaf => cases leaf
  · intro each part other leads
    cases leads with
    | here =>
      refine .map fun entry member => ?_
      exact (each entry member).imp fun _ fits => lookup_eq_some_iff.mp fits.1
    | entry member found further =>
      obtain ⟨value, held, fits⟩ := each _ member
      cases held.symm.trans (lookup_eq_some_iff.mpr found)
      exact fits part other further

theorem matches_list_iff :
    Matches (.list elements) (.list row) ↔ List.Forall₂ Matches elements row := by
  rw [List.forall₂_iff_get]
  constructor
  · intro whole
    cases whole _ _ .here with
    | list length =>
      refine ⟨length.symm, fun index here there part other leads => whole part other ?_⟩
      exact .element index (List.getElem?_eq_getElem here) (List.getElem?_eq_getElem there) leads
    | leaf leaf => cases leaf
  · rintro ⟨length, each⟩ part other leads
    cases leads with
    | here => exact .list length.symm
    | element index wanted found further =>
      obtain ⟨here, rfl⟩ := List.getElem?_eq_some_iff.mp wanted
      obtain ⟨there, rfl⟩ := List.getElem?_eq_some_iff.mp found
      exact each _ here there part other further

theorem matches_leaf_iff (leaf : isLeaf expected = true) :
    Matches expected actual ↔ expected.same actual = true := by
  constructor
  · intro whole
    cases whole _ _ .here with
    | leaf _ equal => exact equal
    | anything | map | list => cases leaf
  · intro equal part other leads
    cases leads with
    | here => exact .leaf leaf equal
    | entry | element => cases leaf

theorem exists_map_of_matches (whole : Matches (.map entries) actual) :
    ∃ given, actual = .map given := by
  cases whole _ _ .here with
  | map => exact ⟨_, rfl⟩
  | leaf leaf => cases leaf

theorem exists_list_of_matches (whole : Matches (.list elements) actual) :
    ∃ row, actual = .list row ∧ row.length = elements.length := by
  cases whole _ _ .here with
  | list length => exact ⟨_, rfl, length⟩
  | leaf leaf => cases leaf

theorem BreaksOff.entry {key : Value} (member : (key, expected) ∈ entries)
    (found : lookup key given = some actual) (breaks : BreaksOff failure expected actual) :
    BreaksOff failure (.map entries) (.map given) := by
  obtain ⟨part, other, leads, stops⟩ := breaks
  exact ⟨part, other, .entry member (lookup_eq_some_iff.mp found) leads, stops⟩

theorem BreaksOff.later_entries (entry : Value × Value)
    (breaks : BreaksOff failure (.map entries) (.map given)) :
    BreaksOff failure (.map (entry :: entries)) (.map given) := by
  obtain ⟨part, other, leads, stops⟩ := breaks
  cases leads with
  | here =>
    cases stops with
    | key member found textless =>
      exact ⟨_, _, .here, .key (List.mem_cons_of_mem _ member) found textless⟩
    | leaf leaf => cases leaf
  | entry member found further =>
    exact ⟨part, other, .entry (List.mem_cons_of_mem _ member) found further, stops⟩

theorem BreaksOff.first_element (breaks : BreaksOff failure expected actual) :
    BreaksOff failure (.list (expected :: elements)) (.list (actual :: row)) := by
  obtain ⟨part, other, leads, stops⟩ := breaks
  exact ⟨part, other, .element 0 rfl rfl leads, stops⟩

theorem BreaksOff.later_elements (breaks : BreaksOff failure (.list elements) (.list row)) :
    BreaksOff failure (.list (expected :: elements)) (.list (actual :: row)) := by
  obtain ⟨part, other, leads, stops⟩ := breaks
  cases leads with
  | here =>
    cases stops with
    | leaf leaf => cases leaf
  | element index wanted found further =>
    exact ⟨part, other, .element (index + 1) wanted found further, stops⟩

/-- What comes of a walk: the values match, or a difference is reported and they do not, or the walk
breaks off. -/
inductive Compared (expected actual : Value) : Except Failure Unit → Prop where
  | agrees (fits : Matches expected actual) : Compared expected actual (.ok ())
  | differs (difference : Mismatch) (apart : ¬ Matches expected actual) :
      Compared expected actual (differs difference)
  | breaks {failure : Failure} (breaks : BreaksOff failure expected actual) :
      Compared expected actual (.error failure)

/-- Two walks after each other are one walk along both. -/
theorem Compared.andThen {first second first' second' : Value} {here later : Except Failure Unit}
    (compared : Compared first second here) (compared' : Compared first' second' later)
    (both : Matches expected actual ↔ Matches first second ∧ Matches first' second')
    (stops : ∀ failure, BreaksOff failure first second → BreaksOff failure expected actual)
    (stops' : ∀ failure, BreaksOff failure first' second' → BreaksOff failure expected actual) :
    Compared expected actual (do here; later) := by
  cases compared with
  | agrees fits =>
    cases compared' with
    | agrees others => exact .agrees (both.mpr ⟨fits, others⟩)
    | differs difference apart => exact .differs difference fun whole => apart (both.mp whole).2
    | breaks breaks => exact .breaks (stops' _ breaks)
  | differs difference apart => exact .differs difference fun whole => apart (both.mp whole).1
  | breaks breaks => exact .breaks (stops _ breaks)

theorem compared_entries (each : ∀ entry ∈ entries, ∀ path value,
      Compared entry.2 value (agree path value entry.2)) (path : String) :
    Compared (.map entries) (.map given) (entriesAgree path given entries) := by
  induction entries with
  | nil => exact .agrees (matches_map_iff.mpr nofun)
  | cons entry rest tail =>
    obtain ⟨key, expected⟩ := entry
    obtain ⟨first, later⟩ := List.forall_mem_cons.mp each
    rw [entriesAgree]
    cases found : lookup key given with
    | none =>
      refine .differs _ fun whole => ?_
      obtain ⟨value, held, -⟩ := matches_map_iff.mp whole _ List.mem_cons_self
      cases found.symm.trans held
    | some value =>
      dsimp only
      unfold entryPath
      -- The place is named before the values are looked at, so that here they may match or not.
      cases text : key.toText? with
      | none =>
        exact .breaks ⟨_, _, .here, .key List.mem_cons_self (lookup_eq_some_iff.mp found) text⟩
      | some name =>
        refine (first _ value).andThen (tail later) ?_
          (fun _ breaks => breaks.entry List.mem_cons_self found)
          fun _ breaks => breaks.later_entries _
        rw [matches_map_iff, List.forall_mem_cons, ← matches_map_iff]
        simp [found]

theorem compared_elements (each : ∀ element ∈ elements, ∀ path value,
      Compared element value (agree path value element)) (path : String) (index : Nat)
    (length : row.length = elements.length) :
    Compared (.list elements) (.list row) (elementsAgree path index row elements) := by
  induction elements generalizing row index with
  | nil =>
    obtain rfl := List.length_eq_zero_iff.mp length
    exact .agrees (matches_list_iff.mpr .nil)
  | cons expected rest tail =>
    obtain ⟨actual, others, rfl⟩ := List.exists_cons_of_length_eq_add_one length
    obtain ⟨first, later⟩ := List.forall_mem_cons.mp each
    refine (first _ actual).andThen (tail later (index + 1) (Nat.succ.inj length)) ?_
      (fun _ breaks => breaks.first_element) fun _ breaks => breaks.later_elements
    simp only [matches_list_iff, List.forall₂_cons]

theorem agree_of_isLeaf (leaf : isLeaf expected = true) (path : String) (actual : Value) :
    agree path actual expected = match expected.compare? actual with
      | some true => .ok ()
      | some false => differs (.valueDiffers path expected actual)
      | none => .error .incomparable := by
  cases expected with
  | anything | map | list => cases leaf
  | _ => rfl

theorem compared_leaf (leaf : isLeaf expected = true) (path : String) (actual : Value) :
    Compared expected actual (agree path actual expected) := by
  rw [agree_of_isLeaf leaf]
  cases compared : expected.compare? actual with
  | none =>
    refine .breaks ⟨_, _, .here, .leaf leaf compared ?_⟩
    by_contra silent
    obtain ⟨left, right⟩ := not_or.mp silent
    exact Value.compare?_ne_none left right compared
  | some equal =>
    have same : expected.same actual = equal := by
      rw [Value.same, compared]
      cases equal <;> rfl
    cases equal with
    | true => exact .agrees ((matches_leaf_iff leaf).mpr same)
    | false =>
      refine .differs _ fun whole => ?_
      rw [matches_leaf_iff leaf, same] at whole
      cases whole

/-- The walk reports a difference only between values that do not match, and ends without one only if
they do. -/
theorem compared_agree (expected : Value) (path : String) (actual : Value) :
    Compared expected actual (agree path actual expected) := by
  induction expected using Value.part_induction generalizing path actual with
  | step expected parts =>
    cases expected with
    | anything => exact .agrees (matches_anything actual)
    | map entries =>
      cases actual with
      | map given => exact compared_entries (fun entry member => parts entry.2 (.map member)) path
      | _ => exact .differs (.notMap path _) fun whole => (exists_map_of_matches whole).elim nofun
    | list elements =>
      cases actual with
      | list row =>
        rw [agree]
        split
        · next length =>
          exact compared_elements (fun element member => parts element (.list member)) path 0 length
        · next differ =>
          refine .differs _ fun whole => ?_
          obtain ⟨_, ⟨⟩, length⟩ := exists_list_of_matches whole
          exact differ length
      | _ => exact .differs (.notList path _) fun whole => (exists_list_of_matches whole).elim nofun
    | _ => exact compared_leaf rfl path actual

end RecordMerge.Script

import RecordMerge.Proofs.Entries
import RecordMerge.Proofs.Equivalence
import RecordMerge.Proofs.Value.Comparison
import RecordMerge.Proofs.Value.Distinct
import RecordMerge.Proofs.Value.Size

/-! Equality of values that hold no not-a-number. Any two of them can be compared, and to be equal is
an equivalence among them, however their numbers are written and however deep they are nested. -/

set_option autoImplicit false

namespace RecordMerge

namespace Value

abbrev Equal (first second : Value) : Prop :=
  same first second = true

theorem equal_iff {first second : Value} :
    Equal first second ↔ compare? first second = some true := by
  rw [Equal, same, beq_iff_eq]

instance (elements : List Value) : Decidable (Unequal elements) :=
  inferInstanceAs (Decidable (List.Pairwise _ _))

mutual

/-- Whether the value holds no not-a-number, itself or in its parts, and is one that there is: no two
elements of a set and no two keys of a map are equal. -/
def definite : Value → Bool
  | .float .nan | .decimal (.nan _ _ _) => false
  | .list elements | .tuple elements => allDefinite elements
  | .set _ elements => decide (Unequal elements) && allDefinite elements
  | .map entries => decide (Unequal (entries.map Prod.fst)) && entriesDefinite entries
  | _ => true

def allDefinite : List Value → Bool
  | [] => true
  | first :: rest => definite first && allDefinite rest

def entriesDefinite : List (Value × Value) → Bool
  | [] => true
  | (key, value) :: rest => definite key && definite value && entriesDefinite rest

end

theorem allDefinite_iff {elements : List Value} :
    allDefinite elements = true ↔ ∀ element ∈ elements, element.definite = true := by
  induction elements with
  | nil => simp [allDefinite]
  | cons first rest tail => simp [allDefinite, tail]

theorem entriesDefinite_iff {entries : List (Value × Value)} :
    entriesDefinite entries = true ↔
      ∀ entry ∈ entries, entry.1.definite = true ∧ entry.2.definite = true := by
  induction entries with
  | nil => simp [entriesDefinite]
  | cons entry rest tail =>
    rw [List.forall_mem_cons, ← tail, entriesDefinite, Bool.and_eq_true, Bool.and_eq_true]

theorem definite_list_iff {elements : List Value} :
    (Value.list elements).definite = true ↔ ∀ element ∈ elements, element.definite = true := by
  rw [definite, allDefinite_iff]

theorem definite_tuple_iff {elements : List Value} :
    (Value.tuple elements).definite = true ↔ ∀ element ∈ elements, element.definite = true := by
  rw [definite, allDefinite_iff]

theorem definite_set_iff {frozen : Bool} {elements : List Value} :
    (Value.set frozen elements).definite = true ↔
      Unequal elements ∧ ∀ element ∈ elements, element.definite = true := by
  rw [definite, Bool.and_eq_true, decide_eq_true_iff, allDefinite_iff]

theorem definite_map_iff {entries : List (Value × Value)} :
    (Value.map entries).definite = true ↔ Unequal (entries.map Prod.fst) ∧
      ∀ entry ∈ entries, entry.1.definite = true ∧ entry.2.definite = true := by
  rw [definite, Bool.and_eq_true, decide_eq_true_iff, entriesDefinite_iff]

/-- A number that is no not-a-number denotes a quantity. -/
theorem exists_quantity {value : Value} (numeric : value.isNumeric = true)
    (definite : value.definite = true) : ∃ quantity, value.quantity? = some quantity := by
  cases value with
  | bool | int => exact ⟨_, rfl⟩
  | float number => cases number with
    | finite negative biased fraction => exact exists_quantity_float negative biased fraction
    | infinite => exact ⟨_, rfl⟩
    | nan => cases definite
  | decimal number => cases number with
    | finite | infinite => exact ⟨_, rfl⟩
    | nan => cases definite
  | _ => cases numeric

/-- What two equal values have in common: nothing tells them apart, or both are of one kind and equal by
their parts. -/
inductive SameKind : Value → Value → Prop
  | alike {first second : Value} (alike : Alike first second) : SameKind first second
  | lists (first second : List Value) : SameKind (.list first) (.list second)
  | tuples (first second : List Value) : SameKind (.tuple first) (.tuple second)
  | sets (frozen frozen' : Bool) (first second : List Value) :
    SameKind (.set frozen first) (.set frozen' second)
  | maps (first second : Record) : SameKind (.map first) (.map second)

theorem alike_of_compareNumbers? {first second : Value}
    (equal : compareNumbers? first second = some true) : Alike first second := by
  rw [compareNumbers?] at equal
  split at equal
  · split at equal
    · cases equal
    · rw [Option.some.injEq, sameQuantity] at equal
      split at equal
      · next left right => exact alike_of_quantity left (eq_of_beq equal ▸ right)
      · cases equal
  · cases equal

theorem sameKind_of_equal {first second : Value} (equal : Equal first second) :
    SameKind first second := by
  rw [Equal, same, beq_iff_eq] at equal
  revert equal
  fun_cases compare? first second <;> intro equal
  case case1 | case10 | case11 | case12 => exact .alike (alike_refl _)
  case case2 left right =>
    obtain rfl : left = right := by simpa using equal
    exact .alike (alike_refl _)
  case case3 form left form' right =>
    obtain rfl : left = right := by simpa using equal
    exact .alike (alike_bytes form form' left)
  case case4 | case5 => exact .lists _ _
  case case6 => exact .tuples _ _
  case case7 => exact .sets _ _ _ _
  case case8 | case9 => exact .maps _ _
  case case13 =>
    simp only [Option.some.injEq, Bool.and_eq_true, beq_iff_eq] at equal
    obtain ⟨⟨rfl, rfl⟩, rfl⟩ := equal
    exact .alike (alike_refl _)
  case case14 => exact .alike (alike_of_compareNumbers? equal)

theorem same_tuple_iff {first second : List Value} :
    Equal (.tuple first) (.tuple second) ↔ List.Forall₂ Equal first second := by
  rw [Equal, same, beq_iff_eq, compare?, compareElements?_iff]

/-- Entries with equal keys and equal values. -/
def EqualEntry (first second : Value × Value) : Prop :=
  Equal first.1 second.1 ∧ Equal first.2 second.2

theorem apart {elements : List Value} (unequal : Unequal elements) :
    elements.Pairwise fun first second => ¬ Equal first second :=
  unequal.imp fun differ => by simp [differ]

theorem apart_keys {entries : Record} (unequal : Unequal (entries.map Prod.fst)) :
    entries.Pairwise fun first second => ¬ Equal first.1 second.1 :=
  List.pairwise_map.mp (apart unequal)

/-- Of the entries of a map only one has a key equal to a given one. -/
theorem entry_eq_of_equal {held : Value → Prop} (fair : EquivalenceOn held Equal) {key : Value}
    {entries : Record} (here : held key) (all : ∀ entry ∈ entries, held entry.1)
    (unequal : Unequal (entries.map Prod.fst)) {first second : Value × Value}
    (left : first ∈ entries) (right : second ∈ entries) (equal : Equal key first.1)
    (also : Equal key second.1) : first = second := by
  have keys : Equal first.1 second.1 :=
    fair.trans (all first left) here (all second right) (fair.symm here (all first left) equal) also
  exact (fair.comap Prod.fst).eq_of_equal all (apart_keys unequal) left right keys

-- The entry that is found for a key is the only one with an equal key, so that there is no other one
-- whose value could be compared.
theorem compareEntries?_iff_covered {held : Value → Prop} (fair : EquivalenceOn held Equal)
    {first second : Record} (here : ∀ entry ∈ first, held entry.1)
    (there : ∀ entry ∈ second, held entry.1) (unequal : Unequal (second.map Prod.fst)) :
    compareEntries? first second = some true ↔
      ∀ entry ∈ first, ∃ other ∈ second, EqualEntry entry other := by
  induction first with
  | nil => simp [compareEntries?]
  | cons entry rest tail =>
    obtain ⟨key, value⟩ := entry
    rw [List.forall_mem_cons] at here
    rw [compareEntries?, List.forall_mem_cons, ← tail here.2]
    cases found : second.find? fun entry => compare? key entry.1 == some true with
    | none =>
      have absent := List.find?_eq_none.mp found
      refine iff_of_false (by simp) fun both => ?_
      obtain ⟨⟨other, member, equal, -⟩, -⟩ := both
      exact absent other member equal
    | some other =>
      have member := List.mem_of_find?_eq_some found
      have equal : Equal key other.1 := (List.find?_some found :)
      dsimp only
      rw [compare?_bind_iff]
      refine and_congr_left fun _ => ⟨fun same => ⟨other, member, equal, same⟩, ?_⟩
      rintro ⟨another, also, again, same⟩
      obtain rfl := entry_eq_of_equal fair here.1 there unequal also member again equal
      exact same

/-- Among values with comparable keys, two maps are equal exactly if they have as many entries and the
second one has an equal entry to each of the first one. -/
theorem same_map_iff_covers {held : Value → Prop} (fair : EquivalenceOn held Equal)
    {first second : Record} (here : ∀ entry ∈ first, held entry.1)
    (there : ∀ entry ∈ second, held entry.1) (unequal : Unequal (second.map Prod.fst)) :
    Equal (.map first) (.map second) ↔ Covers EqualEntry first second := by
  rw [Covers, ← compareEntries?_iff_covered fair here there unequal, Equal, same, beq_iff_eq, compare?]
  split <;> simp [*]

theorem equal_self_of_numeric {value : Value} (numeric : value.isNumeric = true)
    (definite : value.definite = true) : Equal value value := by
  obtain ⟨quantity, denoted⟩ := exists_quantity numeric definite
  rw [Equal, same_of_quantity denoted denoted, beq_self_eq_true]

/-- A value without not-a-numbers that is smaller than a bound. -/
def Below (bound : Nat) (value : Value) : Prop :=
  value.definite = true ∧ sizeOf value < bound

namespace Below

variable {bound : Nat}

theorem part {whole part : Value} (below : Below (bound + 1) whole)
    (definite : part.definite = true) (smaller : sizeOf part < sizeOf whole) : Below bound part :=
  ⟨definite, Nat.lt_of_lt_of_le smaller (Nat.le_of_lt_succ below.2)⟩

theorem of_list {elements : List Value} (below : Below (bound + 1) (.list elements)) :
    ∀ element ∈ elements, Below bound element := by
  intro element member
  exact below.part (definite_list_iff.mp below.1 element member) (sizeOf_lt_list member)

theorem of_tuple {elements : List Value} (below : Below (bound + 1) (.tuple elements)) :
    ∀ element ∈ elements, Below bound element := by
  intro element member
  exact below.part (definite_tuple_iff.mp below.1 element member) (sizeOf_lt_tuple member)

theorem of_set {frozen : Bool} {elements : List Value}
    (below : Below (bound + 1) (.set frozen elements)) :
    (∀ element ∈ elements, Below bound element) ∧
      elements.Pairwise fun first second => ¬ Equal first second := by
  obtain ⟨unequal, all⟩ := definite_set_iff.mp below.1
  refine ⟨fun element member => ?_, apart unequal⟩
  exact below.part (all element member) (sizeOf_lt_set member)

theorem of_map {entries : Record} (below : Below (bound + 1) (.map entries)) :
    (∀ entry ∈ entries, Below bound entry.1 ∧ Below bound entry.2) ∧
      Unequal (entries.map Prod.fst) := by
  obtain ⟨unequal, all⟩ := definite_map_iff.mp below.1
  refine ⟨fun entry member => ?_, unequal⟩
  obtain ⟨key, value⟩ := all entry member
  exact ⟨below.part key (sizeOf_key_lt_map member), below.part value (sizeOf_lt_map member)⟩

/-- The entries of a map as a row in which no two are equal. -/
theorem of_entries {entries : Record} (below : Below (bound + 1) (.map entries)) :
    (∀ entry ∈ entries, Below bound entry.1 ∧ Below bound entry.2) ∧
      entries.Pairwise fun first second => ¬ EqualEntry first second :=
  ⟨below.of_map.1, (apart_keys below.of_map.2).imp fun differ same => differ same.1⟩

theorem same_map_iff (fair : EquivalenceOn (Below bound) Equal) {first second : Record}
    (here : Below (bound + 1) (.map first)) (there : Below (bound + 1) (.map second)) :
    Equal (.map first) (.map second) ↔ Covers EqualEntry first second :=
  same_map_iff_covers fair (fun entry member => (here.of_map.1 entry member).1)
    (fun entry member => (there.of_map.1 entry member).1) there.of_map.2

theorem equal_self {value : Value} (fair : EquivalenceOn (Below bound) Equal)
    (here : Below (bound + 1) value) : Equal value value := by
  cases value with
  | bool | int | float | decimal => exact equal_self_of_numeric rfl here.1
  | null | unset | unsetCopy | anything => rfl
  | text | bytes | date => simp [Equal, same, compare?]
  | list elements => exact same_list_iff.mpr (fair.rows.refl here.of_list)
  | tuple elements => exact same_tuple_iff.mpr (fair.rows.refl here.of_tuple)
  | set frozen elements => exact same_set_iff.mpr (fair.covers.refl here.of_set)
  | map entries =>
    exact (Below.same_map_iff fair here here).mpr (fair.pairs.covers.refl here.of_entries)

theorem equal_symm (fair : EquivalenceOn (Below bound) Equal) {first second : Value}
    (here : Below (bound + 1) first) (there : Below (bound + 1) second)
    (equal : Equal first second) : Equal second first := by
  cases sameKind_of_equal equal with
  | alike alike =>
    have self : Equal second second := by rwa [Equal, same, ← (alike second).1]
    rwa [Equal, same, (alike second).2]
  | lists =>
    rw [Equal, same_list_iff] at equal ⊢
    exact fair.rows.symm here.of_list there.of_list equal
  | tuples =>
    rw [same_tuple_iff] at equal ⊢
    exact fair.rows.symm here.of_tuple there.of_tuple equal
  | sets =>
    rw [Equal, same_set_iff] at equal ⊢
    exact fair.covers.symm here.of_set there.of_set equal
  | maps =>
    rw [Below.same_map_iff fair here there] at equal
    rw [Below.same_map_iff fair there here]
    exact fair.pairs.covers.symm here.of_entries there.of_entries equal

theorem equal_trans (fair : EquivalenceOn (Below bound) Equal) {first second third : Value}
    (here : Below (bound + 1) first) (there : Below (bound + 1) second)
    (yonder : Below (bound + 1) third) (equal : Equal first second) (next : Equal second third) :
    Equal first third := by
  cases sameKind_of_equal next with
  | alike alike => rwa [Equal, same, ← (alike first).2]
  | lists =>
    cases sameKind_of_equal equal with
    | alike alike => rwa [Equal, same, (alike _).1]
    | lists =>
      rw [Equal, same_list_iff] at equal next ⊢
      exact fair.rows.trans here.of_list there.of_list yonder.of_list equal next
  | tuples =>
    cases sameKind_of_equal equal with
    | alike alike => rwa [Equal, same, (alike _).1]
    | tuples =>
      rw [same_tuple_iff] at equal next ⊢
      exact fair.rows.trans here.of_tuple there.of_tuple yonder.of_tuple equal next
  | sets =>
    cases sameKind_of_equal equal with
    | alike alike => rwa [Equal, same, (alike _).1]
    | sets =>
      rw [Equal, same_set_iff] at equal next ⊢
      exact fair.covers.trans here.of_set there.of_set yonder.of_set equal next
  | maps =>
    cases sameKind_of_equal equal with
    | alike alike => rwa [Equal, same, (alike _).1]
    | maps =>
      rw [Below.same_map_iff fair here there] at equal
      rw [Below.same_map_iff fair there yonder] at next
      rw [Below.same_map_iff fair here yonder]
      exact fair.pairs.covers.trans here.of_entries there.of_entries yonder.of_entries equal next

end Below

-- All three are carried through one induction: in a set or a map a partner has to be followed back, and
-- then compared with the partners of the others.
theorem equivalenceOn_below (bound : Nat) : EquivalenceOn (Below bound) Equal := by
  induction bound with
  | zero => exact ⟨fun _ here => absurd here.2 (Nat.not_lt_zero _),
      fun _ _ here => absurd here.2 (Nat.not_lt_zero _),
      fun _ _ _ here => absurd here.2 (Nat.not_lt_zero _)⟩
  | succ bound fair =>
    exact ⟨fun _ here => here.equal_self fair, fun _ _ here there => here.equal_symm fair there,
      fun _ _ _ here there yonder => here.equal_trans fair there yonder⟩

/-- Equality is an equivalence among the values that hold no not-a-number. -/
theorem equivalenceOn_definite : EquivalenceOn (fun value => value.definite = true) Equal where
  refl value here := (equivalenceOn_below (sizeOf value + 1)).refl ⟨here, Nat.lt_succ_self _⟩
  symm first second here there equal :=
    (equivalenceOn_below (sizeOf first + sizeOf second + 1)).symm ⟨here, by omega⟩
      ⟨there, by omega⟩ equal
  trans first second third here there yonder equal next :=
    (equivalenceOn_below (sizeOf first + sizeOf second + sizeOf third + 1)).trans
      ⟨here, by omega⟩ ⟨there, by omega⟩ ⟨yonder, by omega⟩ equal next

theorem compare?_bind_ne_none {left right : Value} {rest : Option Bool}
    (here : compare? left right ≠ none) (further : rest ≠ none) :
    ((compare? left right).bind fun equal => if equal then rest else some false) ≠ none := by
  obtain ⟨equal, compared⟩ := Option.ne_none_iff_exists'.mp here
  cases equal <;> simp [compared, further]

theorem compareElements?_ne_none {first second : List Value}
    (each : ∀ element ∈ first, ∀ other ∈ second, compare? element other ≠ none) :
    compareElements? first second ≠ none := by
  induction first generalizing second with
  | nil => cases second <;> simp [compareElements?]
  | cons element rest tail =>
    cases second with
    | nil => simp [compareElements?]
    | cons other others =>
      rw [compareElements?]
      apply compare?_bind_ne_none (each _ List.mem_cons_self _ List.mem_cons_self)
      exact tail fun value here also there =>
        each value (List.mem_cons_of_mem _ here) also (List.mem_cons_of_mem _ there)

theorem compareEntries?_ne_none {first second : Record}
    (each : ∀ entry ∈ first, ∀ other ∈ second, compare? entry.2 other.2 ≠ none) :
    compareEntries? first second ≠ none := by
  induction first with
  | nil => simp [compareEntries?]
  | cons entry rest tail =>
    obtain ⟨here, later⟩ := List.forall_mem_cons.mp each
    rw [compareEntries?]
    split
    · exact Option.some_ne_none false
    · next other found =>
      exact compare?_bind_ne_none (here other (List.mem_of_find?_eq_some found)) (tail later)

theorem compareNumbers?_ne_none {first second : Value} (left : first.isSignaling = false)
    (right : second.isSignaling = false) : compareNumbers? first second ≠ none := by
  rw [compareNumbers?, left, right]
  split <;> exact Option.some_ne_none _

/-- A signaling not-a-number, or a value with one in its parts. -/
inductive Signals : Value → Prop where
  | here {value : Value} (signaling : value.isSignaling = true) : Signals value
  | inside {part value : Value} (inner : part.PartOf value) (deeper : Signals part) : Signals value

/-- Any two values without signaling not-a-numbers can be compared. -/
theorem compare?_ne_none {first second : Value} (left : ¬ first.Signals) (right : ¬ second.Signals) :
    compare? first second ≠ none := by
  induction first using part_induction generalizing second with
  | step first smaller =>
    have parts {part other : Value} (here : part.PartOf first) (there : other.PartOf second) :
        compare? part other ≠ none :=
      smaller part here (fun deeper => left (.inside here deeper))
        fun deeper => right (.inside there deeper)
    fun_cases compare? first second
    case case4 =>
      exact compareElements?_ne_none fun _ here _ there => parts (.list here) (.list there)
    case case6 =>
      exact compareElements?_ne_none fun _ here _ there => parts (.tuple here) (.tuple there)
    case case8 =>
      exact compareEntries?_ne_none fun _ here _ there => parts (.map here) (.map there)
    case case14 =>
      exact compareNumbers?_ne_none (Bool.eq_false_iff.mpr fun signaling => left (.here signaling))
        (Bool.eq_false_iff.mpr fun signaling => right (.here signaling))
    all_goals exact nofun

theorem definite_of_partOf {part value : Value} (inner : part.PartOf value)
    (definite : value.definite = true) : part.definite = true := by
  cases inner with
  | list member => exact definite_list_iff.mp definite part member
  | tuple member => exact definite_tuple_iff.mp definite part member
  | set member => exact (definite_set_iff.mp definite).2 part member
  | map member => exact ((definite_map_iff.mp definite).2 _ member).2

theorem not_signals_of_definite {value : Value} (definite : value.definite = true) :
    ¬ value.Signals := by
  intro signals
  induction signals with
  | @here value signaling =>
    unfold isSignaling at signaling
    split at signaling
    · cases definite
    · cases signaling
  | inside inner deeper tail => exact tail (definite_of_partOf inner definite)

/-- Any two values without not-a-numbers can be compared. -/
theorem compare?_of_definite {first second : Value} (here : first.definite = true)
    (there : second.definite = true) : compare? first second = some (same first second) := by
  obtain ⟨equal, compared⟩ := Option.ne_none_iff_exists'.mp
    (compare?_ne_none (not_signals_of_definite here) (not_signals_of_definite there))
  rw [same, compared]
  cases equal <;> rfl

/-- Two maps from names are equal if they have the same names, with equal values. -/
theorem equal_ofNames {first second : List (String × Value)} (distinct : (first.map Prod.fst).Nodup)
    (others : (second.map Prod.fst).Nodup)
    (names : ∀ name, name ∈ first.map Prod.fst ↔ name ∈ second.map Prod.fst)
    (equal : ∀ name value, Entries.get? first name = some value →
      ∃ other, Entries.get? second name = some other ∧ Equal value other) :
    Equal (.ofNames first) (.ofNames second) := by
  have text (entries : List (String × Value)) :
      ∀ entry ∈ entries.map fun entry => (text entry.1, entry.2), entry.1.definite = true := by
    intro entry member
    obtain ⟨named, -, rfl⟩ := List.mem_map.mp member
    rfl
  have unequal : Unequal ((second.map fun entry => (Value.text entry.1, entry.2)).map Prod.fst) := by
    rw [Unequal, List.map_map, List.pairwise_map]
    exact (List.pairwise_map.mp others).imp fun differ => by simpa using differ
  refine (same_map_iff_covers equivalenceOn_definite (text first) (text second) unequal).mpr ⟨?_, ?_⟩
  · have keys := (List.perm_ext_iff_of_nodup distinct others).mpr names
    simpa using keys.length_eq
  · intro entry member
    obtain ⟨⟨name, value⟩, here, rfl⟩ := List.mem_map.mp member
    obtain ⟨other, found, same⟩ := equal name value (Entries.get?_of_mem distinct here)
    refine ⟨(.text name, other), List.mem_map.mpr ⟨_, Entries.mem_of_get? found, rfl⟩, ?_, same⟩
    exact (same_text name name).trans (beq_self_eq_true name)

end Value

end RecordMerge

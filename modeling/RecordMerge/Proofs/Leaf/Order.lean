import Mathlib.Data.List.Pairwise
import RecordMerge.Proofs.Leaf.Path

/-! The order of a walk: depth first, and through the entries of a map as they stand. Where no two
keys of a map have the same text, no leaf is on the path of another one. -/

set_option autoImplicit false

namespace RecordMerge

open Record (Apart)

/-- The texts of the keys, in order; a key without a text is left out. -/
def Record.texts (record : Record) : List String :=
  record.filterMap fun entry => entry.1.toText?

namespace Value

mutual

/-- Whether the keys of a map have different texts, in every map as far as maps nest in maps. -/
def isUnambiguous : Value → Bool
  | .map entries => decide (Record.texts entries).Nodup && entriesUnambiguous entries
  | _ => true

def entriesUnambiguous : List (Value × Value) → Bool
  | [] => true
  | (_, value) :: rest => isUnambiguous value && entriesUnambiguous rest

end

theorem isUnambiguous_map_iff {entries : Record} :
    (Value.map entries).isUnambiguous = true ↔
      entries.texts.Nodup ∧ ∀ entry ∈ entries, entry.2.isUnambiguous = true := by
  have each (rest : Record) :
      entriesUnambiguous rest = true ↔ ∀ entry ∈ rest, entry.2.isUnambiguous = true := by
    induction rest with
    | nil => simp [entriesUnambiguous]
    | cons entry rest tail => simp [entriesUnambiguous, tail]
  rw [isUnambiguous, Bool.and_eq_true, decide_eq_true_iff, each]

end Value

namespace Record

/-- Whether the keys of the record, and of all maps nested in its maps, have different texts. -/
def isUnambiguous (record : Record) : Bool :=
  (Value.map record).isUnambiguous

theorem map_text_texts {record : Record} (names : record.named = true) :
    record.texts.map .text = record.map Prod.fst := by
  fun_induction named record with
  | case1 => rfl
  | case2 name value rest tail =>
    obtain ⟨-, others⟩ := (named_cons_iff value).mp names
    simpa [texts] using tail others
  | case3 => cases names

end Record

/-- Different texts as keys have different texts. -/
theorem Value.isUnambiguous_of_isTree {value : Value} (tree : value.isTree = true) :
    value.isUnambiguous = true := by
  induction value using Value.map_induction with
  | plain value plain =>
    cases value with
    | map entries =>
      cases entries with
      | nil => rfl
      | cons entry rest => cases plain
    | _ => rfl
  | node entries node tail =>
    obtain ⟨names, below⟩ := isTree_map_iff.mp tree
    refine isUnambiguous_map_iff.mpr ⟨?_, fun entry member => ?_⟩
    · apply List.Nodup.of_map Value.text
      rw [Record.map_text_texts names]
      exact Record.nodup_of_named names
    · obtain ⟨name, -, held⟩ := Record.get?_of_mem names member
      exact tail entry member (below name _ held)

namespace Record

/-- The first path comes before the second one in a walk through the record: the names at which they
part are keys of one map, and stand in this order there. -/
inductive Precedes : Record → List String → List String → Prop where
  | part {record : Record} {name other : String} {first second : List String} :
      List.Sublist [name, other] record.texts →
      Precedes record (name :: first) (other :: second)
  | within {record entries : Record} {key : Value} {name : String} {first second : List String} :
      (key, .map entries) ∈ record → key.toText? = some name → Precedes entries first second →
      Precedes record (name :: first) (name :: second)

theorem texts_cons_of_text {key : Value} {name : String} (text : key.toText? = some name)
    (value : Value) (rest : Record) : texts ((key, value) :: rest) = name :: rest.texts :=
  List.filterMap_cons_some text

theorem texts_sublist_cons (entry : Value × Value) (rest : Record) :
    rest.texts.Sublist (texts (entry :: rest)) :=
  (List.sublist_cons_self entry rest).filterMap _

theorem mem_texts_of_mem {record : Record} {entry : Value × Value} {name : String}
    (member : entry ∈ record) (text : entry.1.toText? = some name) : name ∈ record.texts :=
  List.mem_filterMap.mpr ⟨entry, member, text⟩

/-- Keys with different texts are told by them. -/
theorem eq_of_toText? {record : Record} (distinct : record.texts.Nodup) {entry other : Value × Value}
    (member : entry ∈ record) (within : other ∈ record) {name : String}
    (text : entry.1.toText? = some name) (also : other.1.toText? = some name) : entry = other := by
  have apart := List.pairwise_filterMap.mp distinct
  by_contra differs
  have symmetric : Std.Symm fun left right : Value × Value =>
      ∀ one, left.1.toText? = some one → ∀ two, right.1.toText? = some two → one ≠ two :=
    ⟨fun _ _ unlike one isOne two isTwo same => unlike two isTwo one isOne same.symm⟩
  exact apart.forall member within differs name text name also rfl

theorem ne_of_sublist_texts {record : Record} (distinct : record.texts.Nodup) {name other : String}
    (order : List.Sublist [name, other] record.texts) : name ≠ other := by
  have apart := List.nodup_cons.mp (distinct.sublist order)
  exact fun same => apart.1 (same ▸ List.mem_singleton_self _)

theorem not_sublist_swap {names : List String} (distinct : names.Nodup) {first second : String}
    (order : List.Sublist [first, second] names) : ¬ List.Sublist [second, first] names := by
  induction names with
  | nil => cases order
  | cons name rest tail =>
    obtain ⟨fresh, others⟩ := List.nodup_cons.mp distinct
    intro turned
    cases order with
    | cons _ later =>
      cases turned with
      | cons _ also => exact tail others later also
      | cons_cons _ also => exact fresh (later.subset (by simp))
    | cons_cons _ later =>
      cases turned with
      | cons _ also => exact fresh (also.subset (by simp))
      | cons_cons _ also => exact fresh (also.subset (by simp))

namespace Precedes

variable {record : Record} {first second : List String}

theorem cons (precedes : Precedes record first second) (entry : Value × Value) :
    Precedes (entry :: record) first second := by
  cases precedes with
  | part order => exact .part (order.trans (texts_sublist_cons entry record))
  | within member text inner => exact .within (List.mem_cons_of_mem _ member) text inner

theorem apart (precedes : Precedes record first second) (clear : record.isUnambiguous = true) :
    Apart first second := by
  induction precedes with
  | part order =>
    obtain ⟨distinct, -⟩ := Value.isUnambiguous_map_iff.mp clear
    exact apart_cons_iff.mpr fun same => absurd same (ne_of_sublist_texts distinct order)
  | within member text inner tail =>
    obtain ⟨-, below⟩ := Value.isUnambiguous_map_iff.mp clear
    exact apart_cons_iff.mpr fun _ => tail (below _ member)

theorem irrefl (clear : record.isUnambiguous = true) : ¬ Precedes record first first :=
  fun precedes => (precedes.apart clear).1 (List.prefix_refl first)

theorem asymm (precedes : Precedes record first second) (clear : record.isUnambiguous = true) :
    ¬ Precedes record second first := by
  induction precedes with
  | part order =>
    obtain ⟨distinct, -⟩ := Value.isUnambiguous_map_iff.mp clear
    intro turned
    cases turned with
    | part reverse => exact not_sublist_swap distinct order reverse
    | within member text inner => exact ne_of_sublist_texts distinct order rfl
  | within member text inner tail =>
    obtain ⟨distinct, below⟩ := Value.isUnambiguous_map_iff.mp clear
    intro turned
    cases turned with
    | part reverse => exact ne_of_sublist_texts distinct reverse rfl
    | within also otherText turnedInner =>
      cases eq_of_toText? distinct member also text otherText
      exact tail (below _ member) turnedInner

end Precedes

end Record

namespace Leaf

open Record (Precedes)

variable {keys : List String} {policy : Policy}

/-- Two visits at or below a path, if both of them are leaves, come in the order of a walk. -/
def VisitsInOrder (path : List String) (value : Value) (first second : Visit) : Prop :=
  ∀ left right, first = .ok left → second = .ok right →
    ∃ entries here there, value = .map entries ∧ left.path = path ++ here ∧
      right.path = path ++ there ∧ Precedes entries here there

theorem pairwise_ofEntries {parent : List String} {entries : Record}
    (inner : ∀ entry ∈ entries, ∀ path,
      (below keys policy path entry.2).Pairwise (VisitsInOrder path entry.2)) :
    (ofEntries keys policy parent entries).Pairwise (VisitsInOrder parent (.map entries)) := by
  induction entries with
  | nil => exact List.Pairwise.nil
  | cons entry rest tail =>
    obtain ⟨key, value⟩ := entry
    obtain ⟨here, others⟩ := List.forall_mem_cons.mp inner
    have later : (ofEntries keys policy parent rest).Pairwise
        (VisitsInOrder parent (.map ((key, value) :: rest))) := by
      refine (tail others).imp fun ordered left right isLeft isRight => ?_
      obtain ⟨_, first, second, same, leftPath, rightPath, precedes⟩ :=
        ordered left right isLeft isRight
      cases same
      exact ⟨_, first, second, rfl, leftPath, rightPath, precedes.cons _⟩
    rw [ofEntries]
    cases text : key.toText? with
    | none =>
      refine List.pairwise_cons.mpr ⟨?_, later⟩
      intro visit member left right isLeft
      cases isLeft
    | some name =>
      refine List.pairwise_append.mpr ⟨?_, later, ?_⟩
      · refine (here (parent ++ [name])).imp fun ordered left right isLeft isRight => ?_
        obtain ⟨entries, first, second, rfl, leftPath, rightPath, precedes⟩ :=
          ordered left right isLeft isRight
        exact ⟨_, name :: first, name :: second, rfl, by simp [leftPath], by simp [rightPath],
          .within List.mem_cons_self text precedes⟩
      -- A leaf below the first entry and one below a later entry part at the names of the entries.
      · intro first met second after left right isLeft isRight
        subst isLeft isRight
        obtain ⟨entry, member, other, otherText, found⟩ := mem_ofEntries_iff.mp after
        obtain ⟨above, leftPath, -⟩ := of_mem_below met
        obtain ⟨beside, rightPath, -⟩ := of_mem_below found
        refine ⟨_, name :: above, other :: beside, rfl, by simp [leftPath], by simp [rightPath],
          .part ?_⟩
        rw [Record.texts_cons_of_text text]
        have known := Record.mem_texts_of_mem member otherText
        exact (List.singleton_sublist.mpr known).cons_cons name

theorem pairwise_below (path : List String) (value : Value) :
    (below keys policy path value).Pairwise (VisitsInOrder path value) := by
  induction value using Value.map_induction generalizing path with
  | plain value plain =>
    rw [below_of_not_mapNode path plain]
    split
    · exact List.Pairwise.nil
    · exact List.pairwise_singleton _ _
  | node entries node tail =>
    rw [below_mapNode path node]
    split
    · exact List.Pairwise.nil
    · exact pairwise_ofEntries fun entry member path => tail entry member path

end Leaf

namespace Record

variable {record : Record} {schema : KeySchema} {policy : Policy}

/-- The leaves are in the order of the walk, in any record and as far as the walk comes. -/
theorem pairwise_precedes_leaves (record : Record) (schema : KeySchema) (policy : Policy) :
    (record.leaves schema policy).Pairwise fun first second =>
      Precedes record first.path second.path := by
  have visits : (Leaf.ofEntries schema.names policy [] record).Pairwise
      (Leaf.VisitsInOrder [] (.map record)) :=
    Leaf.pairwise_ofEntries fun entry _ path => Leaf.pairwise_below path entry.2
  have leaves := List.pairwise_map.mp (visits.sublist (Walk.leaves_isPrefix _).sublist)
  refine leaves.imp fun ordered => ?_
  obtain ⟨_, here, there, same, leftPath, rightPath, precedes⟩ := ordered _ _ rfl rfl
  cases same
  rw [leftPath, rightPath]
  exact precedes

theorem pairwise_apart_leaves (clear : record.isUnambiguous = true) :
    (record.leaves schema policy).Pairwise fun first second => Apart first.path second.path :=
  (pairwise_precedes_leaves record schema policy).imp fun precedes => precedes.apart clear

/-- No leaf of a tree stands on the path of another one, and none below it. -/
theorem pairwise_leaves (tree : record.isTree = true) :
    (record.leaves schema policy).Pairwise fun first second => Apart first.path second.path :=
  pairwise_apart_leaves (Value.isUnambiguous_of_isTree tree)

end Record

end RecordMerge

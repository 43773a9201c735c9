import Mathlib.Data.List.Infix
import RecordMerge.Proofs.Record.Names

/-! Positions in a record: a path of names leads through maps that nest in each other. Writing at
one position leaves every position alone that is neither on the way to it nor below it. -/

set_option autoImplicit false

namespace RecordMerge

namespace Value

/-- The value at a path of names. -/
def at? : List String → Value → Option Value
  | [], value => some value
  | name :: rest, .map entries => (Record.get? name entries).bind (at? rest)
  | _ :: _, _ => none

mutual

/-- Whether the maps of a value, as far as they nest in maps, have distinct texts as keys. -/
def isTree : Value → Bool
  | .map entries => entriesAreTrees entries
  | _ => true

def entriesAreTrees : List (Value × Value) → Bool
  | [] => true
  | (.text name, value) :: rest =>
    !Record.contains name rest && isTree value && entriesAreTrees rest
  | _ :: _ => false

end

@[simp] theorem at?_nil (value : Value) : value.at? [] = some value := by
  cases value <;> rfl

@[simp] theorem at?_map_cons (entries : Record) (name : String) (rest : List String) :
    (Value.map entries).at? (name :: rest) = (entries.get? name).bind (at? rest) := rfl

theorem at?_single (entries : Record) (name : String) :
    (Value.map entries).at? [name] = entries.get? name := by
  rw [at?_map_cons]
  cases entries.get? name <;> simp

theorem at?_append (first rest : List String) (value : Value) :
    value.at? (first ++ rest) = (value.at? first).bind (at? rest) := by
  induction first generalizing value with
  | nil => simp
  | cons name first tail =>
    cases value with
    | map entries =>
      simp only [List.cons_append, at?_map_cons]
      cases Record.get? name entries with
      | none => rfl
      | some held => exact tail held
    | _ => rfl

/-- On the way to a position with a value there are maps only. -/
theorem isMap_of_at?_append {value held : Value} {path : List String} {name : String}
    {rest : List String} (found : value.at? (path ++ name :: rest) = some held) :
    ∃ entries, value.at? path = some (.map entries) := by
  rw [at?_append] at found
  obtain ⟨step, reached, below⟩ := Option.bind_eq_some_iff.mp found
  cases step with
  | map entries => exact ⟨entries, reached⟩
  | _ => cases below

theorem isTree_map_iff {entries : Record} :
    (Value.map entries).isTree = true ↔
      entries.named = true ∧
        ∀ name value, entries.get? name = some value → value.isTree = true := by
  rw [isTree]
  induction entries with
  | nil => simp [entriesAreTrees, Record.named, Record.get?]
  | cons entry rest tail =>
    obtain ⟨key, held⟩ := entry
    cases key with
    | text key =>
      simp only [entriesAreTrees, Record.named, Bool.and_eq_true, tail]
      constructor
      · rintro ⟨⟨absent, tree⟩, names, below⟩
        refine ⟨⟨absent, names⟩, fun name value found => ?_⟩
        by_cases same : key = name
        · simp only [Record.get?, same, if_true, Option.some.injEq] at found
          exact found ▸ tree
        · simp only [Record.get?, same, if_false] at found
          exact below name value found
      · rintro ⟨⟨absent, names⟩, below⟩
        refine ⟨⟨absent, below key held (by simp [Record.get?])⟩, names, fun name value found => ?_⟩
        have differs : key ≠ name := by
          rintro rfl
          simp [Record.contains, found] at absent
        exact below name value (by simpa [Record.get?, differs] using found)
    | _ => simp [entriesAreTrees, Record.named]

theorem isTree_of_at? {value held : Value} {path : List String} (tree : value.isTree = true)
    (found : value.at? path = some held) : held.isTree = true := by
  induction path generalizing value with
  | nil =>
    rw [at?_nil, Option.some.injEq] at found
    exact found ▸ tree
  | cons name rest tail =>
    cases value with
    | map entries =>
      obtain ⟨next, reached, below⟩ := Option.bind_eq_some_iff.mp found
      exact tail ((isTree_map_iff.mp tree).2 name next reached) below
    | _ => cases found

end Value

namespace Record

open Value (isTree_map_iff)

/-- Whether the record and all maps nested in its maps have distinct texts as keys. -/
def isTree (record : Record) : Bool :=
  (Value.map record).isTree

def at? (record : Record) (path : List String) : Option Value :=
  (Value.map record).at? path

/-- Two paths neither of which leads through the other. -/
def Apart (first second : List String) : Prop :=
  ¬ first <+: second ∧ ¬ second <+: first

theorem Apart.symm {first second : List String} (apart : Apart first second) :
    Apart second first :=
  ⟨apart.2, apart.1⟩

theorem apart_cons_iff {name other : String} {first second : List String} :
    Apart (name :: first) (other :: second) ↔ (name = other → Apart first second) := by
  simp only [Apart, List.cons_prefix_cons, not_and]
  by_cases same : name = other <;> simp [same, Ne.symm]

theorem at?_single (record : Record) (name : String) : record.at? [name] = record.get? name :=
  Value.at?_single record name

-- A branch is empty where the record has no map under the name, and then neither side has a value.
theorem at?_branch (record : Record) (name next : String) (rest : List String) :
    (record.branch name).at? (next :: rest) = record.at? (name :: next :: rest) := by
  simp only [at?, Value.at?_map_cons, branch]
  cases record.get? name with
  | none => rfl
  | some value => cases value <;> rfl

theorem at?_set_self (record : Record) (name : String) (value : Value) (rest : List String) :
    (record.set name value).at? (name :: rest) = value.at? rest := by
  simp [at?, get?_set_self]

theorem at?_set_of_ne (record : Record) {name other : String} (value : Value) (rest : List String)
    (differs : name ≠ other) :
    (record.set name value).at? (other :: rest) = record.at? (other :: rest) := by
  simp [at?, get?_set_of_ne value record differs]

/-- What a write leaves at its own position. -/
theorem at?_write_self (value : Value) (keep : Bool) (path : List String) (record : Record)
    (nonempty : path ≠ []) :
    (write value keep path record).at? path =
      some (if keep then (record.at? path).getD value else value) := by
  fun_induction write value keep path record with
  | case1 => exact absurd rfl nonempty
  | case2 name record held =>
    obtain ⟨kept, stored⟩ := Bool.and_eq_true_iff.mp held
    obtain ⟨item, found⟩ := contains_iff.mp stored
    rw [at?_single, found]
    simp [kept]
  | case3 name record fresh =>
    rw [at?_single, at?_single, get?_set_self]
    cases keep with
    | false => rfl
    | true =>
      have absent : record.get? name = none := by simpa [contains] using fresh
      simp [absent]
  | case4 name rest record longer tail =>
    cases rest with
    | nil => exact absurd rfl longer
    | cons next rest =>
      have below := tail (by simp)
      rw [at?_branch] at below
      rw [at?_set_self]
      exact below

-- The induction follows the path of the write. The other position leaves that path at some name,
-- and from there on the write does not meet it; until then the write copies the way to it.
theorem at?_write_apart (value : Value) (keep : Bool) {path other : List String} (record : Record)
    (apart : Apart path other) : (write value keep path record).at? other = record.at? other := by
  fun_induction write value keep path record generalizing other with
  | case1 => rfl
  | case2 => rfl
  | case3 name record fresh =>
    cases other with
    | nil => exact absurd List.nil_prefix apart.2
    | cons head rest =>
      have differs : name ≠ head := by
        rintro rfl
        exact apart.1 (by simp)
      exact at?_set_of_ne record value rest differs
  | case4 name rest record longer tail =>
    cases other with
    | nil => exact absurd List.nil_prefix apart.2
    | cons head other =>
      by_cases same : name = head
      · subst same
        have below := apart_cons_iff.mp apart rfl
        cases other with
        | nil => exact absurd List.nil_prefix below.2
        | cons next other =>
          rw [at?_set_self, ← at?_branch]
          exact tail below
      · exact at?_set_of_ne record _ other same

theorem isTree_set {record : Record} {name : String} {value : Value} (tree : record.isTree = true)
    (written : value.isTree = true) : (record.set name value).isTree = true := by
  obtain ⟨names, below⟩ := isTree_map_iff.mp tree
  refine isTree_map_iff.mpr ⟨named_set names, fun other held found => ?_⟩
  rw [get?_set] at found
  split at found
  · rw [Option.some.injEq] at found
    exact found ▸ written
  · exact below other held found

theorem isTree_branch {record : Record} (tree : record.isTree = true) (name : String) :
    (record.branch name).isTree = true := by
  unfold branch
  split
  · next entries found => exact (isTree_map_iff.mp tree).2 name _ found
  · rfl

theorem isTree_write {value : Value} {keep : Bool} {path : List String} {record : Record}
    (tree : record.isTree = true) (written : value.isTree = true) :
    (write value keep path record).isTree = true := by
  fun_induction write value keep path record with
  | case1 => exact tree
  | case2 => exact tree
  | case3 => exact isTree_set tree written
  | case4 name rest record longer tail => exact isTree_set tree (tail (isTree_branch tree name))

end Record

end RecordMerge

import RecordMerge.Attribute.Load
import RecordMerge.Proofs.Merge.Write
import RecordMerge.Proofs.Outcome

/-! Records as they are received. Reading one makes neither a key that is no text nor an unset mark:
both come in with what is received, or not at all. -/

set_option autoImplicit false

namespace RecordMerge

theorem Record.contains_of_keys_eq {name : String} {first second : Record}
    (keys : first.map Prod.fst = second.map Prod.fst) :
    first.contains name = second.contains name := by
  induction first generalizing second with
  | nil =>
    cases second with
    | nil => rfl
    | cons entry rest => cases keys
  | cons entry rest tail =>
    cases second with
    | nil => cases keys
    | cons other others =>
      obtain ⟨key, value⟩ := entry
      obtain ⟨same, value'⟩ := other
      obtain ⟨rfl, later⟩ := List.cons.inj keys
      have below := tail later
      simp only [contains] at below ⊢
      cases key with
      | text key => by_cases equal : key = name <;> simp [get?, equal, below]
      | _ => simpa [get?] using below

namespace Value

/-- Reading a value leaves a tree a tree, and brings no unset mark in. -/
structure Keeps (value loaded : Value) : Prop where
  tree : value.isTree = true → loaded.isTree = true
  free : value.unsetFree = true → loaded.unsetFree = true

/-- The same for the entries of a map, which keep their keys. -/
structure EntriesKeep (entries loaded : List (Value × Value)) : Prop where
  keys : loaded.map Prod.fst = entries.map Prod.fst
  tree : entriesAreTrees entries = true → entriesAreTrees loaded = true
  free : entriesUnsetFree entries = true → entriesUnsetFree loaded = true

theorem Keeps.trans {first second third : Value} (earlier : first.Keeps second)
    (later : second.Keeps third) : first.Keeps third where
  tree := fun given => later.tree (earlier.tree given)
  free := fun given => later.free (earlier.free given)

/-- A value without parts keeps to what it is. -/
theorem keeps_of_plain (value : Value) {loaded : Value} (tree : loaded.isTree = true)
    (free : loaded.unsetFree = true) : value.Keeps loaded where
  tree := fun _ => tree
  free := fun _ => free

theorem allUnsetFree_iff {elements : List Value} :
    allUnsetFree elements = true ↔ ∀ element ∈ elements, element.unsetFree = true := by
  induction elements with
  | nil => simp [allUnsetFree]
  | cons first rest tail => simp [allUnsetFree, tail]

theorem entriesKeep_cons {key value loaded : Value} {rest others : List (Value × Value)}
    (first : value.Keeps loaded) (later : EntriesKeep rest others) :
    EntriesKeep ((key, value) :: rest) ((key, loaded) :: others) where
  keys := by rw [List.map_cons, List.map_cons, later.keys]
  tree given := by
    cases key with
    | text name =>
      simp only [entriesAreTrees, Bool.and_eq_true] at given ⊢
      rw [Record.contains_of_keys_eq later.keys]
      exact ⟨⟨given.1.1, first.tree given.1.2⟩, later.tree given.2⟩
    | _ => cases given
  free given := by
    simp only [entriesUnsetFree, Bool.and_eq_true] at given ⊢
    exact ⟨⟨given.1.1, first.free given.1.2⟩, later.free given.2⟩

theorem keeps_map {entries loaded : List (Value × Value)} (kept : EntriesKeep entries loaded) :
    (Value.map entries).Keeps (.map loaded) :=
  ⟨kept.tree, kept.free⟩

theorem unsetFree_setOf {frozen : Bool} {elements : List Value}
    (free : ∀ element ∈ elements, element.unsetFree = true) :
    (setOf frozen elements).unsetFree = true := by
  have within (elements kept : List Value)
      (free : ∀ element ∈ elements, element.unsetFree = true)
      (also : ∀ element ∈ kept, element.unsetFree = true) :
      ∀ element ∈ elements.foldl (fun kept element =>
        if kept.any fun known => same known element then kept else kept ++ [element]) kept,
        element.unsetFree = true := by
    induction elements generalizing kept with
    | nil => exact also
    | cons first rest tail =>
      obtain ⟨here, others⟩ := List.forall_mem_cons.mp free
      apply tail _ others
      beta_reduce
      split
      · exact also
      · exact List.forall_mem_append.mpr ⟨also, List.forall_mem_singleton.mpr here⟩
  exact allUnsetFree_iff.mpr (within elements [] free (by simp))

theorem unsetFree_of_iterate? {value : Value} {elements : List Value} (free : value.unsetFree = true)
    (row : value.iterate? = some elements) : ∀ element ∈ elements, element.unsetFree = true := by
  cases value with
  | text content =>
    cases row
    intro element member
    obtain ⟨char, -, rfl⟩ := List.mem_map.mp member
    rfl
  | bytes form content =>
    cases form with
    | wrapped growable => cases row
    | fixed | growable =>
      cases row
      intro element member
      obtain ⟨byte, -, rfl⟩ := List.mem_map.mp member
      rfl
  | list parts | tuple parts | set frozen parts =>
    cases row
    exact allUnsetFree_iff.mp free
  | map entries =>
    cases row
    rw [unsetFree] at free
    induction entries with
    | nil => simp
    | cons entry rest tail =>
      simp only [entriesUnsetFree, Bool.and_eq_true] at free
      exact List.forall_mem_cons.mpr ⟨free.1.1, tail free.2⟩
  | _ => cases row

theorem unsetFree_loadMembers {read : Value → Except Failure Value} {row members : List Value}
    (reads : ∀ value loaded, value.unsetFree = true → read value = .ok loaded →
      loaded.unsetFree = true)
    (free : ∀ element ∈ row, element.unsetFree = true) (done : loadMembers read row = .ok members) :
    ∀ member ∈ members, member.unsetFree = true := by
  induction row generalizing members with
  | nil =>
    cases done
    simp
  | cons value rest tail =>
    obtain ⟨first, others⟩ := List.forall_mem_cons.mp free
    obtain ⟨member, found, later⟩ := bind_eq_ok_iff.mp done
    split at later
    · obtain ⟨remaining, following, built⟩ := bind_eq_ok_iff.mp later
      cases built
      exact List.forall_mem_cons.mpr ⟨reads value member first found, tail others following⟩
    · cases later

theorem keeps_loadSet {read : Value → Except Failure Value} {content loaded : Value}
    (reads : ∀ value loaded, value.unsetFree = true → read value = .ok loaded →
      loaded.unsetFree = true)
    (done : loadSet read content = .ok loaded) : content.Keeps loaded := by
  obtain ⟨row, given, later⟩ := bind_eq_ok_iff.mp done
  obtain ⟨members, found, built⟩ := bind_eq_ok_iff.mp later
  cases built
  refine ⟨fun _ => rfl, fun free => ?_⟩
  apply unsetFree_setOf
  apply unsetFree_loadMembers reads _ found
  unfold asRow at given
  split at given
  · next elements walked =>
    cases given
    exact unsetFree_of_iterate? free walked
  · cases given

theorem plain_of_loadNumber {content loaded : Value} (done : loadNumber content = .ok loaded) :
    loaded.isTree = true ∧ loaded.unsetFree = true := by
  have number (amount : Except Number.Signal Number.Decimal)
      (read : loadNumber.number amount = .ok loaded) :
      loaded.isTree = true ∧ loaded.unsetFree = true := by
    cases amount with
    | error signal => cases read
    | ok amount =>
      cases read
      exact ⟨rfl, rfl⟩
  cases content with
  | text | int | bool | decimal | float => exact number _ done
  | list parts | tuple parts =>
    rw [loadNumber] at done
    split at done
    · exact number _ done
    · cases done
  | _ => cases done

theorem plain_of_loadBinary {content loaded : Value} (done : loadBinary content = .ok loaded) :
    loaded.isTree = true ∧ loaded.unsetFree = true := by
  unfold loadBinary at done
  split at done <;> cases done <;> exact ⟨rfl, rfl⟩

theorem keeps_loadPlain {tag : Attribute.Tag} {content loaded : Value}
    (done : loadTagged.loadPlain tag content = .ok loaded) : content.Keeps loaded := by
  have same : content.Keeps content := ⟨id, id⟩
  cases tag with
  | null =>
    cases done
    exact keeps_of_plain content rfl rfl
  | bool | text =>
    cases done
    exact same
  | number => exact keeps_of_plain content (plain_of_loadNumber done).1 (plain_of_loadNumber done).2
  | binary => exact keeps_of_plain content (plain_of_loadBinary done).1 (plain_of_loadBinary done).2
  | numbers => exact keeps_loadSet (fun _ _ _ read => (plain_of_loadNumber read).2) done
  | texts =>
    refine keeps_loadSet (fun value loaded free read => ?_) done
    cases read
    exact free
  | binaries => exact keeps_loadSet (fun _ _ _ read => (plain_of_loadBinary read).2) done
  | list | map => cases done

mutual

theorem keeps_loadTagged {tag : Attribute.Tag} {content loaded : Value}
    (done : loadTagged tag content = .ok loaded) : content.Keeps loaded := by
  rw [loadTagged.eq_def] at done
  cases content with
  | map entries =>
    cases tag with
    | map =>
      obtain ⟨held, below, built⟩ := bind_eq_ok_iff.mp done
      cases built
      exact keeps_map (entriesKeep_loadEntries below)
    | list =>
      obtain ⟨elements, below, built⟩ := bind_eq_ok_iff.mp done
      cases built
      exact ⟨fun _ => rfl, fun free => allUnsetFree_iff.mpr (unsetFree_loadKeys free below)⟩
    | _ => exact keeps_loadPlain done
  | list elements | tuple elements | set frozen elements =>
    cases tag with
    | map => cases done
    | list =>
      obtain ⟨held, below, built⟩ := bind_eq_ok_iff.mp done
      cases built
      exact ⟨fun _ => rfl, fun free => allUnsetFree_iff.mpr
        (unsetFree_loadAll (allUnsetFree_iff.mp free) below)⟩
    | _ => exact keeps_loadPlain done
  | _ =>
    cases tag with
    | map => cases done
    | list =>
      dsimp only at done
      split at done <;> cases done
      exact keeps_of_plain _ rfl rfl
    | _ => exact keeps_loadPlain done
termination_by structural content

theorem keeps_loadAttribute {value loaded : Value} (done : loadAttribute value = .ok loaded) :
    value.Keeps loaded := by
  cases value with
  | map entries =>
    cases entries with
    | nil => cases done
    | cons entry rest =>
      obtain ⟨tag, content⟩ := entry
      rw [loadAttribute] at done
      split at done
      · cases done
      · split at done
        · refine Keeps.trans ⟨fun tree => ?_, fun free => ?_⟩ (keeps_loadTagged done)
          · cases tag with
            | text name =>
              simp only [isTree, entriesAreTrees, Bool.and_eq_true] at tree
              exact tree.1.2
            | _ => cases tree
          · simp only [unsetFree, entriesUnsetFree, Bool.and_eq_true] at free
            exact free.1.2
        · cases done
  | _ => cases done
termination_by structural value

theorem unsetFree_loadAll {elements loaded : List Value}
    (free : ∀ element ∈ elements, element.unsetFree = true)
    (done : loadAll elements = .ok loaded) : ∀ element ∈ loaded, element.unsetFree = true := by
  cases elements with
  | nil =>
    cases done
    simp
  | cons value rest =>
    obtain ⟨here, later⟩ := List.forall_mem_cons.mp free
    obtain ⟨first, read, following⟩ := bind_eq_ok_iff.mp done
    obtain ⟨others, remaining, built⟩ := bind_eq_ok_iff.mp following
    cases built
    exact List.forall_mem_cons.mpr
      ⟨(keeps_loadAttribute read).free here, unsetFree_loadAll later remaining⟩
termination_by structural elements

theorem unsetFree_loadKeys {entries : List (Value × Value)} {loaded : List Value}
    (free : entriesUnsetFree entries = true) (done : loadKeys entries = .ok loaded) :
    ∀ element ∈ loaded, element.unsetFree = true := by
  cases entries with
  | nil =>
    cases done
    simp
  | cons entry rest =>
    obtain ⟨key, value⟩ := entry
    simp only [entriesUnsetFree, Bool.and_eq_true] at free
    obtain ⟨first, read, following⟩ := bind_eq_ok_iff.mp done
    obtain ⟨others, remaining, built⟩ := bind_eq_ok_iff.mp following
    cases built
    exact List.forall_mem_cons.mpr
      ⟨(keeps_loadAttribute read).free free.1.1, unsetFree_loadKeys free.2 remaining⟩
termination_by structural entries

theorem entriesKeep_loadEntries {entries loaded : List (Value × Value)}
    (done : loadEntries entries = .ok loaded) : EntriesKeep entries loaded := by
  cases entries with
  | nil =>
    cases done
    exact ⟨rfl, id, id⟩
  | cons entry rest =>
    obtain ⟨key, value⟩ := entry
    obtain ⟨first, read, following⟩ := bind_eq_ok_iff.mp done
    obtain ⟨others, remaining, built⟩ := bind_eq_ok_iff.mp following
    cases built
    exact entriesKeep_cons (keeps_loadAttribute read) (entriesKeep_loadEntries remaining)
termination_by structural entries

end

mutual

theorem keeps_unwrapped {value loaded : Value} (done : unwrapped value = .ok loaded) :
    value.Keeps loaded := by
  cases value with
  | bytes form content =>
    rcases form with _ | _ | growable
    · cases done
      exact ⟨id, id⟩
    · cases done
      exact ⟨id, id⟩
    · cases growable <;> cases done
      exact keeps_of_plain _ rfl rfl
  | map entries =>
    obtain ⟨held, below, built⟩ := bind_eq_ok_iff.mp done
    cases built
    exact keeps_map (entriesKeep_unwrappedEntries below)
  | list elements =>
    obtain ⟨held, below, built⟩ := bind_eq_ok_iff.mp done
    cases built
    exact ⟨fun _ => rfl, fun free => allUnsetFree_iff.mpr
      (unsetFree_unwrappedAll (allUnsetFree_iff.mp free) below)⟩
  | set frozen elements =>
    cases frozen with
    | true =>
      cases done
      exact ⟨id, id⟩
    | false =>
      obtain ⟨held, below, built⟩ := bind_eq_ok_iff.mp done
      cases built
      exact ⟨fun _ => rfl, fun free => allUnsetFree_iff.mpr
        (unsetFree_unwrappedAll (allUnsetFree_iff.mp free) below)⟩
  | _ =>
    cases done
    exact ⟨id, id⟩

theorem unsetFree_unwrappedAll {elements loaded : List Value}
    (free : ∀ element ∈ elements, element.unsetFree = true)
    (done : unwrappedAll elements = .ok loaded) : ∀ element ∈ loaded, element.unsetFree = true := by
  cases elements with
  | nil =>
    cases done
    simp
  | cons value rest =>
    obtain ⟨here, later⟩ := List.forall_mem_cons.mp free
    obtain ⟨first, read, following⟩ := bind_eq_ok_iff.mp done
    obtain ⟨others, remaining, built⟩ := bind_eq_ok_iff.mp following
    cases built
    exact List.forall_mem_cons.mpr
      ⟨(keeps_unwrapped read).free here, unsetFree_unwrappedAll later remaining⟩

theorem entriesKeep_unwrappedEntries {entries loaded : List (Value × Value)}
    (done : unwrappedEntries entries = .ok loaded) : EntriesKeep entries loaded := by
  cases entries with
  | nil =>
    cases done
    exact ⟨rfl, id, id⟩
  | cons entry rest =>
    obtain ⟨key, value⟩ := entry
    obtain ⟨first, read, following⟩ := bind_eq_ok_iff.mp done
    obtain ⟨others, remaining, built⟩ := bind_eq_ok_iff.mp following
    cases built
    exact entriesKeep_cons (keeps_unwrapped read) (entriesKeep_unwrappedEntries remaining)

end

theorem keeps_load {value loaded : Value} (done : value.load = .ok loaded) :
    value.Keeps loaded := by
  obtain ⟨middle, read, freed⟩ := bind_eq_ok_iff.mp done
  exact (keeps_loadAttribute read).trans (keeps_unwrapped freed)

end Value

/-- A received record that is a tree without unset marks is read as one. -/
theorem Record.entriesKeep_load {received record : Record} (done : received.load = .ok record) :
    Value.EntriesKeep received record := by
  induction received generalizing record with
  | nil =>
    cases done
    exact ⟨rfl, id, id⟩
  | cons entry rest tail =>
    obtain ⟨key, value⟩ := entry
    obtain ⟨first, read, following⟩ := bind_eq_ok_iff.mp done
    obtain ⟨others, remaining, built⟩ := bind_eq_ok_iff.mp following
    cases built
    exact Value.entriesKeep_cons (Value.keeps_load read) (tail remaining)

end RecordMerge

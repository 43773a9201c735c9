import RecordMerge.Proofs.Attribute.Restored

/-! The form that a record has after it was stored and read back. -/

set_option autoImplicit false

namespace RecordMerge

open Attribute (Kept)
open Number (Binary64 Decimal Quantity)

namespace Value

/-- What records are made of: truth values, finite numbers, texts, bytes, and at any depth rows, sets
and maps with names of them. Rows and maps may have unset elements. -/
inductive Ordinary : Value → Prop where
  | null : Ordinary .null
  | bool (flag : Bool) : Ordinary (.bool flag)
  | int (number : Int) : Ordinary (.int number)
  | float (negative : Bool) (biased : Fin 2047) (fraction : Fin 4503599627370496) :
      Ordinary (.float (.finite negative biased fraction))
  | decimal (negative : Bool) (coefficient : Nat) (exponent : Int) :
      Ordinary (.decimal (.finite negative coefficient exponent))
  | text (content : String) : Ordinary (.text content)
  | bytes (content : List UInt8) : Ordinary (.bytes .fixed content)
  | wrapped (content : List UInt8) : Ordinary (.bytes (.wrapped false) content)
  | list {elements : List Value} :
      (∀ element ∈ elements, element.isUnset = false → Ordinary element) →
      Ordinary (.list elements)
  | tuple {elements : List Value} :
      (∀ element ∈ elements, element.isUnset = false → Ordinary element) →
      Ordinary (.tuple elements)
  | set (frozen : Bool) {elements : List Value} : (∀ element ∈ elements, Ordinary element) →
      Ordinary (.set frozen elements)
  | map {entries : Record} : entries.named = true →
      (∀ entry ∈ entries, entry.2.isUnset = false → Ordinary entry.2) → Ordinary (.map entries)

/-- A truth value among the numbers of a set is one or zero. -/
def counted : Value → Value
  | .bool flag => .decimal (.ofInt (if flag then 1 else 0))
  | value => value

mutual

/-- Every number as a decimal, bytes without their wrapping, rows as lists, sets that are not frozen,
and no unset elements and entries. -/
def normal : Value → Value
  | .int number => .decimal (.ofInt number)
  | .float number => .decimal number.shortestDecimal
  | .bytes (.wrapped _) content => .bytes .fixed content
  | .list elements | .tuple elements => .list (normalElements elements)
  | .set _ elements => setOf false (normalMembers elements)
  | .map entries => .map (normalEntries entries)
  | value => value

def normalElements : List Value → List Value
  | [] => []
  | value :: rest =>
    if value.isUnset then normalElements rest else normal value :: normalElements rest

def normalMembers : List Value → List Value
  | [] => []
  | value :: rest => (normal value).counted :: normalMembers rest

def normalEntries : Record → Record
  | [] => []
  | (key, value) :: rest =>
    if value.isUnset then normalEntries rest else (key, normal value) :: normalEntries rest

end

theorem normalElements_eq_map (elements : List Value) :
    normalElements elements = (elements.filter fun value => !value.isUnset).map normal := by
  induction elements with
  | nil => rfl
  | cons value rest tail => cases unset : value.isUnset <;> simp [normalElements, unset, tail]

theorem normalMembers_eq_map (elements : List Value) :
    normalMembers elements = elements.map fun value => value.normal.counted := by
  induction elements with
  | nil => rfl
  | cons value rest tail => simp [normalMembers, tail]

theorem normalEntries_eq_map (entries : Record) :
    normalEntries entries =
      (entries.filter fun entry => !entry.2.isUnset).map fun entry => (entry.1, entry.2.normal) := by
  induction entries with
  | nil => rfl
  | cons entry rest tail =>
    obtain ⟨key, value⟩ := entry
    cases unset : value.isUnset <;> simp [normalEntries, unset, tail]

/-- A plain value that can be an element of a set that is stored. -/
inductive Single : Value → Prop where
  | null : Single .null
  | bool (flag : Bool) : Single (.bool flag)
  | int (number : Int) : Single (.int number)
  | decimal (negative : Bool) (coefficient : Nat) (exponent : Int) :
      Single (.decimal (.finite negative coefficient exponent))
  | text (content : String) : Single (.text content)
  | bytes (content : List UInt8) : Single (.bytes .fixed content)
  | wrapped (content : List UInt8) : Single (.bytes (.wrapped false) content)

theorem single_of_plain {value member : Value} (ordinary : value.Ordinary)
    (plained : plain value = .ok member) (key : member.canBeKey = true) :
    Single member ∧ member.normal.counted = value.normal.counted := by
  cases ordinary with
  | null =>
    cases plained
    exact ⟨.null, rfl⟩
  | bool flag =>
    cases plained
    exact ⟨.bool flag, rfl⟩
  | int number =>
    cases plained
    exact ⟨.int number, rfl⟩
  | float negative biased fraction =>
    obtain ⟨coefficient, exponent, shortest⟩ :=
      Binary64.exists_shortestDecimal negative biased fraction
    cases plained
    refine ⟨?_, rfl⟩
    rw [shortest]
    exact .decimal _ _ _
  | decimal negative coefficient exponent =>
    cases plained
    exact ⟨.decimal _ _ _, rfl⟩
  | text content =>
    cases plained
    exact ⟨.text content, rfl⟩
  | bytes content =>
    cases plained
    exact ⟨.bytes content, rfl⟩
  | wrapped content =>
    cases plained
    exact ⟨.wrapped content, rfl⟩
  | list each | tuple each | map names each =>
    obtain ⟨parts, -, built⟩ := bind_eq_ok_iff.mp plained
    cases built
    cases key
  | @set frozen elements each =>
    cases elements with
    | nil => cases plained
    | cons first rest =>
      obtain ⟨parts, -, built⟩ := bind_eq_ok_iff.mp plained
      cases built
      cases key

/-- The normal form of an element keeps which elements are equal. -/
theorem same_counted {first second : Value} (left : Single first) (right : Single second) :
    same first.normal.counted second.normal.counted = same first second := by
  cases left <;> cases right <;> rfl

theorem readAll_eq_some_iff {Item : Type} {read : Value → Option Item} {elements : List Value}
    {items : List Item} :
    readAll read elements = some items ↔
      List.Forall₂ (fun element item => read element = some item) elements items := by
  apply walk_iff_forall₂ elements items
  · simp [readAll, eq_comm]
  · intro element rest made
    simp only [readAll, Option.bind_eq_bind, Option.bind_eq_some_iff, Option.some.injEq]
    constructor
    · rintro ⟨item, here, others, later, rfl⟩
      exact ⟨item, others, here, later, rfl⟩
    · rintro ⟨item, others, here, later, rfl⟩
      exact ⟨item, here, others, later, rfl⟩

/-- Of elements that are not equal no two denote the same. -/
theorem nodup_of_unequal {Element Denoted : Type} {value : Element → Value}
    {denoted : Element → Denoted} {elements : List Element} (unequal : Unequal (elements.map value))
    (alike : ∀ first ∈ elements, ∀ second ∈ elements, denoted first = denoted second →
      same (value first) (value second) = true) : (elements.map denoted).Nodup := by
  refine List.pairwise_map.mpr ((List.pairwise_map.mp unequal).imp_of_mem ?_)
  intro first second left right differs equal
  rw [alike first left second right equal] at differs
  cases differs

section

variable {elements : List Value} (single : ∀ element ∈ elements, Single element)
include single

theorem counted_of_decimals {amounts : List Decimal}
    (read : readAll decimal? elements = some amounts) :
    (∀ amount ∈ amounts,
      ∃ negative coefficient exponent, amount = .finite negative coefficient exponent) ∧
    amounts.map Value.decimal = elements.map fun element => element.normal.counted := by
  refine row_of_each (readAll_eq_some_iff.mp read) fun element member amount found => ?_
  cases single element member with
  | bool | int | decimal =>
    cases found
    exact ⟨⟨_, _, _, rfl⟩, rfl⟩
  | _ => cases found

theorem counted_of_texts {texts : List String} (read : readAll text? elements = some texts) :
    texts.map Value.text = elements.map fun element => element.normal.counted := by
  have each : (∀ content ∈ texts, True) ∧
      texts.map Value.text = elements.map fun element => element.normal.counted := by
    refine row_of_each (readAll_eq_some_iff.mp read) fun element member content found => ?_
    cases single element member with
    | text =>
      cases found
      exact ⟨trivial, rfl⟩
    | _ => cases found
  exact each.2

theorem counted_of_bytes {rows : List (Bool × List UInt8)}
    (read : readAll bytes? elements = some rows) :
    ∃ contents : List (List UInt8), rows = contents.map (false, ·) ∧
      contents.map (Value.bytes .fixed) = elements.map fun element => element.normal.counted := by
  have each : (∀ row ∈ rows, (false, row.2) = row) ∧
      rows.map (fun row => Value.bytes .fixed row.2) =
        elements.map fun element => element.normal.counted := by
    refine row_of_each (readAll_eq_some_iff.mp read) fun element member row found => ?_
    cases single element member with
    | bytes | wrapped =>
      cases found
      exact ⟨rfl, rfl⟩
    | _ => cases found
  refine ⟨rows.map Prod.snd, ?_, by rw [← each.2, List.map_map]; rfl⟩
  rw [List.map_map, ← List.map_id rows, List.map_map]
  exact List.map_congr_left fun row member => (each.1 row member).symm

/-- A set of single values is stored as the set of their normal forms. -/
theorem storeSet_of_single {stored : Attribute} (nonempty : elements ≠ [])
    (unequal : Unequal elements) (done : storeSet false elements = .ok stored) :
    stored.Sound ∧
      stored.native = .set false (elements.map fun element => element.normal.counted) := by
  have apart : Unequal (elements.map fun element => element.normal.counted) := by
    refine List.pairwise_map.mpr (unequal.imp_of_mem fun first second differs => ?_)
    rw [same_counted (single _ first) (single _ second), differs]
  have filled : (elements.map fun element => element.normal.counted) ≠ [] := by simpa using nonempty
  unfold storeSet at done
  split at done
  · next amounts read =>
    obtain ⟨finite, values⟩ := counted_of_decimals single read
    obtain ⟨kept, storing, built⟩ := bind_eq_ok_iff.mp done
    obtain ⟨all, rfl⟩ := (mapM_storeNumber_iff finite).mp storing
    cases built
    rw [← values] at apart filled ⊢
    refine ⟨.numbers (by simpa using filled) all (nodup_of_unequal apart ?_), rfl⟩
    intro first left second right equal
    rw [same_decimal (all first left) (all second right), equal, beq_self_eq_true]
  · next texts _ read =>
    have values := counted_of_texts single read
    cases done
    rw [← values] at apart filled ⊢
    refine ⟨.texts (by simpa using filled) ?_, rfl⟩
    rw [← List.map_id texts]
    exact nodup_of_unequal apart fun first _ second _ equal => by
      simp [show first = second from equal]
  · next rows _ _ read =>
    obtain ⟨contents, rfl, values⟩ := counted_of_bytes single read
    cases done
    rw [← values] at apart filled ⊢
    refine ⟨.binaries (by simpa using filled) ?_, by rw [Attribute.native, List.map_map]; rfl⟩
    rw [← List.map_id contents]
    exact nodup_of_unequal apart fun first _ second _ equal => by
      simp [same_bytes, show first = second from equal]
  · cases done

end

theorem stored_of_number {value : Value} {amount : Decimal} {stored : Attribute}
    (finite : ∃ negative coefficient exponent, amount = .finite negative coefficient exponent)
    (writes : value.store = do .ok (.number (← storeNumber amount)))
    (done : value.store = .ok stored) : stored.Sound ∧ stored.native = .decimal amount := by
  rw [writes] at done
  obtain ⟨written, storing, built⟩ := bind_eq_ok_iff.mp done
  obtain ⟨kept, rfl⟩ := (storeNumber_iff finite).mp storing
  cases built
  exact ⟨.number kept, rfl⟩

theorem stored_of_row {elements : List Value} {stored : Attribute}
    (each : ∀ element ∈ elements, element.isUnset = false → ∀ {stored}, element.store = .ok stored →
      stored.Sound ∧ stored.native = element.normal)
    (done : (Value.list elements).store = .ok stored) :
    stored.Sound ∧ stored.native = .list (normalElements elements) := by
  obtain ⟨made, pairs, rfl⟩ := store_list_eq_ok_iff.mp done
  obtain ⟨sound, values⟩ := row_of_each pairs fun element member sent storing =>
    each element (List.mem_filter.mp member).1 (by simpa using (List.mem_filter.mp member).2) storing
  refine ⟨.list sound, ?_⟩
  rw [Attribute.native, Attribute.nativeAll_eq_map, values, normalElements_eq_map]

theorem stored_of_entries {entries : Record} {item : Item} (names : entries.named = true)
    (each : ∀ entry ∈ entries, entry.2.isUnset = false → ∀ {stored}, entry.2.store = .ok stored →
      stored.Sound ∧ stored.native = entry.2.normal)
    (done : entries.storeEntries = .ok item) :
    (Attribute.map item).Sound ∧ (Attribute.map item).native = .map (normalEntries entries) := by
  obtain ⟨sound, values⟩ := row_of_each ((Record.storeEntries_eq_ok_iff names).mp done)
    fun entry member sent (writes : entry.1 = .text sent.1 ∧ entry.2.store = .ok sent.2) => by
      obtain ⟨inside, set⟩ := List.mem_filter.mp member
      obtain ⟨soundEntry, native⟩ := each entry inside (by simpa using set) writes.2
      exact ⟨soundEntry, (congrArg₂ Prod.mk writes.1.symm native : _ = (entry.1, entry.2.normal))⟩
  refine ⟨.map (Record.nodup_storeEntries names done) sound, ?_⟩
  rw [Attribute.native, Attribute.nativeEntries_eq_map, values, normalEntries_eq_map]

/-- An ordinary value that can be stored is stored as what stands for its normal form. -/
theorem Ordinary.stored {value : Value} {stored : Attribute} (ordinary : value.Ordinary)
    (done : value.store = .ok stored) : stored.Sound ∧ stored.native = value.normal := by
  induction ordinary generalizing stored with
  | null =>
    cases done
    exact ⟨.null, rfl⟩
  | bool flag =>
    cases done
    exact ⟨.bool flag, rfl⟩
  | text content =>
    cases done
    exact ⟨.text content, rfl⟩
  | bytes content | wrapped content =>
    cases done
    exact ⟨.binary content, rfl⟩
  | int number => exact stored_of_number ⟨_, _, _, rfl⟩ rfl done
  | float negative biased fraction =>
    obtain ⟨coefficient, exponent, shortest⟩ :=
      Binary64.exists_shortestDecimal negative biased fraction
    exact stored_of_number ⟨_, _, _, shortest⟩ rfl done
  | decimal negative coefficient exponent => exact stored_of_number ⟨_, _, _, rfl⟩ rfl done
  | list ordinary each => exact stored_of_row each done
  | tuple ordinary each =>
    rw [store_tuple] at done
    exact stored_of_row each done
  | @set frozen elements ordinary each =>
    obtain ⟨nonempty, members, plained, storing⟩ := store_set_eq_ok_iff.mp done
    obtain ⟨single, normals⟩ := row_of_each plained fun element member value made =>
      single_of_plain (ordinary element member) made.1 made.2
    have filled : members ≠ [] := by
      rintro rfl
      exact nonempty (List.forall₂_nil_right_iff.mp plained)
    obtain ⟨sound, native⟩ := storeSet_of_single
      (fun element member => single element (mem_of_mem_distinct member)) (distinct_ne_nil filled)
      (unequal_distinct members) storing
    refine ⟨sound, ?_⟩
    rw [native, normal, normalMembers_eq_map, ← normals, setOf_eq, distinct_map]
    exact fun first left second right => same_counted (single first left) (single second right)
  | map names ordinary each =>
    obtain ⟨item, storing, rfl⟩ := (store_map_eq_ok_iff names).mp done
    exact stored_of_entries names each storing

end Value

open Attribute (wireItem wireEntries)

/-- A record that can be stored is read back in its normal form, and that is stored as the same item:
sets have the same elements in some order, and all else is equal. -/
theorem Record.load_stored {record : Record} {item : Item} (ordinary : (Value.map record).Ordinary)
    (done : record.store = .ok item) :
    (wireItem item).loadItem = .ok (Value.normalEntries record) ∧
      ∀ again : Record, (Value.map (Value.normalEntries record)).Shuffles (.map again) →
        ∃ second, again.store = .ok second ∧ (Attribute.map item).Shuffles (.map second) := by
  have names : record.named = true := by
    cases ordinary with
    | map names => exact names
  have whole : (Value.map record).store = .ok (.map item) :=
    (Value.store_map_eq_ok_iff names).mpr ⟨item, (store_eq_ok_iff names).mp done, rfl⟩
  obtain ⟨sound, native⟩ := ordinary.stored whole
  rw [Value.normal] at native
  constructor
  · have read : (Attribute.map item).wire.load = .ok (.map (Value.normalEntries record)) :=
      (Attribute.load_iff (Attribute.spells_wire sound)).mpr ⟨sound, native.symm⟩
    obtain ⟨loaded, loading, built⟩ := Value.load_tagged_map_iff.mp read
    cases built
    exact loading
  · intro again shuffled
    obtain ⟨second, stored, order, -⟩ := Attribute.exists_store sound (native ▸ shuffled)
    exact ⟨second, stored, order⟩

/-- A parcel as a caller may give it. -/
def givenParcel : Record :=
  [(.text "share", .float (.ofRatio false 1 2)), (.text "owner", .unset),
    (.text "seal", .bytes (.wrapped false) [7]),
    (.text "hours", .set true [.bool true, .decimal (.finite true 250 2)]),
    (.text "stops", .tuple [.map [(.text "at", .int 12), (.text "gate", .unset)], .unset, .null])]

def keptParcel : Item :=
  [("share", .number (.finite false 5 (-1))), ("seal", .binary false [7]),
    ("hours", .numbers [.finite false 1 0, .finite true 250 2]),
    ("stops", .list [.map [("at", .number (.finite false 12 0))], .null])]

theorem Record.load_stored_parcel :
    (Value.map givenParcel).Ordinary ∧ givenParcel.store = .ok keptParcel ∧
      (wireItem keptParcel).loadItem = .ok (Value.normalEntries givenParcel) := by
  have hours : (Value.set true [.bool true, .decimal (.finite true 250 2)]).Ordinary :=
    .set true (List.forall_mem_cons.mpr ⟨.bool true, List.forall_mem_singleton.mpr (.decimal _ _ _)⟩)
  have stop : (Value.map [(.text "at", .int 12), (.text "gate", .unset)]).Ordinary := by
    refine .map rfl (List.forall_mem_cons.mpr ⟨fun _ => .int 12, ?_⟩)
    exact List.forall_mem_singleton.mpr nofun
  have stops : (Value.tuple [.map [(.text "at", .int 12), (.text "gate", .unset)], .unset,
      .null]).Ordinary := by
    refine .tuple (List.forall_mem_cons.mpr ⟨fun _ => stop, ?_⟩)
    exact List.forall_mem_cons.mpr ⟨nofun, List.forall_mem_singleton.mpr fun _ => .null⟩
  have half : Binary64.ofRatio false 1 2 = .finite false 1022 0 := by decide +kernel
  have ordinary : (Value.map givenParcel).Ordinary := by
    refine .map rfl (List.forall_mem_cons.mpr ⟨fun _ => half ▸ .float _ _ _, ?_⟩)
    refine List.forall_mem_cons.mpr ⟨nofun, List.forall_mem_cons.mpr ⟨fun _ => .wrapped _, ?_⟩⟩
    exact List.forall_mem_cons.mpr ⟨fun _ => hours, List.forall_mem_singleton.mpr fun _ => stops⟩
  have share : (Value.float (.ofRatio false 1 2)).store = .ok (.number (.finite false 5 (-1))) := by
    have written : (Value.float (.ofRatio false 1 2)).store =
        (do .ok (.number (← Value.storeNumber (Binary64.ofRatio false 1 2).shortestDecimal))) := rfl
    have shortest : Binary64.shortestDecimal (.finite false 1022 0) = .finite false 5 (-1) := by
      decide +kernel
    rw [written, half, shortest]
    rfl
  have kept : (Value.set true [.bool true, .decimal (.finite true 250 2)]).store =
      .ok (.numbers [.finite false 1 0, .finite true 250 2]) :=
    Value.store_set_eq_ok_iff.mpr
      ⟨List.cons_ne_nil _ _, _, .cons ⟨rfl, rfl⟩ (.cons ⟨rfl, rfl⟩ .nil), rfl⟩
  have met : (Value.map [(.text "at", .int 12), (.text "gate", .unset)]).store =
      .ok (.map [("at", .number (.finite false 12 0))]) := by
    have twelve : (Value.int 12).store = .ok (.number (.finite false 12 0)) := rfl
    rw [Value.store_map_eq_ok_iff rfl]
    refine ⟨_, ?_, rfl⟩
    simp [Record.storeEntries, Value.isUnset, twelve, bind_eq_ok_iff]
  have walked : (Value.tuple [.map [(.text "at", .int 12), (.text "gate", .unset)], .unset,
      .null]).store = .ok (.list [.map [("at", .number (.finite false 12 0))], .null]) :=
    Value.store_list_eq_ok_iff.mpr ⟨_, .cons met (.cons rfl .nil), rfl⟩
  have done : givenParcel.store = .ok keptParcel := by
    have sealed : (Value.bytes (.wrapped false) [7]).store = .ok (.binary false [7]) := rfl
    rw [Record.store_eq_ok_iff rfl]
    simp [givenParcel, keptParcel, Record.storeEntries, Value.isUnset, share, sealed, kept, walked,
      bind_eq_ok_iff]
  exact ⟨ordinary, done, (load_stored ordinary done).1⟩

end RecordMerge

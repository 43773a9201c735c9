import Mathlib.Data.List.Perm.Basic
import RecordMerge.Proofs.Attribute.Stored

/-! A received item that is read and stored again is what it was. A set lists its elements in no
order, so that it may be stored in any. -/

set_option autoImplicit false

namespace RecordMerge

open Number (Bounds Decimal Quantity)

/-- The second value is the first one with the elements of sets in any order. -/
inductive Value.Shuffles : Value → Value → Prop where
  | same (value : Value) : Shuffles value value
  | set (frozen : Bool) {elements others : List Value} : elements.Perm others →
      Shuffles (.set frozen elements) (.set frozen others)
  | list {elements others : List Value} : List.Forall₂ Shuffles elements others →
      Shuffles (.list elements) (.list others)
  | map {entries others : Record} : entries.map Prod.fst = others.map Prod.fst →
      List.Forall₂ Shuffles (entries.map Prod.snd) (others.map Prod.snd) →
      Shuffles (.map entries) (.map others)

namespace Attribute

/-- The second stored value is the first one with the elements of sets in any order. -/
inductive Shuffles : Attribute → Attribute → Prop where
  | same (stored : Attribute) : Shuffles stored stored
  | numbers {elements others : List Decimal} : elements.Perm others →
      Shuffles (.numbers elements) (.numbers others)
  | texts {elements others : List String} : elements.Perm others →
      Shuffles (.texts elements) (.texts others)
  | binaries {elements others : List (Bool × List UInt8)} : elements.Perm others →
      Shuffles (.binaries elements) (.binaries others)
  | list {elements others : List Attribute} : List.Forall₂ Shuffles elements others →
      Shuffles (.list elements) (.list others)
  | map {entries others : Item} : entries.map Prod.fst = others.map Prod.fst →
      List.Forall₂ Shuffles (entries.map Prod.snd) (others.map Prod.snd) →
      Shuffles (.map entries) (.map others)

/-- A received item that spells out a stored one, attribute by attribute. -/
structure SpellsItem (received : Record) (item : Item) : Prop where
  distinct : (item.map Prod.fst).Nodup
  keys : received.map Prod.fst = item.map fun entry => Value.text entry.1
  each : List.Forall₂ Spells (received.map Prod.snd) (item.map Prod.snd)

theorem exists_perm_of_map {Element Image : Type} {value : Element → Image} {elements : List Element}
    {others : List Image} (perm : (elements.map value).Perm others) :
    ∃ moved, elements.Perm moved ∧ others = moved.map value := by
  have images : List.Forall₂ (fun image element => image = value element) (elements.map value)
      elements := by
    rw [List.forall₂_map_left_iff, List.forall₂_same]
    exact fun _ _ => rfl
  obtain ⟨moved, made, order⟩ := List.perm_comp_forall₂ perm.symm images
  refine ⟨moved, order.symm, ?_⟩
  rw [← List.forall₂_eq_eq_eq, List.forall₂_map_right_iff]
  exact made

/-- The value is what some stored value stands for that has its sets in another order. -/
def Reshuffles (stored : Attribute) (again : Value) : Prop :=
  ∃ second, stored.Shuffles second ∧ second.Sound ∧ again = second.native

section

variable {again : Value}

/-- A stored value without parts has one order only. -/
theorem reshuffles_same {stored : Attribute} (sound : stored.Sound) : stored.Reshuffles stored.native :=
  ⟨stored, .same stored, sound, rfl⟩

theorem reshuffles_numbers {elements : List Decimal} (sound : (Attribute.numbers elements).Sound)
    (shuffled : (Attribute.numbers elements).native.Shuffles again) :
    (Attribute.numbers elements).Reshuffles again := by
  cases shuffled with
  | same => exact reshuffles_same sound
  | set _ perm =>
    cases sound with
    | numbers nonempty kept distinct =>
      obtain ⟨moved, order, rfl⟩ := exists_perm_of_map perm
      refine ⟨.numbers moved, .numbers order, .numbers ?_ ?_ ?_, rfl⟩
      · exact fun empty => nonempty (empty ▸ order).eq_nil
      · exact fun amount member => kept amount (order.mem_iff.mpr member)
      · exact (order.map _).nodup_iff.mp distinct

theorem reshuffles_texts {elements : List String} (sound : (Attribute.texts elements).Sound)
    (shuffled : (Attribute.texts elements).native.Shuffles again) :
    (Attribute.texts elements).Reshuffles again := by
  cases shuffled with
  | same => exact reshuffles_same sound
  | set _ perm =>
    cases sound with
    | texts nonempty distinct =>
      obtain ⟨moved, order, rfl⟩ := exists_perm_of_map perm
      refine ⟨.texts moved, .texts order, .texts ?_ (order.nodup_iff.mp distinct), rfl⟩
      exact fun empty => nonempty (empty ▸ order).eq_nil

theorem reshuffles_binaries {elements : List (Bool × List UInt8)}
    (sound : (Attribute.binaries elements).Sound)
    (shuffled : (Attribute.binaries elements).native.Shuffles again) :
    (Attribute.binaries elements).Reshuffles again := by
  cases shuffled with
  | same => exact reshuffles_same sound
  | set _ perm =>
    cases sound with
    | binaries nonempty distinct =>
      obtain ⟨rows, orderRows, rfl⟩ := exists_perm_of_map perm
      obtain ⟨moved, order, rfl⟩ := exists_perm_of_map orderRows
      refine ⟨_, .binaries orderRows, .binaries ?_ (order.nodup_iff.mp distinct), rfl⟩
      exact fun empty => nonempty (empty ▸ order).eq_nil

theorem reshuffles_list {elements : List Attribute} (sound : ∀ element ∈ elements, element.Sound)
    (each : ∀ element ∈ elements, ∀ {again}, element.native.Shuffles again → element.Reshuffles again)
    (shuffled : (Attribute.list elements).native.Shuffles again) :
    (Attribute.list elements).Reshuffles again := by
  have row : native (.list elements) = .list (elements.map native) := by
    rw [native, nativeAll_eq_map]
  rw [row] at shuffled
  cases shuffled with
  | same => exact row ▸ reshuffles_same (.list sound)
  | list pairs =>
    obtain ⟨others, relations, soundOthers, rfl⟩ :=
      exists_row_of_each (List.forall₂_map_left_iff.mp pairs) fun element member _ =>
        each element member
    exact ⟨.list others, .list relations, .list soundOthers, by rw [native, nativeAll_eq_map]⟩

theorem reshuffles_map {entries : Item} (distinct : (entries.map Prod.fst).Nodup)
    (sound : ∀ entry ∈ entries, entry.2.Sound)
    (each : ∀ entry ∈ entries, ∀ {again}, entry.2.native.Shuffles again → entry.2.Reshuffles again)
    (shuffled : (Attribute.map entries).native.Shuffles again) :
    (Attribute.map entries).Reshuffles again := by
  obtain ⟨record, built⟩ : ∃ record, (Attribute.map entries).native = .map record :=
    ⟨_, native.eq_def _⟩
  obtain ⟨keys, values⟩ := map_eq_native_iff.mp built.symm
  rw [built] at shuffled
  cases shuffled with
  | same => exact built ▸ reshuffles_same (.map distinct sound)
  | @map _ again names pairs =>
    rw [values, List.forall₂_map_left_iff] at pairs
    obtain ⟨others, relations, soundOthers, made⟩ := exists_row_of_each pairs
      (List.forall_mem_map.mpr fun entry member _ => each entry member)
    obtain ⟨second, namesSecond, rfl⟩ : ∃ second : Item,
        second.map Prod.fst = entries.map Prod.fst ∧ second.map Prod.snd = others := by
      have lengths := relations.length_eq
      simp only [List.length_map] at lengths
      exact ⟨(entries.map Prod.fst).zip others, List.map_fst_zip (by simp [lengths]),
        List.map_snd_zip (by simp [lengths])⟩
    refine ⟨.map second, .map namesSecond.symm relations, .map (namesSecond ▸ distinct) ?_, ?_⟩
    · exact List.forall_mem_map.mp soundOthers
    · refine map_eq_native_iff.mpr ⟨?_, made⟩
      have texts := congrArg (List.map Value.text) namesSecond
      rw [List.map_map, List.map_map] at texts
      exact (names.symm.trans keys).trans texts.symm

end

/-- What a stored value stands for, with its sets in another order, is what the stored value with its
sets in that order stands for. -/
theorem exists_shuffled {stored : Attribute} {again : Value} (sound : stored.Sound)
    (shuffled : stored.native.Shuffles again) : stored.Reshuffles again := by
  induction sound generalizing again with
  | null =>
    cases shuffled
    exact reshuffles_same .null
  | bool flag =>
    cases shuffled
    exact reshuffles_same (.bool flag)
  | number kept =>
    cases shuffled
    exact reshuffles_same (.number kept)
  | text content =>
    cases shuffled
    exact reshuffles_same (.text content)
  | binary content =>
    cases shuffled
    exact reshuffles_same (.binary content)
  | numbers nonempty kept distinct =>
    exact reshuffles_numbers (.numbers nonempty kept distinct) shuffled
  | texts nonempty distinct => exact reshuffles_texts (.texts nonempty distinct) shuffled
  | binaries nonempty distinct => exact reshuffles_binaries (.binaries nonempty distinct) shuffled
  | list sound each => exact reshuffles_list sound each shuffled
  | map distinct sound each => exact reshuffles_map distinct sound each shuffled

theorem spells_map_iff {received : Value} {item : Item} :
    Spells received (.map item) ↔
      ∃ written, received = tagged .map (.map written) ∧ SpellsItem written item := by
  constructor
  · intro spells
    cases spells with
    | map distinct keys each => exact ⟨_, rfl, distinct, keys, each⟩
  · rintro ⟨written, rfl, spells⟩
    exact .map spells.distinct spells.keys spells.each

/-- What a store can hold is sent as an item that spells it. -/
theorem spellsItem_wireEntries {item : Item} (sound : (Attribute.map item).Sound) :
    SpellsItem (wireEntries item) item := by
  obtain ⟨written, sent, spells⟩ := spells_map_iff.mp (spells_wire sound)
  cases sent
  exact spells

/-- The record that an item stands for is stored as an item with the same attributes, whichever order
its sets list their elements in. -/
theorem exists_store {item : Item} {again : Record} (sound : (Attribute.map item).Sound)
    (shuffled : (Attribute.map item).native.Shuffles (.map again)) :
    ∃ second, again.store = .ok second ∧ (Attribute.map item).Shuffles (.map second) ∧
      (Attribute.map second).Sound := by
  obtain ⟨stored, order, soundSecond, meant⟩ := exists_shuffled sound shuffled
  have map : ∃ second : Item, stored = .map second := by
    cases order with
    | same => exact ⟨_, rfl⟩
    | map => exact ⟨_, rfl⟩
  obtain ⟨second, rfl⟩ := map
  have names : (nativeEntries second).named = true := by
    cases soundSecond with
    | map distinct => exact named_nativeEntries distinct
  rw [native, Value.map.injEq] at meant
  subst meant
  obtain ⟨entries, stored, built⟩ := (Value.store_map_eq_ok_iff names).mp (store_native soundSecond)
  cases built
  exact ⟨second, (Record.store_eq_ok_iff names).mpr stored, order, soundSecond⟩

end Attribute

open Attribute

/-- A received item that can be read is stored again with the same attributes: sets have the same
elements in some order, numbers have the same digits and exponents, and all else is equal. -/
theorem Record.store_loaded {received record again : Record} {item : Item}
    (spells : SpellsItem received item) (done : received.load = .ok record)
    (shuffled : (Value.map record).Shuffles (.map again)) :
    ∃ second, again.store = .ok second ∧ (Attribute.map item).Shuffles (.map second) ∧
      SpellsItem (wireEntries second) second := by
  have read : (tagged .map (.map received)).load = .ok (.map record) :=
    Value.load_tagged_map_iff.mpr ⟨record, done, rfl⟩
  obtain ⟨sound, meant⟩ := (load_iff (spells_map_iff.mpr ⟨_, rfl, spells⟩)).mp read
  obtain ⟨second, stored, order, soundSecond⟩ := exists_store sound (meant ▸ shuffled)
  exact ⟨second, stored, order, spellsItem_wireEntries soundSecond⟩

/-- A parcel as another client has stored it: not every numeral is one that is sent from here. -/
def receivedParcel : Record :=
  [(.text "weight", tagged .number (.text "+01.50e-1")),
    (.text "marks", tagged .texts (.list [.text "fragile", .text "cold"])),
    (.text "stops", tagged .list (.list [tagged .map (.map
      [(.text "hours", tagged .numbers (.list [.text "1E+1", .text ".5"]))])]))]

def storedParcel : Item :=
  [("weight", .number (.finite false 150 (-3))), ("marks", .texts ["fragile", "cold"]),
    ("stops", .list [.map [("hours", .numbers [.finite false 1 1, .finite false 5 (-1)])]])]

/-- The parcel as it is read. -/
def parcel : Record :=
  [(.text "weight", .decimal (.finite false 150 (-3))),
    (.text "marks", .set false [.text "fragile", .text "cold"]),
    (.text "stops", .list [.map [(.text "hours",
      .set false [.decimal (.finite false 1 1), .decimal (.finite false 5 (-1))])]])]

/-- The parcel with its marks in another order. -/
def shuffledParcel : Record :=
  [(.text "weight", .decimal (.finite false 150 (-3))),
    (.text "marks", .set false [.text "cold", .text "fragile"]),
    (.text "stops", .list [.map [(.text "hours",
      .set false [.decimal (.finite false 1 1), .decimal (.finite false 5 (-1))])]])]

theorem Record.store_loaded_respelled :
    SpellsItem receivedParcel storedParcel ∧ receivedParcel.load = .ok parcel ∧
      (Value.map parcel).Shuffles (.map shuffledParcel) ∧
      ∃ second, shuffledParcel.store = .ok second ∧
        (Attribute.map storedParcel).Shuffles (.map second) ∧
        SpellsItem (wireEntries second) second := by
  have numeral (text : String) (negative : Bool) (coefficient : Nat) (exponent : Int)
      (reads : Decimal.ofText? text = some (.finite negative coefficient exponent)) :
      Numeral (.text text) (.finite negative coefficient exponent) :=
    ⟨text, negative, coefficient, exponent, rfl, rfl, reads⟩
  have spells : SpellsItem receivedParcel storedParcel := by
    have marks : Spells (tagged .texts (.list (["fragile", "cold"].map .text)))
        (.texts ["fragile", "cold"]) := .texts (by decide) (by decide)
    refine ⟨by decide, rfl, ?_⟩
    refine .cons (.number (numeral _ _ _ _ (by decide +kernel))) (.cons marks (.cons ?_ .nil))
    refine .list (.cons (.map (by decide) rfl (.cons ?_ .nil)) .nil)
    refine .numbers (.cons ?_ (.cons ?_ .nil)) (by decide) (by decide +kernel)
    · exact numeral _ _ _ _ (by decide +kernel)
    · exact numeral _ _ _ _ (by decide +kernel)
  have kept (negative : Bool) (coefficient : Nat) (exponent : Int)
      (fits : Bounds.storage.fit (.finite negative coefficient exponent) =
        .ok (.finite negative coefficient exponent)) : Kept (.finite negative coefficient exponent) :=
    ⟨⟨_, _, _, rfl⟩, fits⟩
  have hours : (Attribute.numbers [.finite false 1 1, .finite false 5 (-1)]).Sound := by
    refine .numbers (by decide) (List.forall_mem_cons.mpr ⟨kept _ _ _ rfl, ?_⟩) (by decide +kernel)
    exact List.forall_mem_singleton.mpr (kept _ _ _ rfl)
  have sound : (Attribute.map storedParcel).Sound := by
    refine .map (by decide) (List.forall_mem_cons.mpr ⟨.number (kept _ _ _ rfl), ?_⟩)
    refine List.forall_mem_cons.mpr ⟨.texts (by decide) (by decide), List.forall_mem_singleton.mpr ?_⟩
    refine .list (List.forall_mem_singleton.mpr (.map (by decide) ?_))
    exact List.forall_mem_singleton.mpr hours
  have done : receivedParcel.load = .ok parcel := by
    obtain ⟨record, done, same⟩ := Value.load_tagged_map_iff.mp
      ((load_iff (spells_map_iff.mpr ⟨_, rfl, spells⟩)).mpr ⟨sound, rfl⟩)
    cases same
    exact done
  have shuffled : (Value.map parcel).Shuffles (.map shuffledParcel) :=
    .map rfl (.cons (.same _) (.cons (.set _ (.swap _ _ _)) (.cons (.same _) .nil)))
  exact ⟨spells, done, shuffled, store_loaded spells done shuffled⟩

end RecordMerge

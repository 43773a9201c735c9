import Mathlib.Data.Fintype.EquivFin
import Mathlib.Data.List.Forall2

/-! Relations that are an equivalence among some items, and what they make of rows and pairs of such
items. -/

set_option autoImplicit false

namespace RecordMerge

/-- Among the items that are held, the relation is an equivalence. -/
structure EquivalenceOn {Item : Type} (held : Item → Prop) (equal : Item → Item → Prop) : Prop where
  refl : ∀ ⦃item⦄, held item → equal item item
  symm : ∀ ⦃first second⦄, held first → held second → equal first second → equal second first
  trans : ∀ ⦃first second third⦄, held first → held second → held third →
    equal first second → equal second third → equal first third

/-- Both rows have as many items, and each item of the first one has an equal in the second one. -/
def Covers {Item : Type} (equal : Item → Item → Prop) (first second : List Item) : Prop :=
  first.length = second.length ∧ ∀ item ∈ first, ∃ other ∈ second, equal item other

namespace EquivalenceOn

variable {Item : Type} {held : Item → Prop} {equal : Item → Item → Prop}

theorem rows (fair : EquivalenceOn held equal) :
    EquivalenceOn (fun row => ∀ item ∈ row, held item) (List.Forall₂ equal) where
  refl row all := List.forall₂_same.mpr fun item member => fair.refl (all item member)
  symm first second here there pairs := by
    induction pairs with
    | nil => exact .nil
    | cons pair _ tail =>
      obtain ⟨left, here⟩ := List.forall_mem_cons.mp here
      obtain ⟨right, there⟩ := List.forall_mem_cons.mp there
      exact .cons (fair.symm left right pair) (tail here there)
  trans first second third here there yonder pairs more := by
    induction pairs generalizing third with
    | nil => exact more
    | cons pair _ tail =>
      cases more with
      | cons next rest =>
        obtain ⟨left, here⟩ := List.forall_mem_cons.mp here
        obtain ⟨middle, there⟩ := List.forall_mem_cons.mp there
        obtain ⟨right, yonder⟩ := List.forall_mem_cons.mp yonder
        exact .cons (fair.trans left middle right pair next) (tail _ here there yonder rest)

theorem comap {Other : Type} (fair : EquivalenceOn held equal) (part : Other → Item) :
    EquivalenceOn (fun item => held (part item))
      (fun first second => equal (part first) (part second)) where
  refl _ here := fair.refl here
  symm _ _ here there same := fair.symm here there same
  trans _ _ _ here there yonder same next := fair.trans here there yonder same next

theorem pairs (fair : EquivalenceOn held equal) :
    EquivalenceOn (fun pair : Item × Item => held pair.1 ∧ held pair.2)
      (fun first second => equal first.1 second.1 ∧ equal first.2 second.2) where
  refl _ both := ⟨fair.refl both.1, fair.refl both.2⟩
  symm _ _ here there same := ⟨fair.symm here.1 there.1 same.1, fair.symm here.2 there.2 same.2⟩
  trans _ _ _ here there yonder same next :=
    ⟨fair.trans here.1 there.1 yonder.1 same.1 next.1,
      fair.trans here.2 there.2 yonder.2 same.2 next.2⟩

/-- In a row without equals, only an item itself equals it. -/
theorem eq_of_equal (fair : EquivalenceOn held equal) {row : List Item}
    (all : ∀ item ∈ row, held item) (apart : row.Pairwise fun first second => ¬ equal first second)
    {first second : Item} (here : first ∈ row) (there : second ∈ row)
    (same : equal first second) : first = second := by
  have before : row.Pairwise fun left right => equal left right → left = right :=
    apart.imp fun differ same => absurd same differ
  have after : row.Pairwise fun left right => equal right left → right = left :=
    apart.imp_of_mem fun left right differ same =>
      absurd (fair.symm (all _ right) (all _ left) same) differ
  exact List.Pairwise.forall_of_forall_of_flip (fun _ _ _ => rfl) before after here there same

-- An item can have no second item for its partner, because both would be equal. So there are as
-- many partners as items, and no item of the other row is left out.
theorem covers (fair : EquivalenceOn held equal) :
    EquivalenceOn (fun row => (∀ item ∈ row, held item) ∧
      row.Pairwise fun first second => ¬ equal first second) (Covers equal) where
  refl row all := ⟨rfl, fun item member => ⟨item, member, fair.refl (all.1 item member)⟩⟩
  symm first second here there covered := by
    obtain ⟨length, each⟩ := covered
    have partnered (index : Fin first.length) :
        ∃ place : Fin second.length, equal (first.get index) (second.get place) := by
      obtain ⟨other, member, same⟩ := each _ (first.get_mem index)
      obtain ⟨place, rfl⟩ := List.get_of_mem member
      exact ⟨place, same⟩
    choose partner equals using partnered
    have injective : Function.Injective partner := by
      intro left right same
      have shared : equal (first.get right) (second.get (partner left)) := same ▸ equals right
      have alike (index : Fin first.length) := here.1 _ (first.get_mem index)
      have middle := there.1 _ (second.get_mem (partner left))
      rcases lt_trichotomy left right with before | rfl | after
      · exact absurd (fair.trans (alike left) middle (alike right) (equals left)
          (fair.symm (alike right) middle shared)) (List.pairwise_iff_get.mp here.2 _ _ before)
      · rfl
      · exact absurd (fair.trans (alike right) middle (alike left) shared
          (fair.symm (alike left) middle (equals left))) (List.pairwise_iff_get.mp here.2 _ _ after)
    refine ⟨length.symm, fun other member => ?_⟩
    obtain ⟨place, rfl⟩ := List.get_of_mem member
    obtain ⟨index, rfl⟩ := injective.surjective_of_finite (finCongr length) place
    exact ⟨_, first.get_mem index,
      fair.symm (here.1 _ (first.get_mem index)) (there.1 _ member) (equals index)⟩
  trans first second third here there yonder covered further := by
    refine ⟨covered.1.trans further.1, fun item member => ?_⟩
    obtain ⟨other, held, same⟩ := covered.2 item member
    obtain ⟨last, kept, next⟩ := further.2 other held
    exact ⟨last, kept, fair.trans (here.1 _ member) (there.1 _ held) (yonder.1 _ kept) same next⟩

end EquivalenceOn

end RecordMerge

import RecordMerge.Bindings
import RecordMerge.Proofs.Placeholder

/-! Merged tables of placeholders: nothing that was bound is rebound, and nothing is bound but what
one of the tables binds. -/

set_option autoImplicit false

namespace RecordMerge.Bindings

open Placeholder (Extends Names spelling)

-- A binding is put also where its key is bound to an equal item, which it then replaces. For
-- names this changes nothing.
theorem merged_cons {Item : Type} {kind : String} {compare? : Item → Item → Option Bool}
    {target rest result : List (String × Item)} {key : String} {item : Item}
    (done : merged kind compare? target ((key, item) :: rest) = .ok result) :
    (∀ held, Entries.get? target key = some held → compare? held item = some true) ∧
      merged kind compare? (Entries.put target key item) rest = .ok result := by
  cases found : Entries.get? target key with
  | none =>
    simp only [merged, merge, found] at done ⊢
    exact ⟨by simp, done⟩
  | some held =>
    cases compared : compare? held item with
    | none => simp [merged, merge, found, compared] at done
    | some equal =>
      cases equal with
      | false => simp [merged, merge, found, compared] at done
      | true =>
        simp only [merged, merge, found, compared] at done ⊢
        refine ⟨fun other same => ?_, done⟩
        cases same
        exact compared

theorem mem_keys_merged_iff {Item : Type} {kind : String} {compare? : Item → Item → Option Bool}
    {target extra result : List (String × Item)}
    (done : merged kind compare? target extra = .ok result) (key : String) :
    key ∈ result.map Prod.fst ↔ key ∈ target.map Prod.fst ∨ key ∈ extra.map Prod.fst := by
  induction extra generalizing target with
  | nil =>
    cases done
    simp
  | cons pair rest tail =>
    obtain ⟨name, item⟩ := pair
    rw [tail (merged_cons done).2, Entries.mem_keys_put_iff, List.map_cons, List.mem_cons, or_assoc]

/-- Names that are spelt by their placeholders extend a table without rebinding any of its own. -/
theorem extends_of_mergedNames {target extra result : Names}
    (spelt : ∀ pair ∈ extra, pair.1 = spelling pair.2 ∧ pair.2 ≠ "")
    (done : mergedNames target extra = .ok result) :
    Extends target result (extra.map Prod.snd) := by
  induction extra generalizing target with
  | nil =>
    cases done
    exact .refl _
  | cons pair rest tail =>
    obtain ⟨placeholder, name⟩ := pair
    obtain ⟨⟨same, given⟩, others⟩ := List.forall_mem_cons.mp spelt
    simp only at same given
    subst same
    obtain ⟨equal, later⟩ := merged_cons done
    have fits (known : String) (held : Entries.get? target (spelling name) = some known) :
        known = name := by
      simpa using equal known held
    exact (Extends.put given fits).trans (tail others later)

end RecordMerge.Bindings

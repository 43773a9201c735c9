import RecordMerge.Attribute.Load
import RecordMerge.Attribute.Store
import RecordMerge.Proofs.Entries
import RecordMerge.Proofs.Outcome
import RecordMerge.Proofs.Record.Names

/-! Records on their way to the service and back. The stored item of a named record has each
attribute under its own name. -/

set_option autoImplicit false

namespace RecordMerge.Record

theorem storeEntries_cons_unset {name : String} {value : Value} {rest : Record}
    (unset : value.isUnset = true) :
    storeEntries ((.text name, value) :: rest) = storeEntries rest := by
  rw [storeEntries, if_pos unset]

theorem storeEntries_cons_eq_ok {name : String} {value : Value} {rest : Record} {entries : Item}
    (given : value.isUnset = false)
    (done : storeEntries ((.text name, value) :: rest) = .ok entries) :
    ∃ first others, value.store = .ok first ∧ storeEntries rest = .ok others ∧
      entries = (name, first) :: others := by
  rw [storeEntries, given] at done
  simp only [Bool.false_eq_true, if_false, Value.toText?_text] at done
  obtain ⟨first, stored, later⟩ := bind_eq_ok_iff.mp done
  obtain ⟨others, following, built⟩ := bind_eq_ok_iff.mp later
  cases built
  exact ⟨first, others, stored, following, rfl⟩

theorem contains_of_mem_storeEntries {record : Record} {entries : Item} {name : String}
    (names : record.named = true) (done : storeEntries record = .ok entries)
    (member : name ∈ entries.map Prod.fst) : record.contains name = true := by
  fun_induction named record generalizing entries with
  | case1 =>
    cases done
    cases member
  | case2 key value rest tail =>
    obtain ⟨-, others⟩ := (named_cons_iff value).mp names
    by_cases same : key = name
    · simp [contains, get?, same]
    · have later : contains name rest = true := by
        -- An unset attribute is left out; the name is that of a later one either way.
        cases unset : value.isUnset with
        | true =>
          rw [storeEntries_cons_unset unset] at done
          exact tail others done member
        | false =>
          obtain ⟨first, remaining, -, following, rfl⟩ := storeEntries_cons_eq_ok unset done
          refine tail others following ?_
          simpa [Ne.symm same] using member
      simpa [contains, get?, same] using later
  | case3 => cases names

theorem nodup_storeEntries {record : Record} {entries : Item} (names : record.named = true)
    (done : storeEntries record = .ok entries) : (entries.map Prod.fst).Nodup := by
  fun_induction named record generalizing entries with
  | case1 =>
    cases done
    exact List.nodup_nil
  | case2 key value rest tail =>
    obtain ⟨fresh, others⟩ := (named_cons_iff value).mp names
    cases unset : value.isUnset with
    | true =>
      rw [storeEntries_cons_unset unset] at done
      exact tail others done
    | false =>
      obtain ⟨first, remaining, -, following, rfl⟩ := storeEntries_cons_eq_ok unset done
      rw [List.map_cons, List.nodup_cons]
      refine ⟨fun member => ?_, tail others following⟩
      rw [contains_of_mem_storeEntries others following member] at fresh
      cases fresh
  | case3 => cases names

theorem get?_storeEntries {record : Record} {entries : Item} {name : String} {value : Value}
    (names : record.named = true) (done : storeEntries record = .ok entries)
    (found : record.get? name = some value) (given : value.isUnset = false) :
    ∃ sent, value.store = .ok sent ∧ Entries.get? entries name = some sent := by
  fun_induction named record generalizing entries with
  | case1 => cases found
  | case2 key held rest tail =>
    obtain ⟨-, others⟩ := (named_cons_iff held).mp names
    by_cases same : key = name
    · subst same
      simp only [get?, if_true, Option.some.injEq] at found
      subst found
      obtain ⟨first, remaining, stored, -, rfl⟩ := storeEntries_cons_eq_ok given done
      exact ⟨first, stored, by simp [Entries.get?]⟩
    · simp only [get?, same, if_false] at found
      cases unset : held.isUnset with
      | true =>
        rw [storeEntries_cons_unset unset] at done
        exact tail others done found
      | false =>
        obtain ⟨first, remaining, -, following, rfl⟩ := storeEntries_cons_eq_ok unset done
        obtain ⟨sent, stored, kept⟩ := tail others following found
        exact ⟨sent, stored, by simp [Entries.get?, same, kept]⟩
  | case3 => cases names

/-- An attribute of a named record that is set is in its stored item, with its stored value. -/
theorem get?_store {record : Record} {item : Item} {name : String} {value : Value}
    (names : record.named = true) (done : record.store = .ok item)
    (found : record.get? name = some value) (given : value.isUnset = false) :
    ∃ sent, value.store = .ok sent ∧ Entries.get? item name = some sent := by
  obtain ⟨entries, stored, built⟩ := bind_eq_ok_iff.mp done
  cases built
  rw [Entries.ofPairs_of_nodup (nodup_storeEntries names stored)]
  exact get?_storeEntries names stored found given

theorem keys_load {received record : Record} (done : received.load = .ok record) :
    record.map Prod.fst = received.map Prod.fst := by
  fun_induction load received generalizing record with
  | case1 =>
    cases done
    rfl
  | case2 name value rest tail =>
    obtain ⟨first, -, later⟩ := bind_eq_ok_iff.mp done
    obtain ⟨others, following, built⟩ := bind_eq_ok_iff.mp later
    cases built
    rw [List.map_cons, List.map_cons, tail following]

theorem named_load {received record : Record} (names : received.named = true)
    (done : received.load = .ok record) : record.named = true := by
  rw [named_iff, keys_load done]
  exact named_iff.mp names

end RecordMerge.Record

import RecordMerge.Proofs.Attribute.Finite
import RecordMerge.Proofs.Condition.Given
import RecordMerge.Proofs.KeySchema.Normal
import RecordMerge.Proofs.Update.Faults
import RecordMerge.Table.Handle

/-! What a table can find fault with by itself: keys, values, expressions, settings and what it reads in
a response. None of it is an error answer of the service, and none a failure of a client. -/

set_option autoImplicit false

namespace RecordMerge

/-- A failure that does not come from an answer to a request. -/
def Failure.Own : Failure → Prop
  | .surfaced _ _ | .service _ | .script _ | .foreign _ | .abort _ | .grouped _ => False
  | _ => True

theorem Failure.Own.ordinary {failure : Failure} (own : failure.Own) : failure.ordinary = true := by
  cases failure with
  | abort | grouped => exact own.elim
  | _ => rfl

/-- A computation that can fail by itself only. -/
def OwnFaults {Result : Type} (outcome : Except Failure Result) : Prop :=
  ∀ failure, outcome = .error failure → failure.Own

namespace OwnFaults

variable {First Second : Type}

theorem ok (result : First) : OwnFaults (.ok result) := by
  intro failure failed
  cases failed

theorem error {failure : Failure} (own : failure.Own) :
    OwnFaults (.error failure : Except Failure First) := by
  intro other failed
  cases failed
  exact own

theorem bind {first : Except Failure First} {next : First → Except Failure Second}
    (own : OwnFaults first) (later : ∀ result, OwnFaults (next result)) :
    OwnFaults (first >>= next) := by
  intro failure failed
  rcases bind_eq_error_iff.mp failed with here | ⟨result, -, there⟩
  · exact own failure here
  · exact later result failure there

theorem map {first : Except Failure First} (own : OwnFaults first) (image : First → Second) :
    OwnFaults (first.map image) := by
  cases first with
  | ok result => exact .ok _
  | error failure => exact .error (own failure rfl)

/-- A row fails by itself if each of its elements does. -/
theorem row {make : First → Except Failure Second} {walk : List First → Except Failure (List Second)}
    {firsts : List First} (nil : walk [] = .ok [])
    (cons : ∀ first rest, walk (first :: rest) = do
      let second ← make first
      let others ← walk rest
      .ok (second :: others))
    (each : ∀ first ∈ firsts, OwnFaults (make first)) : OwnFaults (walk firsts) := by
  intro failure failed
  obtain ⟨first, member, here⟩ := ((row_eq_error_iff nil cons).mp failed).exists
  exact each first member failure here

end OwnFaults

open OwnFaults (error ok)

section Keys

namespace LooseKeys

variable (keys : LooseKeys)

end LooseKeys

end Keys

section Stored

theorem Value.ownFaults_asRecord (value : Value) : OwnFaults value.asRecord := by
  unfold asRecord
  split
  · exact ok _
  · exact error trivial

theorem Value.ownFaults_asRow (value : Value) : OwnFaults value.asRow := by
  unfold asRow
  split
  · exact ok _
  · exact error trivial

theorem Value.ownFaults_loadPairs (value : Value) : OwnFaults value.loadPairs := by
  have pairs (index : Nat) (row : List Value) : OwnFaults (loadPairList index row) := by
    induction row generalizing index with
    | nil => exact ok _
    | cons pair rest tail =>
      rw [loadPairList]
      split
      · split
        · exact (tail _).bind fun _ => ok _
        · exact error trivial
      · exact error trivial
      · exact error trivial
  unfold loadPairs
  split
  · exact ok _
  · exact (pairs 0 _).map _
  · exact error trivial

end Stored

section Loaded

namespace Value

theorem ownFaults_loadNumber (value : Value) : OwnFaults value.loadNumber := by
  have number (outcome : Except Number.Signal Number.Decimal) :
      OwnFaults (loadNumber.number outcome) := by
    cases outcome with
    | ok amount => exact ok _
    | error signal => exact error trivial
  unfold loadNumber
  split
  · exact number _
  · exact number _
  · exact number _
  · exact number _
  · exact number _
  · split
    · exact number _
    · exact error trivial
  · split
    · exact number _
    · exact error trivial
  · exact error trivial

theorem ownFaults_loadBinary (value : Value) : OwnFaults value.loadBinary := by
  unfold loadBinary
  split
  · exact ok _
  · exact ok _
  · exact error trivial

theorem ownFaults_loadSet {read : Value → Except Failure Value}
    (own : ∀ value, OwnFaults (read value)) (content : Value) : OwnFaults (loadSet read content) := by
  have members (row : List Value) : OwnFaults (loadMembers read row) := by
    induction row with
    | nil => exact ok _
    | cons value rest tail =>
      refine (own value).bind fun member => ?_
      split
      · exact tail.bind fun _ => ok _
      · exact error trivial
  exact content.ownFaults_asRow.bind fun row => (members row).bind fun _ => ok _

theorem ownFaults_loadPlain (tag : Attribute.Tag) (content : Value) :
    OwnFaults (loadTagged.loadPlain tag content) := by
  cases tag with
  | null | bool | text => exact ok _
  | number => exact content.ownFaults_loadNumber
  | binary => exact content.ownFaults_loadBinary
  | numbers => exact ownFaults_loadSet ownFaults_loadNumber content
  | texts => exact ownFaults_loadSet ok content
  | binaries => exact ownFaults_loadSet ownFaults_loadBinary content
  | list | map => exact error trivial

mutual

theorem ownFaults_loadTagged (tag : Attribute.Tag) (content : Value) :
    OwnFaults (loadTagged tag content) := by
  rw [loadTagged.eq_def]
  cases content with
  | map entries =>
    cases tag with
    | map => exact (ownFaults_loadEntries entries).bind fun _ => ok _
    | list => exact (ownFaults_loadKeys entries).bind fun _ => ok _
    | _ => exact ownFaults_loadPlain _ _
  | list elements | tuple elements | set frozen elements =>
    cases tag with
    | map => exact error trivial
    | list => exact (ownFaults_loadAll elements).bind fun _ => ok _
    | _ => exact ownFaults_loadPlain _ _
  | _ =>
    cases tag with
    | map => exact error trivial
    | list =>
      dsimp only
      split
      · exact error trivial
      · exact ok _
      · exact error trivial
    | _ => exact ownFaults_loadPlain _ _
termination_by structural content

theorem ownFaults_loadAttribute (value : Value) : OwnFaults (loadAttribute value) := by
  cases value with
  | map entries =>
    cases entries with
    | nil => exact error trivial
    | cons entry rest =>
      obtain ⟨tag, content⟩ := entry
      rw [loadAttribute]
      split
      · exact error trivial
      · split
        · exact ownFaults_loadTagged _ content
        · exact error trivial
  | _ => exact error trivial
termination_by structural value

theorem ownFaults_loadAll (elements : List Value) : OwnFaults (loadAll elements) := by
  cases elements with
  | nil => exact ok _
  | cons value rest =>
    exact (ownFaults_loadAttribute value).bind fun first =>
      (ownFaults_loadAll rest).bind fun _ => ok _
termination_by structural elements

theorem ownFaults_loadKeys (entries : List (Value × Value)) : OwnFaults (loadKeys entries) := by
  cases entries with
  | nil => exact ok _
  | cons entry rest =>
    obtain ⟨key, value⟩ := entry
    exact (ownFaults_loadAttribute key).bind fun first =>
      (ownFaults_loadKeys rest).bind fun _ => ok _
termination_by structural entries

theorem ownFaults_loadEntries (entries : List (Value × Value)) : OwnFaults (loadEntries entries) := by
  cases entries with
  | nil => exact ok _
  | cons entry rest =>
    obtain ⟨key, value⟩ := entry
    exact (ownFaults_loadAttribute value).bind fun first =>
      (ownFaults_loadEntries rest).bind fun _ => ok _
termination_by structural entries

end

mutual

theorem ownFaults_unwrapped (value : Value) : OwnFaults (unwrapped value) := by
  cases value with
  | bytes form content =>
    rcases form with _ | _ | growable
    · exact ok _
    · exact ok _
    · cases growable with
      | false => exact ok _
      | true => exact error trivial
  | map entries => exact (ownFaults_unwrappedEntries entries).bind fun _ => ok _
  | list elements => exact (ownFaults_unwrappedAll elements).bind fun _ => ok _
  | set frozen elements =>
    cases frozen with
    | false => exact (ownFaults_unwrappedAll elements).bind fun _ => ok _
    | true => exact ok _
  | _ => exact ok _
termination_by structural value

theorem ownFaults_unwrappedAll (elements : List Value) : OwnFaults (unwrappedAll elements) := by
  cases elements with
  | nil => exact ok _
  | cons value rest =>
    exact (ownFaults_unwrapped value).bind fun first =>
      (ownFaults_unwrappedAll rest).bind fun _ => ok _
termination_by structural elements

theorem ownFaults_unwrappedEntries (entries : List (Value × Value)) :
    OwnFaults (unwrappedEntries entries) := by
  cases entries with
  | nil => exact ok _
  | cons entry rest =>
    obtain ⟨key, value⟩ := entry
    exact (ownFaults_unwrapped value).bind fun first =>
      (ownFaults_unwrappedEntries rest).bind fun _ => ok _
termination_by structural entries

end

theorem ownFaults_loadItem (value : Value) : OwnFaults value.loadItem := by
  have record (record : Record) : OwnFaults record.load := by
    induction record with
    | nil => exact ok _
    | cons entry rest tail =>
      obtain ⟨name, held⟩ := entry
      have here : OwnFaults held.load :=
        (ownFaults_loadAttribute held).bind fun loaded => ownFaults_unwrapped loaded
      exact here.bind fun first => tail.bind fun _ => ok _
  exact value.ownFaults_asRecord.bind record

end Value

theorem ownFaults_itemOf (name : String) (response : Record) : OwnFaults (itemOf name response) := by
  unfold itemOf
  split
  · exact ok _
  · split
    · exact (Value.ownFaults_loadItem _).map _
    · exact ok _

namespace Batch

end Batch

end Loaded

section Compiled

namespace Table

end Table

end Compiled

/-- A log that takes no notes is the table's own fault. -/
theorem Guard.own_of_noteFault {guard : Guard} {event : Event} {failure : Failure}
    (untaken : guard.noteFault event = some failure) : failure.Own := by
  unfold noteFault at untaken
  split at untaken
  · cases untaken
  · cases untaken
    trivial

section Batches

namespace Batch

end Batch

end Batches

end RecordMerge

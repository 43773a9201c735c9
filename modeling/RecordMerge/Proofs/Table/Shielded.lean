import RecordMerge.Policy.Given
import RecordMerge.Proofs.Batch.Shielded
import RecordMerge.Proofs.Reconcile

/-!
No error answer leaves a table as it came.

An operation reports an error answer by what callers see of it, or recovers from it. A recovery consists
of operations of the table, which report the error answers to their own requests.
-/

set_option autoImplicit false

namespace RecordMerge

open Batch (ShieldedBatch Shielding)
open Exchange (Shields ShieldedRuns dialogue noRecovery)
open Schedule (Interleaves)

variable {recovers : Request → ServiceError → Prop}

namespace Exchange

end Exchange

namespace Table

variable {table : Table}

/-- A table recovers from an error answer to an update if it can tell what the answer means. -/
def Recovers (table : Table) : Request → ServiceError → Prop
  | .update _, error => table.classify error.codeText error.messageText ≠ .unclassified
  | _, _ => False

section

variable {mode : WriteMode} {record identity : Record} {policy : Policy} {error : ServiceError}

end

/-- Only a table whose key attributes all have texts for names sends updates. -/
def Target.Recovers : Target → Request → ServiceError → Prop
  | .named table => table.Recovers
  | .loose _ => noRecovery

namespace Handle

variable (handle : Handle)

section

variable {handle : Handle}
  (classifies : ∀ code message, handle.guard.fault code message = none)

include classifies

end

/-- What becomes of the calls that fail, whatever the operation, its arguments and the client. -/
structure Shielded (handle : Handle) : Prop where
  describe : ShieldedRuns noRecovery handle.describe
  put : ∀ record condition names values,
    ShieldedRuns noRecovery (handle.put record condition names values)
  fetch : ∀ key consistent, ShieldedRuns noRecovery (handle.fetch key consistent)
  get : ∀ partition sort consistent, ShieldedRuns noRecovery (handle.get partition sort consistent)
  update : ∀ record policy condition given,
    ShieldedRuns handle.target.Recovers (handle.update record policy condition given)
  upsert : ∀ record policy insertOnly condition given,
    ShieldedRuns handle.target.Recovers (handle.upsert record policy insertOnly condition given)
  updateIncluding : ∀ record paths condition given,
    ShieldedRuns handle.target.Recovers (handle.updateIncluding record paths condition given)
  updateExcluding : ∀ record paths condition given,
    ShieldedRuns handle.target.Recovers (handle.updateExcluding record paths condition given)
  upsertIncluding : ∀ record paths insertOnly,
    ShieldedRuns handle.target.Recovers (handle.upsertIncluding record paths insertOnly)
  /-- Paths of a policy that cannot be taken are found before anything is sent. -/
  paths : ∀ given, OwnFaults (Policy.pathsOf given)
  batchPut : ∀ records retries pauses, ShieldedBatch (handle.batchPut records retries pauses)
  batchDelete : ∀ keys retries pauses, ShieldedBatch (handle.batchDelete keys retries pauses)
  batchGet : ∀ keys consistent retries pauses,
    ShieldedBatch (handle.batchGet keys consistent retries pauses)
  /-- The records of a batch of reads are missing exactly if one of its groups has failed. -/
  read : ∀ (batch : Batch (List Record)) {Client : Type}
    (respond : Client → Request → Answer × Client) (suspending : Bool) (client : Client) failure,
    (batch.read respond suspending client).result = .error failure ↔
      (batch.run respond suspending client).result = .error failure

end Handle

end Table

end RecordMerge

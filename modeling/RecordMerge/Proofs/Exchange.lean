import Mathlib.Data.List.Infix
import RecordMerge.Guard

/-! The dialogue of an exchange with a client: its requests with their answers. -/

set_option autoImplicit false

namespace RecordMerge.Exchange

variable {Result Other Client : Type}

/-- The requests that a client is sent, each with what it answers. -/
def dialogue (respond : Client → Request → Answer × Client) :
    Exchange Result → Client → List (Request × Answer)
  | .done _, _ => []
  | .send request next, client =>
    let (answer, client) := respond client request
    (request, answer) :: dialogue respond (next answer) client
  | .pause _ next, client => dialogue respond next client
  | .note _ next, client => dialogue respond next client

variable {respond : Client → Request → Answer × Client}

/-- The calls of a run are the requests of its dialogue. -/
theorem calls_run (exchange : Exchange Result) (client : Client) :
    calls (run respond exchange client).steps =
      (dialogue respond exchange client).map Prod.fst := by
  induction exchange generalizing client with
  | done result => rfl
  | send request next tail =>
    simp only [run, Run.after, dialogue, List.map_cons, ← tail]
    rfl
  | pause seconds next tail =>
    rw [dialogue, ← tail]
    rfl
  | note event next tail =>
    rw [dialogue, ← tail]
    rfl

theorem dialogue_send (respond : Client → Request → Answer × Client) (request : Request)
    (next : Answer → Exchange Result) (client : Client) :
    ∃ answer later, dialogue respond (.send request next) client =
      (request, answer) :: dialogue respond (next answer) later :=
  ⟨_, _, rfl⟩

/-- What follows a request that has to succeed is done only after a response. -/
theorem dialogue_call (respond : Client → Request → Answer × Client) (request : Request)
    (next : Record → Exchange Result) (client : Client) :
    (∃ answer, dialogue respond (call request >>= next) client = [(request, answer)]) ∨
      ∃ fields later, dialogue respond (call request >>= next) client =
        (request, .response fields) :: dialogue respond (next fields) later := by
  rw [show call request >>= next = .send request _ from rfl]
  obtain ⟨answer, later, exchanged⟩ := dialogue_send respond request _ client
  rw [exchanged]
  cases answer with
  | response fields => exact Or.inr ⟨fields, later, rfl⟩
  | refused error => exact Or.inl ⟨_, rfl⟩
  | failed failure => exact Or.inl ⟨_, rfl⟩

/-- A failing part of the caller's own ends a dialogue early and changes nothing in it. -/
theorem dialogue_guarded_isPrefix (guard : Guard) (exchange : Exchange Result) (client : Client) :
    dialogue respond (guarded guard exchange) client <+: dialogue respond exchange client := by
  induction exchange generalizing client with
  | done result => exact List.prefix_refl _
  | send request next tail =>
    -- The request is sent before its answer can fail to be read.
    rw [guarded, dialogue, dialogue]
    refine List.cons_prefix_cons.mpr ⟨rfl, ?_⟩
    split
    · exact List.nil_prefix
    · exact tail _ _
  | pause seconds next tail => exact tail client
  | note event next tail =>
    rw [guarded]
    split
    · exact List.nil_prefix
    · exact tail client

end RecordMerge.Exchange

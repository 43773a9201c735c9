import RecordMerge.Proofs.Exchange

/-! How exchanges can end well: with which result, after which calls. The calls of an exchange are
those of its parts, one part after another. -/

set_option autoImplicit false

namespace RecordMerge.Exchange

variable {Result Other Client : Type}

/-- The exchange can come to the result by these calls, each with its answer. -/
inductive Ends : Exchange Result → List (Request × Answer) → Result → Prop where
  | done (result : Result) : Ends (.done (.ok result)) [] result
  | send (request : Request) (answer : Answer) {next : Answer → Exchange Result}
      {calls : List (Request × Answer)} {result : Result} : Ends (next answer) calls result →
      Ends (.send request next) ((request, answer) :: calls) result
  | pause (seconds : Number.Binary64) {next : Exchange Result} {calls : List (Request × Answer)}
      {result : Result} : Ends next calls result → Ends (.pause seconds next) calls result
  | note (event : Event) {next : Exchange Result} {calls : List (Request × Answer)}
      {result : Result} : Ends next calls result → Ends (.note event next) calls result

variable {calls : List (Request × Answer)}

theorem ends_done_iff {outcome : Except Failure Result} {result : Result} :
    Ends (.done outcome) calls result ↔ outcome = .ok result ∧ calls = [] := by
  constructor
  · intro ends
    cases ends
    exact ⟨rfl, rfl⟩
  · rintro ⟨rfl, rfl⟩
    exact .done result

theorem ends_pause_iff {seconds : Number.Binary64} {next : Exchange Result} {result : Result} :
    Ends (.pause seconds next) calls result ↔ Ends next calls result := by
  constructor
  · intro ends
    cases ends
    assumption
  · exact .pause seconds

theorem ends_note_iff {event : Event} {next : Exchange Result} {result : Result} :
    Ends (.note event next) calls result ↔ Ends next calls result := by
  constructor
  · intro ends
    cases ends
    assumption
  · exact .note event

theorem ends_send_iff {request : Request} {next : Answer → Exchange Result} {result : Result} :
    Ends (.send request next) calls result ↔
      ∃ answer rest, Ends (next answer) rest result ∧ calls = (request, answer) :: rest := by
  constructor
  · intro ends
    cases ends
    exact ⟨_, _, ‹_›, rfl⟩
  · rintro ⟨answer, rest, ends, rfl⟩
    exact .send request answer ends

/-- One exchange after another ends as the second one does, after the calls of both. -/
theorem ends_bind_iff {exchange : Exchange Result} {next : Result → Exchange Other} {last : Other} :
    Ends (exchange >>= next) calls last ↔ ∃ result before after, Ends exchange before result ∧
      Ends (next result) after last ∧ calls = before ++ after := by
  show Ends (andThen exchange next) calls last ↔ _
  induction exchange generalizing calls with
  | done outcome =>
    cases outcome with
    | ok result => simp [ends_done_iff]
    | error failure => simp [ends_done_iff]
  | send request rest tail =>
    simp only [andThen, ends_send_iff, tail]
    constructor
    · rintro ⟨answer, others, ⟨result, before, after, first, second, rfl⟩, rfl⟩
      exact ⟨result, _, after, ⟨answer, before, first, rfl⟩, second, rfl⟩
    · rintro ⟨result, _, after, ⟨answer, before, first, rfl⟩, second, rfl⟩
      exact ⟨answer, _, ⟨result, before, after, first, second, rfl⟩, rfl⟩
  | pause seconds rest tail => simp only [andThen, ends_pause_iff, tail]
  | note event rest tail => simp only [andThen, ends_note_iff, tail]

theorem ends_pure_iff {value result : Result} :
    Ends (pure value) calls result ↔ value = result ∧ calls = [] := by
  simp [pure, ends_done_iff]

/-- A part without calls leads on exactly if it succeeds. -/
theorem ends_done_bind_iff {outcome : Except Failure Result} {next : Result → Exchange Other}
    {last : Other} : Ends (.done outcome >>= next) calls last ↔
      ∃ result, outcome = .ok result ∧ Ends (next result) calls last := by
  simp [ends_bind_iff, ends_done_iff]

theorem ends_report_bind_iff {event : Event} {next : Unit → Exchange Other} {last : Other} :
    Ends (report event >>= next) calls last ↔ Ends (next ()) calls last :=
  ends_note_iff

theorem ends_reported_iff {event : Event} {value result : Result} :
    Ends (report event >>= fun _ => pure value) calls result ↔ value = result ∧ calls = [] :=
  ends_report_bind_iff.trans ends_pure_iff

theorem ends_ask_bind_iff {request : Request} {next : Answer → Exchange Other} {last : Other} :
    Ends (ask request >>= next) calls last ↔
      ∃ answer rest, Ends (next answer) rest last ∧ calls = (request, answer) :: rest :=
  ends_send_iff

/-- A request that has to succeed leads on with a response. -/
theorem ends_call_bind_iff {request : Request} {next : Record → Exchange Other} {last : Other} :
    Ends (call request >>= next) calls last ↔ ∃ fields rest, Ends (next fields) rest last ∧
      calls = (request, .response fields) :: rest := by
  refine ends_send_iff.trans ?_
  constructor
  · rintro ⟨answer, rest, ends, rfl⟩
    cases answer with
    | response fields => exact ⟨fields, rest, ends, rfl⟩
    | refused | failed => cases ends
  · rintro ⟨fields, rest, ends, rfl⟩
    exact ⟨.response fields, rest, ends, rfl⟩

/-- Parts of the caller's own that fail end an exchange; they lead to no other result. -/
theorem Ends.of_guarded {guard : Guard} {exchange : Exchange Result} {result : Result}
    (ends : Ends (guarded guard exchange) calls result) : Ends exchange calls result := by
  induction exchange generalizing calls with
  | done outcome => exact ends
  | send request next tail =>
    obtain ⟨answer, rest, later, rfl⟩ := ends_send_iff.mp ends
    split at later
    · cases later
    · exact .send request answer (tail answer later)
  | pause seconds next tail => exact .pause seconds (tail (ends_pause_iff.mp ends))
  | note event next tail =>
    rw [guarded] at ends
    split at ends
    · cases ends
    · exact .note event (tail (ends_note_iff.mp ends))

/-- A run that gives a result ends with it, after the calls of its dialogue. -/
theorem ends_run {respond : Client → Request → Answer × Client} {exchange : Exchange Result}
    {client : Client} {result : Result} (done : (run respond exchange client).result = .ok result) :
    Ends exchange (dialogue respond exchange client) result := by
  induction exchange generalizing client with
  | done outcome => exact ends_done_iff.mpr ⟨done, rfl⟩
  | send request next tail => exact .send request _ (tail _ done)
  | pause seconds next tail => exact .pause seconds (tail done)
  | note event next tail => exact .note event (tail done)

end RecordMerge.Exchange

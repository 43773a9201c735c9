import RecordMerge.Proofs.Schedule

/-! All that an exchange does, its pauses too, in order. -/

set_option autoImplicit false

namespace RecordMerge.Exchange

variable {Result Client : Type}

/-- What an exchange does in a step. A call comes with its answer. -/
inductive Act where
  | called (request : Request) (answer : Answer)
  | paused (seconds : Number.Binary64)
  | noted (event : Event)

def Act.call? : Act → Option (Request × Answer)
  | .called request answer => some (request, answer)
  | _ => none

/-- What can be seen of it. -/
def Act.step : Act → Step
  | .called request _ => .call request
  | .paused seconds => .pause seconds
  | .noted event => .note event

def callsOf (acts : List Act) : List (Request × Answer) :=
  acts.filterMap Act.call?

@[simp] theorem callsOf_nil : callsOf [] = [] := rfl

@[simp] theorem callsOf_called (request : Request) (answer : Answer) (rest : List Act) :
    callsOf (.called request answer :: rest) = (request, answer) :: callsOf rest := rfl

@[simp] theorem callsOf_paused (seconds : Number.Binary64) (rest : List Act) :
    callsOf (.paused seconds :: rest) = callsOf rest := rfl

@[simp] theorem callsOf_append (first second : List Act) :
    callsOf (first ++ second) = callsOf first ++ callsOf second :=
  List.filterMap_append

/-- The exchange can do this, and then it has this left to do. -/
inductive Does : Exchange Result → List Act → Exchange Result → Prop where
  | nothing (exchange : Exchange Result) : Does exchange [] exchange
  | send (request : Request) {next : Answer → Exchange Result} (answer : Answer) {acts : List Act}
      {left : Exchange Result} : Does (next answer) acts left →
      Does (.send request next) (.called request answer :: acts) left
  | pause (seconds : Number.Binary64) {next left : Exchange Result} {acts : List Act} :
      Does next acts left → Does (.pause seconds next) (.paused seconds :: acts) left
  | note (event : Event) {next left : Exchange Result} {acts : List Act} :
      Does next acts left → Does (.note event next) (.noted event :: acts) left

theorem Does.trans {first middle last : Exchange Result} {earlier later : List Act}
    (before : Does first earlier middle) (after : Does middle later last) :
    Does first (earlier ++ later) last := by
  induction before with
  | nothing => exact after
  | send request answer rest tail => exact .send request answer (tail after)
  | pause seconds rest tail => exact .pause seconds (tail after)
  | note event rest tail => exact .note event (tail after)

theorem Moves.exists_does {exchange left : Exchange Result} {call : Option (Request × Answer)}
    (moves : Moves exchange call left) :
    ∃ act, Does exchange [act] left ∧ act.call? = call := by
  cases moves with
  | send request next answer =>
    exact ⟨.called request answer, .send request answer (.nothing _), rfl⟩
  | pause seconds next => exact ⟨.paused seconds, .pause seconds (.nothing _), rfl⟩
  | note event next => exact ⟨.noted event, .note event (.nothing _), rfl⟩

/-- Whatever calls an exchange makes, it makes them among all that it does. -/
theorem Reaches.exists_does {exchange left : Exchange Result} {calls : List (Request × Answer)}
    (reached : Reaches exchange calls left) :
    ∃ acts, Does exchange acts left ∧ callsOf acts = calls := by
  induction reached with
  | start => exact ⟨[], .nothing _, rfl⟩
  | step others moves tail =>
    obtain ⟨acts, before, same⟩ := tail
    obtain ⟨act, after, made⟩ := moves.exists_does
    refine ⟨acts ++ [act], before.trans after, ?_⟩
    rw [callsOf_append, ← made, ← same, callsOf]
    cases called : act.call? <;> simp [callsOf, called]

/-- What a run shows is what the exchange does on its way to the end, with the answers of the
client. -/
theorem exists_does_run (respond : Client → Request → Answer × Client) (exchange : Exchange Result)
    (client : Client) :
    ∃ acts, Does exchange acts (.done (run respond exchange client).result) ∧
      acts.map Act.step = (run respond exchange client).steps ∧
      ∀ call ∈ callsOf acts, Schedule.Answered respond call := by
  induction exchange generalizing client with
  | done result => exact ⟨[], .nothing _, rfl, by simp [callsOf]⟩
  | send request next tail =>
    obtain ⟨acts, does, same, answered⟩ :=
      tail (respond client request).1 (respond client request).2
    refine ⟨.called request (respond client request).1 :: acts, .send request _ does, ?_, ?_⟩
    · rw [List.map_cons, same]
      rfl
    · exact List.forall_mem_cons.mpr ⟨⟨client, rfl⟩, answered⟩
  | pause seconds next tail =>
    obtain ⟨acts, does, same, answered⟩ := tail client
    refine ⟨.paused seconds :: acts, .pause seconds does, ?_, answered⟩
    rw [List.map_cons, same]
    rfl
  | note event next tail =>
    obtain ⟨acts, does, same, answered⟩ := tail client
    refine ⟨.noted event :: acts, .note event does, ?_, answered⟩
    rw [List.map_cons, same]
    rfl

end RecordMerge.Exchange

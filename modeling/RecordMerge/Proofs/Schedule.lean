import Mathlib.Algebra.BigOperators.Group.Finset.Piecewise
import RecordMerge.Schedule

/-!
Exchanges side by side in any order.

In each step one of the exchanges goes on, whichever it is and whatever it is answered. What an
order of steps does to one exchange is what that exchange does on its own. The rounds of a schedule
are one of these orders.
-/

set_option autoImplicit false

namespace RecordMerge.Exchange

variable {Result : Type}

/-- One step of an exchange, with the call that it makes. A request may be answered in any way. -/
inductive Moves : Exchange Result → Option (Request × Answer) → Exchange Result → Prop where
  | send (request : Request) (next : Answer → Exchange Result) (answer : Answer) :
      Moves (.send request next) (some (request, answer)) (next answer)
  | pause (seconds : Number.Binary64) (next : Exchange Result) : Moves (.pause seconds next) none next
  | note (event : Event) (next : Exchange Result) : Moves (.note event next) none next

/-- After the calls there is this left of the exchange. -/
inductive Reaches (exchange : Exchange Result) :
    List (Request × Answer) → Exchange Result → Prop where
  | start : Reaches exchange [] exchange
  | step {calls : List (Request × Answer)} {middle left : Exchange Result}
      {call : Option (Request × Answer)} : Reaches exchange calls middle → Moves middle call left →
      Reaches exchange (calls ++ call.toList) left

theorem Reaches.trans {first middle last : Exchange Result} {earlier later : List (Request × Answer)}
    (reached : Reaches first earlier middle) (goes : Reaches middle later last) :
    Reaches first (earlier ++ later) last := by
  induction goes with
  | start => simpa using reached
  | step others moves tail =>
    rw [← List.append_assoc]
    exact .step tail moves

theorem Moves.reaches {exchange left : Exchange Result} {call : Option (Request × Answer)}
    (moves : Moves exchange call left) : Reaches exchange call.toList left :=
  .step .start moves

end RecordMerge.Exchange

namespace RecordMerge.Schedule

open Exchange (Moves Reaches Step)

variable {Result Client : Type}

/-- After the calls, each with the place of its exchange, there is this left of the exchanges. -/
inductive Interleaves (exchanges : List (Exchange Result)) :
    List (Nat × Request × Answer) → List (Exchange Result) → Prop where
  | start : Interleaves exchanges [] exchanges
  | step {calls : List (Nat × Request × Answer)} {left : List (Exchange Result)} {index : Nat}
      {exchange next : Exchange Result} {call : Option (Request × Answer)} :
      Interleaves exchanges calls left → left[index]? = some exchange → Moves exchange call next →
      Interleaves exchanges (calls ++ call.toList.map (index, ·)) (left.set index next)

/-- The calls of the exchange at one place. -/
def callsAt (index : Nat) (calls : List (Nat × Request × Answer)) : List (Request × Answer) :=
  (calls.filter fun call => call.1 == index).map Prod.snd

@[simp] theorem callsAt_append (index : Nat) (first second : List (Nat × Request × Answer)) :
    callsAt index (first ++ second) = callsAt index first ++ callsAt index second := by
  simp [callsAt]

@[simp] theorem callsAt_self (index : Nat) (calls : List (Request × Answer)) :
    callsAt index (calls.map (index, ·)) = calls := by
  simp [callsAt, List.filter_map, Function.comp_def]

theorem callsAt_of_ne {index other : Nat} (differs : other ≠ index)
    (calls : List (Request × Answer)) : callsAt index (calls.map (other, ·)) = [] := by
  simp [callsAt, List.filter_map, Function.comp_def, differs]

theorem mem_of_mem_callsAt {index : Nat} {calls : List (Nat × Request × Answer)}
    {call : Request × Answer} (member : call ∈ callsAt index calls) : (index, call) ∈ calls := by
  obtain ⟨⟨place, same⟩, kept, rfl⟩ := List.mem_map.mp member
  obtain ⟨inCalls, equal⟩ := List.mem_filter.mp kept
  simpa [← beq_iff_eq.mp equal] using inCalls

theorem mem_callsAt {call : Nat × Request × Answer} {calls : List (Nat × Request × Answer)}
    (member : call ∈ calls) : call.2 ∈ callsAt call.1 calls :=
  List.mem_map_of_mem (List.mem_filter.mpr ⟨member, beq_self_eq_true _⟩)

/-- A sum over all calls is the sum over the calls of each exchange. -/
theorem sum_callsAt {Amount : Type} [AddCommMonoid Amount] (amount : Request × Answer → Amount)
    {size : Nat} {calls : List (Nat × Request × Answer)} (placed : ∀ call ∈ calls, call.1 < size) :
    (calls.map fun call => amount call.2).sum =
      ∑ index ∈ Finset.range size, ((callsAt index calls).map amount).sum := by
  induction calls with
  | nil => simp [callsAt]
  | cons call rest tail =>
    obtain ⟨first, others⟩ := List.forall_mem_cons.mp placed
    have split (index : Nat) : ((callsAt index (call :: rest)).map amount).sum =
        (if call.1 = index then amount call.2 else 0) + ((callsAt index rest).map amount).sum := by
      by_cases same : call.1 = index <;> simp [callsAt, same]
    simp only [List.map_cons, List.sum_cons, tail others, split, Finset.sum_add_distrib,
      Finset.sum_ite_eq, Finset.mem_range, first, if_true]

namespace Interleaves

variable {exchanges left : List (Exchange Result)} {calls : List (Nat × Request × Answer)}

theorem length_eq (run : Interleaves exchanges calls left) : left.length = exchanges.length := by
  induction run with
  | start => rfl
  | step others at_ moves tail => rw [List.length_set, tail]

theorem place_lt (run : Interleaves exchanges calls left) :
    ∀ call ∈ calls, call.1 < exchanges.length := by
  induction run with
  | start => simp
  | step others found moves tail =>
    intro call member
    rcases List.mem_append.mp member with earlier | now
    · exact tail call earlier
    · obtain ⟨made, -, rfl⟩ := List.mem_map.mp now
      rw [← others.length_eq]
      exact (List.getElem?_eq_some_iff.mp found).1

/-- The exchange that has made a call has something left. -/
theorem exists_left (run : Interleaves exchanges calls left) {call : Nat × Request × Answer}
    (made : call ∈ calls) : ∃ rest ∈ left, left[call.1]? = some rest := by
  have within : call.1 < left.length := by
    rw [run.length_eq]
    exact run.place_lt call made
  exact ⟨left[call.1], List.getElem_mem within, List.getElem?_eq_getElem within⟩

/-- One exchange among others does what it does on its own. -/
theorem reaches (run : Interleaves exchanges calls left) {index : Nat}
    {exchange rest : Exchange Result} (first : exchanges[index]? = some exchange)
    (last : left[index]? = some rest) : Reaches exchange (callsAt index calls) rest := by
  induction run generalizing rest with
  | start =>
    obtain rfl := Option.some.inj (first.symm.trans last)
    exact .start
  | @step calls left place moving next call others found moves tail =>
    by_cases same : place = index
    · subst same
      rw [callsAt_append, callsAt_self]
      have placed := (List.getElem?_eq_some_iff.mp found).1
      rw [List.getElem?_set_self placed] at last
      cases last
      exact .step (tail found) moves
    · rw [callsAt_append, callsAt_of_ne same, List.append_nil]
      rw [List.getElem?_set_ne same] at last
      exact tail last

theorem trans {middle : List (Exchange Result)} {later : List (Nat × Request × Answer)}
    (earlier : Interleaves exchanges calls middle) (goes : Interleaves middle later left) :
    Interleaves exchanges (calls ++ later) left := by
  induction goes with
  | start => simpa using earlier
  | step others found moves tail =>
    rw [← List.append_assoc]
    exact .step tail found moves

theorem of_reaches {exchange rest : Exchange Result} {made : List (Request × Answer)}
    (before after : List (Exchange Result)) (reached : Reaches exchange made rest) :
    Interleaves (before ++ exchange :: after) (made.map (before.length, ·))
      (before ++ rest :: after) := by
  induction reached with
  | start => exact .start
  | @step made middle left call others moves tail =>
    rw [List.map_append]
    have found : (before ++ middle :: after)[before.length]? = some middle := by simp
    simpa using tail.step found moves

end Interleaves

/-- The call comes from the client: it answers the request so in one of its states. -/
def Answered (respond : Client → Request → Answer × Client) (call : Request × Answer) : Prop :=
  ∃ client, (respond client call.1).1 = call.2

variable (respond : Client → Request → Answer × Client)

theorem reaches_turn (suspends : Bool) (exchange : Exchange Result) (client : Client) :
    ∃ calls, Reaches exchange calls (turn respond suspends exchange client).1 ∧
      calls.map Prod.fst = Exchange.calls (turn respond suspends exchange client).2.1 ∧
      ∀ call ∈ calls, Answered respond call := by
  induction exchange generalizing client with
  | done result => exact ⟨[], .start, rfl, by simp⟩
  | send request next tail =>
    obtain ⟨calls, reached, same, answered⟩ :=
      tail (respond client request).1 (respond client request).2
    refine ⟨(request, (respond client request).1) :: calls,
      (Moves.send request next _).reaches.trans reached, ?_, ?_⟩
    · rw [List.map_cons, same]
      rfl
    · exact List.forall_mem_cons.mpr ⟨⟨client, rfl⟩, answered⟩
  | pause seconds next tail =>
    cases suspends with
    | true => exact ⟨[], (Moves.pause seconds next).reaches, rfl, by simp⟩
    | false =>
      obtain ⟨calls, reached, same, answered⟩ := tail client
      exact ⟨calls, (Moves.pause seconds next).reaches.trans reached, same, answered⟩
  | note event next tail =>
    obtain ⟨calls, reached, same, answered⟩ := tail client
    exact ⟨calls, (Moves.note event next).reaches.trans reached, same, answered⟩

theorem calls_append (first second : List Step) :
    Exchange.calls (first ++ second) = Exchange.calls first ++ Exchange.calls second := by
  simp [Exchange.calls]

/-- A round lets the exchanges of a stretch go on one after another; those around it stand still. -/
theorem interleaves_round (suspends : Bool) (before middle after : List (Exchange Result))
    (client : Client) :
    ∃ calls, Interleaves (before ++ middle ++ after) calls
        (before ++ (round respond suspends middle client).1 ++ after) ∧
      calls.map (fun call => call.2.1) =
        Exchange.calls (round respond suspends middle client).2.1 ∧
      ∀ call ∈ calls, Answered respond call.2 := by
  induction middle generalizing before client with
  | nil => exact ⟨[], .start, rfl, by simp⟩
  | cons exchange rest tail =>
    obtain ⟨made, reached, same, answered⟩ := reaches_turn respond suspends exchange client
    obtain ⟨calls, others, following, alsoAnswered⟩ :=
      tail (before ++ [(turn respond suspends exchange client).1])
        (turn respond suspends exchange client).2.2
    have first := Interleaves.of_reaches before (rest ++ after) reached
    refine ⟨made.map (before.length, ·) ++ calls, ?_, ?_, ?_⟩
    · simp only [List.append_assoc, List.cons_append, List.nil_append] at others ⊢
      exact first.trans others
    · simp only [round, calls_append, List.map_append, List.map_map, ← following, ← same]
      rfl
    · intro call member
      rcases List.mem_append.mp member with now | later
      · obtain ⟨call, inMade, rfl⟩ := List.mem_map.mp now
        exact answered call inMade
      · exact alsoAnswered call later

theorem firstFailure?_eq_some {exchanges before after : List (Exchange Result)} {failure : Failure}
    (found : firstFailure? exchanges = some (before, failure, after)) :
    exchanges = before ++ .done (.error failure) :: after ∧ failures before = [] := by
  fun_induction firstFailure? exchanges generalizing before with
  | case1 => cases found
  | case2 cause rest =>
    cases found
    exact ⟨rfl, rfl⟩
  | case3 exchange rest other tail =>
    obtain ⟨⟨others, cause, behind⟩, later, same⟩ := Option.map_eq_some_iff.mp found
    cases same
    obtain ⟨split, clean⟩ := tail later
    refine ⟨congrArg (exchange :: ·) split, ?_⟩
    rw [failures, List.filterMap_cons_none, ← failures, clean]
    split
    · next failed cause => exact (other cause rfl).elim
    · rfl

theorem mem_failures {exchanges : List (Exchange Result)} {failure : Failure} :
    failure ∈ failures exchanges ↔ .done (.error failure) ∈ exchanges := by
  simp only [failures, List.mem_filterMap]
  constructor
  · rintro ⟨exchange, member, failed⟩
    split at failed
    · cases failed
      exact member
    · cases failed
  · exact fun member => ⟨_, member, rfl⟩

/-- What is collected once a failure has ended an exchange: behind it, and late before it. -/
theorem mem_collected_iff {before after : List (Exchange Result)} {first cause : Failure} :
    cause ∈ first :: (failures after ++ failures before) ↔
      .done (.error cause) ∈ before ++ .done (.error first) :: after := by
  simp only [List.mem_cons, List.mem_append, mem_failures, Exchange.done.injEq, Except.error.injEq]
  constructor
  · rintro (same | behind | late)
    · exact .inr (.inl same)
    · exact .inr (.inr behind)
    · exact .inl late
  · rintro (late | same | behind)
    · exact .inr (.inr late)
    · exact .inl same
    · exact .inr (.inl behind)

theorem results?_of_ended {exchanges : List (Exchange Result)}
    (ended : ∀ exchange ∈ exchanges, ∃ result, exchange = .done result)
    (none : firstFailure? exchanges = none) : ∃ results, results? exchanges = some results := by
  induction exchanges with
  | nil => exact ⟨[], rfl⟩
  | cons exchange rest tail =>
    obtain ⟨⟨result, rfl⟩, others⟩ := List.forall_mem_cons.mp ended
    cases result with
    | error failure => cases none
    | ok result =>
      obtain ⟨results, found⟩ := tail others (by simpa [firstFailure?] using none)
      exact ⟨result :: results, by simp [results?, found]⟩

theorem ended_of_round (exchanges : List (Exchange Result)) (client : Client) :
    ∀ exchange ∈ (round respond false exchanges client).1, ∃ result, exchange = .done result := by
  induction exchanges generalizing client with
  | nil => simp [round]
  | cons exchange rest tail =>
    refine List.forall_mem_cons.mpr ⟨?_, tail _⟩
    rw [turn_false]
    exact ⟨_, rfl⟩

/-- How an operation ends in view of what is left of its exchanges. -/
def Ends (left : List (Exchange Result)) : Except Failure (List Result) → Prop
  | .ok results => results? left = some results
  | .error failure => ∃ first others,
      (∀ cause, cause ∈ first :: others ↔ .done (.error cause) ∈ left) ∧
        failure = reported first others

/-- The exchanges that a schedule runs are interleaved, and the client answers them. -/
theorem interleaves_run (rounds : Nat) (exchanges : List (Exchange Result)) (client : Client) :
    ∃ calls left, Interleaves exchanges calls left ∧
      calls.map (fun call => call.2.1) =
        Exchange.calls (run respond rounds exchanges client).steps ∧
      (∀ call ∈ calls, Answered respond call.2) ∧
      Ends left (run respond rounds exchanges client).result := by
  induction rounds generalizing exchanges client with
  | zero =>
    obtain ⟨calls, done, same, answered⟩ :=
      interleaves_round respond false [] exchanges [] client
    have ended := ended_of_round respond exchanges client
    simp only [List.nil_append, List.append_nil] at done
    refine ⟨calls, _, done, same, answered, ?_⟩
    simp only [run, outcome]
    cases failed : firstFailure? (round respond false exchanges client).1 with
    | some found =>
      obtain ⟨before, first, after⟩ := found
      obtain ⟨split, clean⟩ := firstFailure?_eq_some failed
      refine ⟨first, failures after, fun cause => ?_, rfl⟩
      rw [split, ← mem_collected_iff, clean, List.append_nil]
    | none =>
      obtain ⟨results, found⟩ := results?_of_ended ended failed
      simp only [found]
      exact found
  | succ rounds tail =>
    obtain ⟨calls, done, same, answered⟩ :=
      interleaves_round respond true [] exchanges [] client
    simp only [List.nil_append, List.append_nil] at done
    simp only [run]
    cases failed : firstFailure? (round respond true exchanges client).1 with
    | some found =>
      obtain ⟨before, first, after⟩ := found
      obtain ⟨split, -⟩ := firstFailure?_eq_some failed
      obtain ⟨more, others, following, alsoAnswered⟩ :=
        interleaves_round respond true [] before (.done (.error first) :: after)
          (round respond true exchanges client).2.2
      rw [List.nil_append, ← split] at others
      refine ⟨calls ++ more, _, done.trans others, ?_, ?_, first, _, ?_, rfl⟩
      · simp [calls_append, same, following]
      · exact List.forall_mem_append.mpr ⟨answered, alsoAnswered⟩
      · exact fun cause => mem_collected_iff
    | none =>
      cases found : results? (round respond true exchanges client).1 with
      | some results => exact ⟨calls, _, done, same, answered, found⟩
      | none =>
        obtain ⟨more, left, others, following, alsoAnswered, ends⟩ :=
          tail (round respond true exchanges client).1 (round respond true exchanges client).2.2
        refine ⟨calls ++ more, left, done.trans others, ?_, ?_, ends⟩
        · simp [calls_append, same, following]
        · exact List.forall_mem_append.mpr ⟨answered, alsoAnswered⟩

end RecordMerge.Schedule

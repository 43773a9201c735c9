import Mathlib.Data.List.Forall2
import RecordMerge.Failure

/-! Computations that can fail, taken apart at their steps, and rows of such computations. -/

set_option autoImplicit false

namespace RecordMerge

variable {First Second Third : Type}

/-- Two steps succeed together exactly if each of them does. -/
theorem bind_eq_ok_iff {first : Except Failure First} {next : First → Except Failure Second}
    {result : Second} :
    (first >>= next) = .ok result ↔ ∃ value, first = .ok value ∧ next value = .ok result := by
  cases first with
  | error failure => simp [bind, Except.bind]
  | ok value => simp [bind, Except.bind]

/-- Two steps fail together exactly if the first one does, or the second one after it. -/
theorem bind_eq_error_iff {first : Except Failure First} {next : First → Except Failure Second}
    {failure : Failure} :
    (first >>= next) = .error failure ↔
      first = .error failure ∨ ∃ value, first = .ok value ∧ next value = .error failure := by
  cases first with
  | error failure => simp [bind, Except.bind]
  | ok value => simp [bind, Except.bind]

/-- A walk along a row that makes one result of each element relates the rows element by element. -/
theorem walk_iff_forall₂ {walks : List First → List Second → Prop} {makes : First → Second → Prop}
    (firsts : List First) (seconds : List Second) (done : ∀ made, walks [] made ↔ made = [])
    (step : ∀ first rest made, walks (first :: rest) made ↔
      ∃ second others, makes first second ∧ walks rest others ∧ made = second :: others) :
    walks firsts seconds ↔ List.Forall₂ makes firsts seconds := by
  induction firsts generalizing seconds with
  | nil => rw [done, List.forall₂_nil_left_iff]
  | cons first rest tail => simp only [step, tail, List.forall₂_cons_left_iff]

theorem row_eq_ok_iff {make : First → Except Failure Second}
    {row : List First → Except Failure (List Second)} {firsts : List First} {seconds : List Second}
    (nil : row [] = .ok [])
    (cons : ∀ first rest, row (first :: rest) = do
      let second ← make first
      let others ← row rest
      .ok (second :: others)) :
    row firsts = .ok seconds ↔
      List.Forall₂ (fun first second => make first = .ok second) firsts seconds := by
  apply walk_iff_forall₂ firsts seconds
  · intro made
    rw [nil, Except.ok.injEq, eq_comm]
  · intro first rest made
    simp only [cons, bind_eq_ok_iff, Except.ok.injEq]
    exact ⟨fun ⟨second, here, others, later, built⟩ => ⟨second, others, here, later, built.symm⟩,
      fun ⟨second, others, here, later, built⟩ => ⟨second, here, others, later, built.symm⟩⟩

/-- An element fails, and all elements before it give a result. -/
def FirstFault (make : First → Except Failure Second) (firsts : List First) (failure : Failure) :
    Prop :=
  ∃ before first after, firsts = before ++ first :: after ∧
    (∀ earlier ∈ before, ∃ second, make earlier = .ok second) ∧ make first = .error failure

theorem FirstFault.exists {make : First → Except Failure Second} {firsts : List First}
    {failure : Failure} (fault : FirstFault make firsts failure) :
    ∃ first ∈ firsts, make first = .error failure := by
  obtain ⟨before, first, after, rfl, -, failed⟩ := fault
  exact ⟨first, by simp, failed⟩

/-- A row fails as the first of its elements that fails does. -/
theorem row_eq_error_iff {make : First → Except Failure Second}
    {row : List First → Except Failure (List Second)} {firsts : List First} {failure : Failure}
    (nil : row [] = .ok [])
    (cons : ∀ first rest, row (first :: rest) = do
      let second ← make first
      let others ← row rest
      .ok (second :: others)) :
    row firsts = .error failure ↔ FirstFault make firsts failure := by
  unfold FirstFault
  induction firsts with
  | nil => simp [nil]
  | cons first rest tail =>
    simp only [cons, bind_eq_error_iff, tail]
    constructor
    · rintro (here | ⟨second, made, ⟨before, bad, after, rfl, fine, failed⟩ | ⟨others, -, built⟩⟩)
      · exact ⟨[], first, rest, rfl, by simp, here⟩
      · exact ⟨first :: before, bad, after, rfl,
          List.forall_mem_cons.mpr ⟨⟨second, made⟩, fine⟩, failed⟩
      · cases built
    · rintro ⟨before, bad, after, same, fine, failed⟩
      cases before with
      | nil =>
        cases same
        exact .inl failed
      | cons earlier before =>
        cases same
        obtain ⟨⟨second, made⟩, fine⟩ := List.forall_mem_cons.mp fine
        exact .inr ⟨second, made, .inl ⟨before, bad, after, rfl, fine, failed⟩⟩

/-- What holds of each pair holds of the rows, if the right one determines what is made of the left
one. -/
theorem forall₂_iff_of_each {paired : First → Second → Prop} {makes : First → Third → Prop}
    {sound : Second → Prop} {meant : Second → Third} {firsts : List First} {seconds : List Second}
    {made : List Third} (pairs : List.Forall₂ paired firsts seconds)
    (each : ∀ second ∈ seconds, ∀ first value, paired first second →
      (makes first value ↔ sound second ∧ value = meant second)) :
    List.Forall₂ makes firsts made ↔
      (∀ second ∈ seconds, sound second) ∧ made = seconds.map meant := by
  induction pairs generalizing made with
  | nil => simp [List.forall₂_nil_left_iff]
  | @cons first second firsts seconds pair pairs tail =>
    obtain ⟨here, others⟩ := List.forall_mem_cons.mp each
    rw [List.forall₂_cons_left_iff]
    constructor
    · rintro ⟨value, rest, makesFirst, makesRest, rfl⟩
      obtain ⟨soundFirst, rfl⟩ := (here _ _ pair).mp makesFirst
      obtain ⟨soundRest, rfl⟩ := (tail others).mp makesRest
      exact ⟨List.forall_mem_cons.mpr ⟨soundFirst, soundRest⟩, rfl⟩
    · rintro ⟨soundAll, rfl⟩
      obtain ⟨soundFirst, soundRest⟩ := List.forall_mem_cons.mp soundAll
      exact ⟨_, _, (here _ _ pair).mpr ⟨soundFirst, rfl⟩, (tail others).mpr ⟨soundRest, rfl⟩, rfl⟩

/-- What is made of each element determines what is made of the row. -/
theorem row_of_each {makes : First → Second → Prop} {sound : Second → Prop} {meant : Second → Third}
    {expected : First → Third} {firsts : List First} {seconds : List Second}
    (pairs : List.Forall₂ makes firsts seconds)
    (each : ∀ first ∈ firsts, ∀ second, makes first second →
      sound second ∧ meant second = expected first) :
    (∀ second ∈ seconds, sound second) ∧ seconds.map meant = firsts.map expected := by
  induction pairs with
  | nil => simp
  | cons pair pairs tail =>
    obtain ⟨here, others⟩ := List.forall_mem_cons.mp each
    obtain ⟨soundFirst, equal⟩ := here _ pair
    obtain ⟨soundRest, equals⟩ := tail others
    exact ⟨List.forall_mem_cons.mpr ⟨soundFirst, soundRest⟩, by simp [equal, equals]⟩

/-- What holds of the right element of each pair holds of the right row. -/
theorem forall_right_of_each {paired : First → Second → Prop} {holds : Second → Prop}
    {firsts : List First} {seconds : List Second} (pairs : List.Forall₂ paired firsts seconds)
    (each : ∀ first ∈ firsts, ∀ second, paired first second → holds second) :
    ∀ second ∈ seconds, holds second := by
  induction pairs with
  | nil => exact nofun
  | cons pair pairs tail =>
    obtain ⟨here, others⟩ := List.forall_mem_cons.mp each
    exact List.forall_mem_cons.mpr ⟨here _ pair, tail others⟩

theorem forall₂_iff_of_left {paired : First → Second → Prop}
    {holds : First → Prop} {firsts : List First} {seconds : List Second}
    (pairs : List.Forall₂ (fun first second => paired first second ↔ holds first) firsts seconds) :
    List.Forall₂ paired firsts seconds ↔ ∀ first ∈ firsts, holds first := by
  induction pairs with
  | nil => simp
  | cons here pairs tail => rw [List.forall₂_cons, here, tail, List.forall_mem_cons]

/-- If each pair has a third element to it, there is a row of them. -/
theorem exists_row_of_each {paired : First → Second → Prop} {related : First → Third → Prop}
    {sound : Third → Prop} {meant : Third → Second} {firsts : List First} {seconds : List Second}
    (pairs : List.Forall₂ paired firsts seconds)
    (each : ∀ first ∈ firsts, ∀ second, paired first second →
      ∃ third, related first third ∧ sound third ∧ second = meant third) :
    ∃ thirds, List.Forall₂ related firsts thirds ∧ (∀ third ∈ thirds, sound third) ∧
      seconds = thirds.map meant := by
  induction pairs with
  | nil => exact ⟨[], .nil, by simp, rfl⟩
  | cons pair pairs tail =>
    obtain ⟨here, others⟩ := List.forall_mem_cons.mp each
    obtain ⟨third, relation, soundFirst, rfl⟩ := here _ pair
    obtain ⟨thirds, relations, soundRest, rfl⟩ := tail others
    exact ⟨third :: thirds, .cons relation relations,
      List.forall_mem_cons.mpr ⟨soundFirst, soundRest⟩, rfl⟩

/-- Two steps on each element in turn are one step on each. -/
theorem exists_forall₂_iff {earlier : First → Second → Prop} {later : Second → Third → Prop}
    {firsts : List First} {thirds : List Third} :
    (∃ seconds, List.Forall₂ earlier firsts seconds ∧ List.Forall₂ later seconds thirds) ↔
      List.Forall₂ (fun first third => ∃ second, earlier first second ∧ later second third)
        firsts thirds := by
  constructor
  · rintro ⟨seconds, before, after⟩
    induction before generalizing thirds with
    | nil =>
      cases after
      exact .nil
    | cons here before tail =>
      cases after with
      | cons there after => exact .cons ⟨_, here, there⟩ (tail after)
  · intro both
    induction both with
    | nil => exact ⟨[], .nil, .nil⟩
    | cons here both tail =>
      obtain ⟨second, before, after⟩ := here
      obtain ⟨seconds, befores, afters⟩ := tail
      exact ⟨second :: seconds, .cons before befores, .cons after afters⟩

end RecordMerge

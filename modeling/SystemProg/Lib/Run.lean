import Mathlib.Data.List.Induction
import Mathlib.Tactic.Common

set_option autoImplicit false

-- A step function answers `none` where the action has no defined outcome, so a run ends at the
-- first undefined action and every statement is about the states before it.

namespace SystemProg.Run

variable {S A : Type}

def exec (step : S → A → Option S) : S → List A → Option S
  | state, [] => some state
  | state, action :: rest => (step state action).bind fun next => exec step next rest

def Reaches (step : S → A → Option S) (first last : S) : Prop :=
  ∃ actions, exec step first actions = some last

def Along (step : S → A → Option S) (property : S → Prop) : S → List A → Prop
  | state, [] => property state
  | state, action :: rest =>
      property state ∧ ∀ next, step state action = some next → Along step property next rest

-- The condition holds of every action that the run completes, in the state before it.
def EachStep (step : S → A → Option S) (condition : S → A → Prop) : S → List A → Prop
  | _, [] => True
  | state, action :: rest => ∀ next, step state action = some next →
      condition state action ∧ EachStep step condition next rest

section Rules

variable {step : S → A → Option S}

@[simp] theorem exec_nil (state : S) : exec step state [] = some state := rfl

theorem exec_cons (state last : S) (action : A) (rest : List A) :
    exec step state (action :: rest) = some last ↔
      ∃ next, step state action = some next ∧ exec step next rest = some last := by
  simp [exec, Option.bind_eq_some_iff]

theorem exec_append (state last : S) (front rest : List A) :
    exec step state (front ++ rest) = some last ↔
      ∃ middle, exec step state front = some middle ∧ exec step middle rest = some last := by
  induction front generalizing state with
  | nil => simp
  | cons action front ih =>
      simp only [List.cons_append, exec_cons, ih]
      constructor
      · rintro ⟨next, taken, middle, reached, finished⟩
        exact ⟨middle, ⟨next, taken, reached⟩, finished⟩
      · rintro ⟨middle, ⟨next, taken, reached⟩, finished⟩
        exact ⟨next, taken, middle, reached, finished⟩

instance decidableEachStep {condition : S → A → Prop}
    [(state : S) → (action : A) → Decidable (condition state action)] :
    (state : S) → (actions : List A) → Decidable (EachStep step condition state actions)
  | _, [] => isTrue trivial
  | state, action :: rest =>
      match taken : step state action with
      | none => isTrue fun next there => by simp [taken] at there
      | some next =>
          have : Decidable (EachStep step condition next rest) := decidableEachStep next rest
          decidable_of_iff (condition state action ∧ EachStep step condition next rest)
            (by simp [EachStep, taken])

instance decidableAlong {property : S → Prop} [DecidablePred property] :
    (state : S) → (actions : List A) → Decidable (Along step property state actions)
  | state, [] => inferInstanceAs (Decidable (property state))
  | state, action :: rest =>
      have : Decidable (∀ next, step state action = some next →
          Along step property next rest) :=
        match taken : step state action with
        | none => isTrue nofun
        | some next =>
            have : Decidable (Along step property next rest) := decidableAlong next rest
            decidable_of_iff (Along step property next rest) (by simp)
      inferInstanceAs (Decidable (_ ∧ _))

theorem Reaches.refl (state : S) : Reaches step state state := ⟨[], rfl⟩

theorem Reaches.snoc {first state next : S} {action : A} (reached : Reaches step first state)
    (taken : step state action = some next) : Reaches step first next := by
  obtain ⟨actions, run⟩ := reached
  refine ⟨actions ++ [action], ?_⟩
  rw [exec_append]
  exact ⟨state, run, by simp [exec, taken]⟩

-- The invariant rule: what every step preserves holds at the end of every run.
theorem exec_invariant (invariant : S → Prop)
    (preserved : ∀ state action next, invariant state → step state action = some next →
      invariant next)
    {state last : S} {actions : List A} (first : invariant state)
    (run : exec step state actions = some last) : invariant last := by
  induction actions generalizing state with
  | nil => cases run; exact first
  | cons action rest ih =>
      obtain ⟨next, taken, finished⟩ := (exec_cons _ _ _ _).mp run
      exact ih (preserved state action next first taken) finished

theorem Reaches.invariant {invariant : S → Prop}
    (preserved : ∀ state action next, invariant state → step state action = some next →
      invariant next)
    {state last : S} (first : invariant state) (reached : Reaches step state last) :
    invariant last := by
  obtain ⟨actions, run⟩ := reached
  exact exec_invariant invariant preserved first run

theorem exec_invariant_of_eachStep {invariant : S → Prop} {condition : S → A → Prop}
    (preserved : ∀ state action next, invariant state → condition state action →
      step state action = some next → invariant next)
    {state last : S} {actions : List A} (first : invariant state)
    (met : EachStep step condition state actions)
    (run : exec step state actions = some last) : invariant last := by
  induction actions generalizing state with
  | nil => cases run; exact first
  | cons action rest ih =>
      obtain ⟨next, taken, finished⟩ := (exec_cons _ _ _ _).mp run
      obtain ⟨here, later⟩ := met next taken
      exact ih (preserved state action next first here taken) later finished

theorem eachStep_of_forall {condition : S → A → Prop} {actions : List A}
    (met : ∀ action ∈ actions, ∀ state, condition state action) (state : S) :
    EachStep step condition state actions := by
  induction actions generalizing state with
  | nil => exact trivial
  | cons action rest ih =>
      exact fun next _ => ⟨met action (List.mem_cons_self ..) state,
        ih (fun later mem => met later (List.mem_cons_of_mem _ mem)) next⟩

theorem exec_invariant_of_forall {invariant : S → Prop} {condition : A → Prop}
    (preserved : ∀ state action next, invariant state → condition action →
      step state action = some next → invariant next)
    {state last : S} {actions : List A} (first : invariant state)
    (met : ∀ action ∈ actions, condition action)
    (run : exec step state actions = some last) : invariant last :=
  have each : EachStep step (fun _ action => condition action) state actions :=
    eachStep_of_forall (fun action mem _ => met action mem) state
  exec_invariant_of_eachStep preserved first each run

theorem along_invariant {invariant : S → Prop}
    (preserved : ∀ state action next, invariant state → step state action = some next →
      invariant next)
    {state : S} (first : invariant state) (actions : List A) :
    Along step invariant state actions := by
  induction actions generalizing state with
  | nil => exact first
  | cons action rest ih =>
      exact ⟨first, fun next taken => ih (preserved state action next first taken)⟩

theorem along_of_eachStep {invariant : S → Prop} {condition : S → A → Prop}
    (preserved : ∀ state action next, invariant state → condition state action →
      step state action = some next → invariant next)
    {state : S} {actions : List A} (first : invariant state)
    (met : EachStep step condition state actions) : Along step invariant state actions := by
  induction actions generalizing state with
  | nil => exact first
  | cons action rest ih =>
      refine ⟨first, fun next taken => ?_⟩
      obtain ⟨here, later⟩ := met next taken
      exact ih (preserved state action next first here taken) later

theorem Along.mono {property property' : S → Prop} (implies : ∀ state, property state →
    property' state) {state : S} {actions : List A} (holds : Along step property state actions) :
    Along step property' state actions := by
  induction actions generalizing state with
  | nil => exact implies state holds
  | cons action rest ih =>
      exact ⟨implies state holds.1, fun next taken => ih (holds.2 next taken)⟩

theorem Along.first {property : S → Prop} {state : S} {actions : List A}
    (holds : Along step property state actions) : property state := by
  cases actions with
  | nil => exact holds
  | cons => exact holds.1

theorem Along.reached {property : S → Prop} {state last : S} {front rest : List A}
    (holds : Along step property state (front ++ rest)) (run : exec step state front = some last) :
    property last := by
  induction front generalizing state with
  | nil =>
      cases run
      exact holds.first
  | cons action front ih =>
      obtain ⟨next, taken, finished⟩ := (exec_cons _ _ _ _).mp run
      exact ih (holds.2 next taken) finished

theorem Along.last {property : S → Prop} {state last : S} {actions : List A}
    (holds : Along step property state actions) (run : exec step state actions = some last) :
    property last := by
  rw [← List.append_nil actions] at holds
  exact holds.reached run

theorem EachStep.reached {condition : S → A → Prop} {state middle : S} {front rest : List A}
    (met : EachStep step condition state (front ++ rest))
    (run : exec step state front = some middle) : EachStep step condition middle rest := by
  induction front generalizing state with
  | nil =>
      cases run
      exact met
  | cons action front ih =>
      obtain ⟨next, taken, finished⟩ := (exec_cons _ _ _ _).mp run
      exact ih (met next taken).2 finished

-- A counter that grows only while all of it is used is the highest use in the run.
theorem exec_peak {invariant : S → Prop} {used count : S → Nat}
    (within : ∀ state, used state ≤ count state)
    (preserved : ∀ state action next, invariant state → step state action = some next →
      invariant next)
    (grows : ∀ state action next, invariant state → step state action = some next →
      count next = count state ∨ count state ≤ count next ∧ used next = count next)
    {first last : S} {actions : List A} (ground : invariant first) (full : used first = count first)
    (run : exec step first actions = some last) :
    (∀ front rest middle, actions = front ++ rest → exec step first front = some middle →
      used middle ≤ count last) ∧
    ∃ front rest middle, actions = front ++ rest ∧ exec step first front = some middle ∧
      used middle = count last := by
  induction actions using List.reverseRecOn generalizing last with
  | nil =>
      cases run
      refine ⟨?_, [], [], first, rfl, rfl, full⟩
      intro front rest middle split run
      obtain ⟨rfl, -⟩ := List.append_eq_nil_iff.mp split.symm
      cases run
      exact within first
  | append_singleton actions action ih =>
      obtain ⟨state, before, taken⟩ := (exec_append _ _ _ _).mp run
      obtain ⟨next, taken, same⟩ := (exec_cons _ _ _ _).mp taken
      cases same
      obtain ⟨highest, front, rest, middle, split, reached, top⟩ := ih before
      have grown := grows state action last (exec_invariant invariant preserved ground before) taken
      have more : count state ≤ count last := grown.elim (fun same => same ▸ Nat.le_refl _) And.left
      constructor
      · intro front rest middle split reached
        rcases List.eq_nil_or_concat rest with rfl | ⟨rest, action', rfl⟩
        · rw [List.append_nil] at split
          rw [← split, run] at reached
          cases reached
          exact within last
        · rw [List.concat_eq_append, ← List.append_assoc] at split
          obtain ⟨split, -⟩ := List.append_inj' split rfl
          exact Nat.le_trans (highest front rest middle split reached) more
      · rcases grown with same | ⟨-, all⟩
        · exact ⟨front, rest ++ [action], middle, by rw [split, List.append_assoc], reached,
            top.trans same.symm⟩
        · exact ⟨actions ++ [action], [], last, by simp, run, all⟩

theorem eachStep_and {condition condition' : S → A → Prop} {state : S} {actions : List A} :
    EachStep step (fun state action => condition state action ∧ condition' state action) state
        actions ↔
      EachStep step condition state actions ∧ EachStep step condition' state actions := by
  induction actions generalizing state with
  | nil => simp [EachStep]
  | cons action rest ih =>
      simp only [EachStep, ih]
      constructor
      · intro met
        exact ⟨fun next taken => ⟨(met next taken).1.1, (met next taken).2.1⟩,
          fun next taken => ⟨(met next taken).1.2, (met next taken).2.2⟩⟩
      · rintro ⟨met, met'⟩ next taken
        exact ⟨⟨(met next taken).1, (met' next taken).1⟩, (met next taken).2, (met' next taken).2⟩

theorem eachStep_iff {invariant : S → Prop} {assumed condition condition' : S → A → Prop}
    (preserved : ∀ state action next, invariant state → step state action = some next →
      invariant next)
    (same : ∀ state action next, invariant state → assumed state action →
      step state action = some next → (condition state action ↔ condition' state action))
    {state : S} {actions : List A} (first : invariant state)
    (met : EachStep step assumed state actions) :
    EachStep step condition state actions ↔ EachStep step condition' state actions := by
  induction actions generalizing state with
  | nil => exact Iff.rfl
  | cons action rest ih =>
      refine forall_congr' fun next => forall_congr' fun taken => ?_
      obtain ⟨here, later⟩ := met next taken
      exact and_congr (same state action next first here taken)
        (ih (preserved state action next first taken) later)

-- A property that each step keeps exactly when the condition holds of that step is kept by
-- a whole run exactly when the condition holds of all its steps.
theorem along_iff_eachStep {background property : S → Prop} {condition : S → A → Prop}
    (kept : ∀ state action next, background state → property state →
      step state action = some next → background next)
    (decides : ∀ state action next, background state → property state →
      step state action = some next → (property next ↔ condition state action))
    {state : S} {actions : List A} (ground : background state) (first : property state) :
    Along step property state actions ↔ EachStep step condition state actions := by
  induction actions generalizing state with
  | nil => simp [Along, EachStep, first]
  | cons action rest ih =>
      constructor
      · intro holds next taken
        have later := holds.2 next taken
        have after := kept state action next ground first taken
        exact ⟨(decides state action next ground first taken).mp later.first,
          (ih after later.first).mp later⟩
      · intro met
        refine ⟨first, fun next taken => ?_⟩
        obtain ⟨here, later⟩ := met next taken
        exact (ih (kept state action next ground first taken)
          ((decides state action next ground first taken).mpr here)).mpr later

end Rules

end SystemProg.Run

import Mathlib.Logic.Function.Basic
import SystemProg.Lib.Run

set_option autoImplicit false

-- A thread that finds its condition false gives up its lock and falls asleep in the same step. A
-- broadcast wakes it, and it may wake without one; then it looks again. A system whose threads look
-- again and again instead has the same states, and a thread sleeps only as long as it has to where
-- every step that can end its wait wakes it.

namespace SystemProg

variable {S A T : Type}

structure Monitor (S A T : Type) where
  step : S → A → Option S
  thread : A → Option T
  -- The action leads from the first state to the second, in which its thread sleeps.
  sleeps : S → A → S → Bool
  wakes : S → A → T → Bool

structure Sleepers (S T : Type) where
  state : S
  asleep : T → Bool

-- A thread acts, or one that sleeps wakes.
inductive Stir (A T : Type) where
  | act (action : A)
  | wake (thread : T)
deriving DecidableEq

def Stir.action : Stir A T → Option A
  | .act action => some action
  | .wake _ => none

namespace Monitor

variable [DecidableEq T] (m : Monitor S A T)

def acts (s : Sleepers S T) (action : A) (next : S) : Sleepers S T :=
  { state := next
    asleep := fun t =>
      if m.thread action = some t then m.sleeps s.state action next
      else s.asleep t && !m.wakes s.state action t }

def stir (s : Sleepers S T) : Stir A T → Option (Sleepers S T)
  | .act action =>
      if (m.thread action).any s.asleep then none
      else (m.step s.state action).map (m.acts s action)
  | .wake t =>
      if s.asleep t then some { s with asleep := Function.update s.asleep t false } else none

def lift (condition : S → A → Prop) (s : Sleepers S T) : Stir A T → Prop
  | .act action => condition s.state action
  | .wake _ => True

instance (condition : S → A → Prop) [(s : S) → (action : A) → Decidable (condition s action)]
    (s : Sleepers S T) : (t : Stir A T) → Decidable (lift condition s t)
  | .act action => inferInstanceAs (Decidable (condition s.state action))
  | .wake _ => inferInstanceAs (Decidable True)

-- Nobody who is awake can act.
def Still (s : Sleepers S T) : Prop :=
  ∀ action t, m.thread action = some t → s.asleep t = false → m.step s.state action = none

section Rules

variable {m}

theorem stir_act {s next : Sleepers S T} {action : A} (taken : m.stir s (.act action) = some next) :
    ∃ state, m.step s.state action = some state ∧ next = m.acts s action state ∧
      ∀ t, m.thread action = some t → s.asleep t = false := by
  simp only [stir] at taken
  split at taken
  · cases taken
  · next awake =>
      rw [Option.map_eq_some_iff] at taken
      obtain ⟨state, moved, rfl⟩ := taken
      refine ⟨state, moved, rfl, fun t acting => ?_⟩
      simpa [acting] using awake

theorem stir_wake {s next : Sleepers S T} {t : T} (taken : m.stir s (.wake t) = some next) :
    next = { s with asleep := Function.update s.asleep t false } := by
  simp only [stir] at taken
  split at taken
  · exact (Option.some.inj taken).symm
  · cases taken

theorem stir_preserves {invariant : S → Prop} {condition : S → A → Prop}
    (preserved : ∀ state action next, invariant state → condition state action →
      m.step state action = some next → invariant next)
    {s next : Sleepers S T} {t : Stir A T} (before : invariant s.state) (met : lift condition s t)
    (taken : m.stir s t = some next) : invariant next.state := by
  cases t with
  | act action =>
      obtain ⟨state, moved, rfl, -⟩ := stir_act taken
      exact preserved s.state action state before met moved
  | wake t =>
      rw [stir_wake taken]
      exact before

theorem exec_state {s last : Sleepers S T} {stirs : List (Stir A T)}
    (run : Run.exec m.stir s stirs = some last) :
    Run.exec m.step s.state (stirs.filterMap Stir.action) = some last.state := by
  induction stirs generalizing s with
  | nil =>
      cases run
      rfl
  | cons t rest ih =>
      obtain ⟨next, taken, finished⟩ := (Run.exec_cons _ _ _ _).mp run
      have later := ih finished
      cases t with
      | act action =>
          obtain ⟨state, moved, rfl, -⟩ := stir_act taken
          simp only [List.filterMap_cons, Stir.action, Run.exec_cons]
          exact ⟨state, moved, later⟩
      | wake t =>
          rw [stir_wake taken] at later
          simp only [List.filterMap_cons, Stir.action]
          exact later

theorem exec_stirs {state last : S} {actions : List A}
    (run : Run.exec m.step state actions = some last) (asleep : T → Bool) :
    ∃ stirs asleep', stirs.filterMap Stir.action = actions ∧
      Run.exec m.stir ⟨state, asleep⟩ stirs = some ⟨last, asleep'⟩ := by
  induction actions generalizing state asleep with
  | nil =>
      cases run
      exact ⟨[], asleep, rfl, rfl⟩
  | cons action rest ih =>
      obtain ⟨next, taken, finished⟩ := (Run.exec_cons _ _ _ _).mp run
      -- The thread is awake, once it has been woken.
      obtain ⟨woken, wakes, awake⟩ : ∃ (woken : T → Bool) (wakes : List (Stir A T)),
          wakes.filterMap Stir.action = [] ∧
            Run.exec m.stir ⟨state, asleep⟩ wakes = some ⟨state, woken⟩ ∧
              ¬(m.thread action).any woken = true := by
        by_cases sleeping : (m.thread action).any asleep
        · obtain ⟨t, acting, sleeping⟩ := (Option.any_eq_true _ _).mp sleeping
          refine ⟨Function.update asleep t false, [.wake t], rfl, ?_, ?_⟩
          · simp [Run.exec, stir, sleeping]
          · simp [acting]
        · exact ⟨asleep, [], rfl, rfl, sleeping⟩
      obtain ⟨stirs, asleep', same, later⟩ := ih finished (m.acts ⟨state, woken⟩ action next).asleep
      refine ⟨wakes ++ .act action :: stirs, asleep', ?_, ?_⟩
      · rw [List.filterMap_append, awake.1, List.nil_append]
        simp only [List.filterMap_cons, Stir.action, same]
      · rw [Run.exec_append]
        refine ⟨_, awake.2.1, ?_⟩
        rw [Run.exec_cons]
        refine ⟨_, ?_, later⟩
        simp [stir, awake.2.2, taken, acts]

theorem stir_blocked {blocked : S → T → Prop}
    (falls : ∀ state action next t, m.step state action = some next → m.thread action = some t →
      m.sleeps state action next = true → blocked next t)
    (stays : ∀ state action next t, m.step state action = some next → blocked state t →
      m.thread action ≠ some t → m.wakes state action t = false → blocked next t)
    {s next : Sleepers S T} {t : Stir A T} (held : ∀ t, s.asleep t = true → blocked s.state t)
    (taken : m.stir s t = some next) : ∀ t, next.asleep t = true → blocked next.state t := by
  cases t with
  | act action =>
      obtain ⟨state, moved, rfl, -⟩ := stir_act taken
      intro t sleeping
      simp only [acts] at sleeping ⊢
      split at sleeping
      · next acting => exact falls s.state action state t moved acting sleeping
      · next other =>
          rw [Bool.and_eq_true, Bool.not_eq_true'] at sleeping
          exact stays s.state action state t moved (held t sleeping.1) other sleeping.2
  | wake woken =>
      rw [stir_wake taken]
      intro t sleeping
      dsimp only at sleeping ⊢
      rw [Function.update_apply] at sleeping
      split at sleeping
      · cases sleeping
      · exact held t sleeping

-- The rule for sleep: a thread that sleeps is blocked where it is blocked when it falls asleep and
-- what does not wake it leaves it blocked.
theorem exec_blocked {blocked : S → T → Prop}
    (falls : ∀ state action next t, m.step state action = some next → m.thread action = some t →
      m.sleeps state action next = true → blocked next t)
    (stays : ∀ state action next t, m.step state action = some next → blocked state t →
      m.thread action ≠ some t → m.wakes state action t = false → blocked next t)
    {s last : Sleepers S T} {stirs : List (Stir A T)} (awake : ∀ t, s.asleep t = false)
    (run : Run.exec m.stir s stirs = some last) (t : T) (sleeping : last.asleep t = true) :
    blocked last.state t := by
  refine Run.exec_invariant (fun s => ∀ t, s.asleep t = true → blocked s.state t)
    (fun s stir next held taken => stir_blocked falls stays held taken) ?_ run t sleeping
  intro t sleeping
  rw [awake t] at sleeping
  cases sleeping

end Rules

end Monitor

end SystemProg

import SystemProg.Lib.Run

set_option autoImplicit false

-- A system answers each action that has a defined outcome. A specification answers every action.
-- The system refines the specification where its runs give the answers of the specification, seen
-- through a view of the system's states.

namespace SystemProg.Run

variable {S T A R : Type}

def answers (respond : S → A → Option (R × S)) : S → List A → Option (List R × S)
  | state, [] => some ([], state)
  | state, action :: rest =>
      (respond state action).bind fun answered =>
        (answers respond answered.2 rest).map fun later => (answered.1 :: later.1, later.2)

def replies (reply : T → A → R × T) : T → List A → List R × T
  | state, [] => ([], state)
  | state, action :: rest =>
      let later := replies reply (reply state action).2 rest
      ((reply state action).1 :: later.1, later.2)

def Meets (respond : S → A → Option (R × S)) (condition : S → A → Prop) : S → List A → Prop
  | _, [] => True
  | state, action :: rest => condition state action ∧
      ∀ answer next, respond state action = some (answer, next) →
        Meets respond condition next rest

section Refinement

variable {respond : S → A → Option (R × S)} {condition : S → A → Prop}

theorem meets_of_forall {actions : List A} (met : ∀ action ∈ actions, ∀ state, condition state action)
    (state : S) : Meets respond condition state actions := by
  induction actions generalizing state with
  | nil => exact True.intro
  | cons action rest ih =>
      exact ⟨met action (List.mem_cons_self ..) state, fun _ next _ =>
        ih (fun later mem => met later (List.mem_cons_of_mem _ mem)) next⟩

-- The simulation rule: where every proper action is answered as the specification answers it and
-- keeps the invariant, so is every run of proper actions.
theorem answers_refine {reply : T → A → R × T} (view : S → T) {invariant : S → Prop}
    (answered : ∀ state action, invariant state → condition state action →
      ∃ answer next, respond state action = some (answer, next) ∧ invariant next ∧
        reply (view state) action = (answer, view next))
    {state : S} {actions : List A} (first : invariant state)
    (met : Meets respond condition state actions) :
    ∃ given last, answers respond state actions = some (given, last) ∧ invariant last ∧
      replies reply (view state) actions = (given, view last) := by
  induction actions generalizing state with
  | nil => exact ⟨[], state, rfl, first, rfl⟩
  | cons action rest ih =>
      obtain ⟨answer, next, taken, kept, same⟩ := answered state action first met.1
      obtain ⟨given, last, run, held, later⟩ := ih kept (met.2 answer next taken)
      refine ⟨answer :: given, last, ?_, held, ?_⟩
      · rw [answers, taken, Option.bind_some, run]
        rfl
      · rw [replies, same, later]

end Refinement

end SystemProg.Run

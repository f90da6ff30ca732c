import SystemProg.Lib.Run
import SystemProg.ThreadPool.Turns

set_option autoImplicit false

namespace SystemProg.ThreadPool

-- How often the function has been called for each push, the last push first.
def Event.turns (t : TaskId) (turns : List Nat) : Event → List Nat
  | .accepted _ t' => if t' = t then 0 :: turns else turns
  | .started t' =>
      if t' = t then
        match turns with
        | [] => [1]
        | calls :: rest => (calls + 1) :: rest
      else turns
  | _ => turns

namespace World

def callsByPush (s : World) (t : TaskId) : List Nat := s.log.foldl (Event.turns t) []

variable {s : World}

theorem step_log {action : Action} {next : World} (taken : s.step action = some next) :
    next.log = s.log ∨ ∃ event, next.log = s.log ++ [event] := by
  cases action with
  | begin op =>
      cases taken
      refine Or.inl (show (s.begin op).1.log = s.log from ?_)
      obtain ⟨-, same | ⟨n, -, -, same⟩ | same⟩ := begin_effect s op <;> rw [same] <;> rfl
  | call i choice =>
      obtain ⟨c, w, c', at_i, stepped, rfl⟩ := step_called taken
      cases callStep_stepped stepped <;> first | exact Or.inl rfl | exact Or.inr ⟨_, rfl⟩
  | worker i =>
      obtain ⟨worker, w, pc, at_i, stepped, rfl⟩ := step_worked taken
      cases workerStep_stepped stepped <;> first | exact Or.inl rfl | exact Or.inr ⟨_, rfl⟩

-- Every push but the last has had its call, and the last has had at most one.
def Paired (s : World) (t : TaskId) : Prop :=
  s.callsByPush t = if s.timesPushed t = 0 then [] else
    (s.timesCalled t + 1 - s.timesPushed t) :: List.replicate (s.timesPushed t - 1) 1

theorem Orderly.numbers (orderly : s.Orderly) (t : TaskId) :
    s.timesReturned t ≤ s.timesCalled t ∧ s.timesCalled t ≤ s.timesPushed t ∧
      s.timesPushed t ≤ s.timesReturned t + 1 := by
  have turn := orderly.turn 0 t
  have inside := turn.inside
  have due := turn.due
  exact ⟨by omega, by omega, turn.once⟩

theorem Orderly.paired {next : World} {action : Action} {t : TaskId} (orderly : s.Orderly)
    (paired : s.Paired t) (taken : s.step action = some next) : next.Paired t := by
  have before := orderly.numbers t
  have after := (orderly.step taken).numbers t
  rcases step_log taken with same | ⟨event, same⟩
  · rw [Paired, callsByPush, timesPushed, timesCalled, same]
    exact paired
  · have pushed : next.timesPushed t = s.timesPushed t + event.accepts t := by
      simp [timesPushed, same]
    have called : next.timesCalled t = s.timesCalled t + event.starts t := by
      simp [timesCalled, same]
    have returned : next.timesReturned t = s.timesReturned t + event.ends t := by
      simp [timesReturned, same]
    have turns : next.callsByPush t = event.turns t (s.callsByPush t) := by
      simp [callsByPush, same]
    rw [Paired, turns, pushed, called]
    rw [Paired] at paired
    rw [paired]
    cases event with
    | accepted p t' =>
        by_cases mine : t' = t
        · have even : s.timesPushed t = s.timesCalled t := by
            simp only [Event.accepts, Event.ends, mine, if_true] at pushed returned
            omega
          rcases Nat.eq_zero_or_pos (s.timesPushed t) with none | some
          · simp [Event.turns, Event.accepts, Event.starts, mine, none, ← even]
          · obtain ⟨n, count⟩ := Nat.exists_eq_succ_of_ne_zero (Nat.ne_of_gt some)
            simp [Event.turns, Event.accepts, Event.starts, mine, ← even, count,
              List.replicate_succ]
        · simp [Event.turns, Event.accepts, Event.starts, mine]
    | started t' =>
        by_cases mine : t' = t
        · have due : s.timesCalled t + 1 = s.timesPushed t := by
            simp only [Event.accepts, Event.starts, Event.ends, mine, if_true] at pushed called returned
            omega
          simp [Event.turns, Event.accepts, Event.starts, mine, ← due]
        · simp [Event.turns, Event.accepts, Event.starts, mine]
    | _ => rfl

theorem paired_init (t : TaskId) : init.Paired t := by
  simp [Paired, init, callsByPush, timesPushed]

end World

namespace Call

-- A join of the task whose last check of the state has let it return 0.
def Passed (t : TaskId) : Call → Prop
  | .joinRelease t' _ => t' = t
  | .returned (.join (some t')) (.code .ok) => t' = t
  | .returned (.timedJoin (some t')) (.code .ok) => t' = t
  | _ => False

end Call

namespace World

variable {s : World}

theorem CallStepped.passes {c c' : Call} {w : World} {t : TaskId} (stepped : s.CallStepped c w c')
    (before : ¬ c.Passed t) (after : c'.Passed t) :
    s.state t = some .finished ∨ s.state t = some .joined := by
  cases stepped with
  | joinAgain _ t' task joining there state =>
      cases after
      exact Or.inr (by rw [state_eq there, state])
  | joins _ t' task p joining there state =>
      cases after
      exact Or.inl (by rw [state_eq there, state])
  | joinsAlone _ t' task joining there state =>
      cases after
      exact Or.inl (by rw [state_eq there, state])
  | timedAgain t' task there state =>
      cases after
      exact Or.inr (by rw [state_eq there, state])
  | timedJoins _ t' task p pool joining there state =>
      cases after
      exact Or.inl (by rw [state_eq there, state])
  | timedRejoins t' task p pool there state =>
      cases after
      exact Or.inr (by rw [state_eq there, state])
  | joinReleases t' p => exact absurd after before
  | _ => cases after

theorem step_passes {action : Action} {next : World} {i : Nat} {c c' : Call} {t : TaskId}
    (taken : s.step action = some next) (at_i : s.calls[i]? = some c)
    (at_i' : next.calls[i]? = some c') (before : ¬ c.Passed t) (after : c'.Passed t) :
    s.state t = some .finished ∨ s.state t = some .joined := by
  cases action with
  | begin op =>
      cases taken
      have same : (s.calls ++ [(s.begin op).2])[i]? = s.calls[i]? :=
        List.getElem?_append_left (List.getElem?_eq_some_iff.mp at_i).1
      rw [← same] at at_i
      rw [Option.some_inj.mp (at_i.symm.trans at_i')] at before
      exact absurd after before
  | call j choice =>
      obtain ⟨d, w, d', at_j, stepped, rfl⟩ := step_called taken
      have stepped := callStep_stepped stepped
      rw [setCall, stepped.calls] at at_i'
      by_cases same : j = i
      · subst same
        rw [at_j, Option.some_inj] at at_i
        rw [List.getElem?_set_self (List.getElem?_eq_some_iff.mp at_j).1, Option.some_inj] at at_i'
        subst at_i at_i'
        exact stepped.passes before after
      · rw [List.getElem?_set_ne same, at_i, Option.some_inj] at at_i'
        exact absurd (at_i' ▸ after) before
  | worker j =>
      obtain ⟨worker, w, pc, at_j, stepped, rfl⟩ := step_worked taken
      have same : (w.setWorker j { worker with pc := pc }).calls = s.calls := by
        cases workerStep_stepped stepped <;> rfl
      rw [same, at_i, Option.some_inj] at at_i'
      exact absurd (at_i' ▸ after) before

structure Serves (s : World) : Prop where
  queuedOnce : ∀ p t, (s.queue p).count t ≤ 1
  queuedApart : ∀ p t, t ∈ s.queue p → ∀ worker ∈ s.workers,
    worker.pc ≠ .taken t ∧ worker.pc ≠ .running t ∧ worker.pc ≠ .ran t
  calls : ∀ t, (s.callsByPush t).length = s.timesPushed t ∧ (∀ n ∈ s.callsByPush t, n ≤ 1) ∧
    ∀ n ∈ (s.callsByPush t).tail, n = 1
  joins : ∀ (action : Action) (next : World) (i : Nat) (c c' : Call) t,
    s.step action = some next → s.calls[i]? = some c →
    next.calls[i]? = some c' → ¬ c.Passed t → c'.Passed t →
      (∀ n ∈ s.callsByPush t, n = 1) ∧ s.timesReturned t = s.timesPushed t
  exits : ∀ i (next : World) (worker worker' : Worker),
    s.step (.worker i) = some next → s.workers[i]? = some worker →
    next.workers[i]? = some worker' → worker'.pc = .exited →
      ∃ pool, s.pools worker.pool = some pool ∧ pool.stopping = true ∧ pool.queue = []

theorem Orderly.apart (orderly : s.Orderly) {p : PoolId} {t : TaskId} (queued : t ∈ s.queue p)
    {worker : Worker} (mem : worker ∈ s.workers) :
    worker.pc ≠ .taken t ∧ worker.pc ≠ .running t ∧ worker.pc ≠ .ran t := by
  have waits : 0 < (s.queue p).count t := List.count_pos_iff.mpr queued
  have turn := orderly.turn p t
  have alone := turn.alone
  have held : s.waiting p t = total (Call.enqueues p t) s.calls + (s.queue p).count t +
      total (Worker.takes p t) s.workers := rfl
  refine ⟨fun taken => ?_, fun running => ?_, fun ran => ?_⟩
  · have takes := le_total (Worker.takes worker.pool t) mem
    have other := orderly.turn worker.pool t
    have held' : s.waiting worker.pool t = total (Call.enqueues worker.pool t) s.calls +
        (s.queue worker.pool).count t + total (Worker.takes worker.pool t) s.workers := rfl
    simp only [Worker.takes, taken, and_self, if_true] at takes
    have same : p = worker.pool := Option.some_inj.mp
      ((turn.at_home (by omega)).symm.trans (other.at_home (by omega)))
    subst same
    omega
  · have calls := le_total (Worker.calls t) mem
    simp only [Worker.calls, running, if_true] at calls
    omega
  · have back := le_total (Worker.comesBack t) mem
    simp only [Worker.comesBack, ran, if_true] at back
    omega

theorem Paired.counts {t : TaskId} (paired : s.Paired t)
    (numbers : s.timesCalled t ≤ s.timesPushed t) :
    (s.callsByPush t).length = s.timesPushed t ∧ (∀ n ∈ s.callsByPush t, n ≤ 1) ∧
      (∀ n ∈ (s.callsByPush t).tail, n = 1) ∧
      (s.timesCalled t = s.timesPushed t → ∀ n ∈ s.callsByPush t, n = 1) := by
  rw [paired]
  split
  · next none => simp [none]
  · next some =>
      have older : ∀ n ∈ List.replicate (s.timesPushed t - 1) 1, n = 1 :=
        fun n => List.eq_of_mem_replicate
      refine ⟨by rw [List.length_cons, List.length_replicate]; omega, ?_, older, ?_⟩
      · intro n mem
        rcases List.mem_cons.mp mem with rfl | mem
        · omega
        · exact Nat.le_of_eq (older n mem)
      · intro even n mem
        rcases List.mem_cons.mp mem with rfl | mem
        · omega
        · exact older n mem

theorem serves (orderly : s.Orderly) (paired : ∀ t, s.Paired t) : s.Serves where
  queuedOnce p t := by
    have alone := (orderly.turn p t).alone
    rw [waiting] at alone
    omega
  queuedApart p t queued worker mem := orderly.apart queued mem
  calls t := by
    obtain ⟨length, atMost, older, -⟩ := (paired t).counts (orderly.numbers t).2.1
    exact ⟨length, atMost, older⟩
  joins action next i c c' t taken at_i at_i' before after := by
    have state := step_passes taken at_i at_i' before after
    obtain ⟨even, -⟩ := (orderly.turn 0 t).idle (Or.inr state)
    obtain ⟨returned, called, -⟩ := orderly.numbers t
    obtain ⟨-, -, -, all⟩ := (paired t).counts called
    exact ⟨all (by omega), even.symm⟩
  exits i next worker worker' taken at_i at_i' exited := by
    rw [World.step, at_i, Option.bind_some, Option.map_eq_some_iff] at taken
    obtain ⟨⟨w, pc⟩, stepped, rfl⟩ := taken
    have stepped := workerStep_stepped stepped
    have workers : w.workers = s.workers := by cases stepped <;> rfl
    rw [setWorker, workers, List.getElem?_set_self (List.getElem?_eq_some_iff.mp at_i).1,
      Option.some_inj] at at_i'
    subst at_i'
    cases stepped with
    | exits pool atPc found empty stopping => exact ⟨pool, found, stopping, empty⟩
    | finishes t task => exact absurd exited (by dsimp only; split <;> simp)
    | _ => cases exited

-- Whatever the threads do, the function of a task is called once for each push, a join waits for
-- the last of these calls, and a worker exits only from an empty queue of a pool that stops.
theorem tasks_served (actions : List Action) : Run.Along step Serves init actions := by
  have kept : Run.Along step (fun s => s.Orderly ∧ ∀ t, s.Paired t) init actions := by
    refine Run.along_invariant (fun s action next holds taken => ?_)
      ⟨orderly_init, paired_init⟩ actions
    exact ⟨holds.1.step taken, fun t => holds.1.paired (holds.2 t) taken⟩
  exact kept.mono fun s holds => serves holds.1 holds.2

end World

end SystemProg.ThreadPool

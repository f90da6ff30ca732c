import SystemProg.ThreadPool.Steps

set_option autoImplicit false

namespace SystemProg.ThreadPool

def Event.aside : Event → Prop
  | .accepted _ _ | .started _ | .ended _ => False
  | _ => True

namespace World

-- The step neither accepts nor queues a task: pools keep their queues and threads or are deleted,
-- and tasks keep their states, are joined or are deleted.
structure Passive (s : World) (c : Call) (w : World) (c' : Call) : Prop where
  workers : w.workers = s.workers
  pools : ∀ p pool', w.pools p = some pool' → ∃ pool, s.pools p = some pool ∧
    pool'.threads = pool.threads ∧ pool'.queue = pool.queue ∧ pool'.maxThreads = pool.maxThreads
  tasks : ∀ t task', w.tasks t = some task' → ∃ task, s.tasks t = some task ∧
    (task'.state = task.state ∨
      (task.state = .finished ∨ task.state = .joined) ∧ task'.state = .joined)
  log : ∃ events, w.log = s.log ++ events ∧ ∀ event ∈ events, event.aside
  made : w.poolsMade = s.poolsMade ∧ w.tasksMade = s.tasksMade
  enqueues : ∀ p t, c ≠ .pushEnqueue p t ∧ c' ≠ .pushEnqueue p t

theorem passive_refl {s : World} {c c' : Call}
    (enqueues : ∀ p t, c ≠ .pushEnqueue p t ∧ c' ≠ .pushEnqueue p t) : s.Passive c s c' where
  workers := rfl
  pools := fun _ pool' there => ⟨pool', there, rfl, rfl, rfl⟩
  tasks := fun _ task' there => ⟨task', there, Or.inl rfl⟩
  log := ⟨[], by simp, by simp⟩
  made := ⟨rfl, rfl⟩
  enqueues := enqueues

theorem Passive.setPool {s w : World} {c c' : Call} (passive : s.Passive c w c') {p : PoolId}
    {pool : Pool} (there : w.pools p = some pool) {pool' : Pool}
    (threads : pool'.threads = pool.threads) (queue : pool'.queue = pool.queue)
    (maxThreads : pool'.maxThreads = pool.maxThreads) :
    s.Passive c (w.setPool p (some pool')) c' where
  workers := passive.workers
  pools := by
    intro p' pool'' there'
    rw [setPool_pools] at there'
    split at there'
    · next here =>
      cases there'
      subst here
      obtain ⟨old, before, threads', queue', maxThreads'⟩ := passive.pools p' pool there
      exact ⟨old, before, threads.trans threads', queue.trans queue', maxThreads.trans maxThreads'⟩
    · exact passive.pools p' pool'' there'
  tasks := passive.tasks
  log := passive.log
  made := passive.made
  enqueues := passive.enqueues

theorem Passive.setTask {s w : World} {c c' : Call} (passive : s.Passive c w c') {t : TaskId}
    {task : Task} (there : s.tasks t = some task) {task' : Option Task}
    (state : ∀ k ∈ task', k.state = task.state ∨
      (task.state = .finished ∨ task.state = .joined) ∧ k.state = .joined) :
    s.Passive c (w.setTask t task') c' where
  workers := passive.workers
  pools := passive.pools
  tasks := by
    intro t' k there'
    rw [setTask_tasks] at there'
    split at there'
    · next here => exact ⟨task, here ▸ there, state k there'⟩
    · exact passive.tasks t' k there'
  log := passive.log
  made := passive.made
  enqueues := passive.enqueues

theorem Passive.emit {s w : World} {c c' : Call} (passive : s.Passive c w c') {event : Event}
    (aside : event.aside) : s.Passive c (w.emit event) c' where
  workers := passive.workers
  pools := passive.pools
  tasks := passive.tasks
  log := by
    obtain ⟨events, log, asides⟩ := passive.log
    refine ⟨events ++ [event], by simp [World.emit, log], fun e mem => ?_⟩
    rcases List.mem_append.mp mem with mem | mem
    · exact asides e mem
    · rw [List.mem_singleton.mp mem]
      exact aside
  made := passive.made
  enqueues := passive.enqueues

theorem passive_ends {s : World} {c c' : Call}
    (enqueues : ∀ p t, c ≠ .pushEnqueue p t ∧ c' ≠ .pushEnqueue p t) (p : PoolId) :
    s.Passive c (s.setPool p none) c' :=
  { passive_refl enqueues with
    pools := by
      intro p' pool' there'
      rw [setPool_pools] at there'
      split at there'
      · cases there'
      · exact ⟨pool', there', rfl, rfl, rfl⟩ }

theorem CallStepped.effect {s : World} {c : Call} {w : World} {c' : Call}
    (stepped : s.CallStepped c w c') :
    (∃ p t task, c = .pushCheck p t ∧ c' = .pushEnqueue p t ∧ s.tasks t = some task ∧
      (task.state = .new ∨ task.state = .joined) ∧
      w = (s.setTask t (some { task with pool := some p, state := .queued })).emit
        (.accepted p t)) ∨
    (∃ p t creations pool pool' workers, c = .pushEnqueue p t ∧ c' = pushed p t .ok ∧
      s.pools p = some pool ∧
      startThreads p creations { pool with queue := pool.queue ++ [t] } s.workers =
        (pool', workers) ∧
      w = { s.setPool p (some pool') with workers := workers }) ∨
    s.Passive c w c' := by
  cases stepped with
  | accepts p t task there free idle => exact Or.inl ⟨p, t, task, rfl, rfl, there, idle, rfl⟩
  | enqueues p t creations pool pool' workers there started =>
      exact Or.inr (Or.inl ⟨p, t, creations, pool, pool', workers, rfl, rfl, there, started, rfl⟩)
  | loads => exact Or.inr (Or.inr (passive_refl (by simp)))
  | full => exact Or.inr (Or.inr (passive_refl (by simp [pushed])))
  | retries => exact Or.inr (Or.inr (passive_refl (by simp)))
  | rejects => exact Or.inr (Or.inr (passive_refl (by simp)))
  | joinNew => exact Or.inr (Or.inr (passive_refl (by simp [joined])))
  | joinWaits _ t task joining =>
      rcases joining with rfl | rfl <;> exact Or.inr (Or.inr (passive_refl (by simp)))
  | joinAgain _ t task joining =>
      rcases joining with rfl | rfl <;> exact Or.inr (Or.inr (passive_refl (by simp [joined])))
  | timedNew => exact Or.inr (Or.inr (passive_refl (by simp [timedJoined])))
  | timedWaits _ t task joining =>
      rcases joining with rfl | rfl <;> exact Or.inr (Or.inr (passive_refl (by simp)))
  | timesOut => exact Or.inr (Or.inr (passive_refl (by simp [timedJoined])))
  | timedAgain => exact Or.inr (Or.inr (passive_refl (by simp [timedJoined])))
  | detachAlone => exact Or.inr (Or.inr (passive_refl (by simp [detached])))
  | detachEnds => exact Or.inr (Or.inr (passive_refl (by simp)))
  | deleteRefuses => exact Or.inr (Or.inr (passive_refl (by simp [deleted])))
  | deletePasses => exact Or.inr (Or.inr (passive_refl (by simp)))
  | poolRefuses => exact Or.inr (Or.inr (passive_refl (by simp [poolDeleted])))
  | poolPasses => exact Or.inr (Or.inr (passive_refl (by simp)))
  | looksFinished => exact Or.inr (Or.inr (passive_refl (by simp)))
  | looksRunning => exact Or.inr (Or.inr (passive_refl (by simp)))
  | reserves p t pool there =>
      exact Or.inr (Or.inr ((passive_refl (by simp)).setPool there rfl rfl rfl))
  | rollsBack p t pool there =>
      exact Or.inr (Or.inr ((passive_refl (by simp [pushed])).setPool there rfl rfl rfl))
  | joinReleases t p pool there =>
      exact Or.inr (Or.inr ((passive_refl (by simp [joined])).setPool there rfl rfl rfl))
  | poolStops p pool there =>
      exact Or.inr (Or.inr ((passive_refl (by simp)).setPool there rfl rfl rfl))
  | poolEnds p => exact Or.inr (Or.inr (passive_ends (by simp [poolDeleted]) p))
  | joins _ t task p joining there state =>
      have enqueues : ∀ p' t', c ≠ .pushEnqueue p' t' ∧ Call.joinRelease t p ≠ .pushEnqueue p' t' := by
        rcases joining with rfl | rfl <;> simp
      exact Or.inr (Or.inr (((passive_refl enqueues).setTask there (by simp [state])).emit trivial))
  | joinsAlone _ t task joining there state =>
      have enqueues : ∀ p' t', c ≠ .pushEnqueue p' t' ∧ joined t .ok ≠ .pushEnqueue p' t' := by
        rcases joining with rfl | rfl <;> simp [joined]
      exact Or.inr (Or.inr (((passive_refl enqueues).setTask there (by simp [state])).emit trivial))
  | timedJoins _ t task p pool joining there state taskPool there' =>
      have enqueues : ∀ p' t', c ≠ .pushEnqueue p' t' ∧ timedJoined t .ok ≠ .pushEnqueue p' t' := by
        rcases joining with rfl | rfl <;> simp [timedJoined]
      exact Or.inr (Or.inr ((((passive_refl enqueues).setTask there (by simp [state])).emit
        (by exact trivial)).setPool there' rfl rfl rfl))
  | timedRejoins t task p pool there state taskPool there' =>
      exact Or.inr (Or.inr (((passive_refl (by simp [timedJoined])).setTask there
        (by simp [state])).setPool there' rfl rfl rfl))
  | detaches t task there =>
      exact Or.inr (Or.inr ((passive_refl (by simp [detached])).setTask there (by simp)))
  | detachReleases t task p pool there taskPool there' =>
      exact Or.inr (Or.inr ((((passive_refl (by simp [detached])).setTask there (by simp)).emit
        (by exact trivial)).setPool there' rfl rfl rfl))
  | deleteFrees t task there =>
      exact Or.inr (Or.inr (((passive_refl (by simp [deleted])).setTask there (by simp)).emit
        trivial))

theorem begin_effect (s : World) (op : Op) :
    (∀ p t, (s.begin op).2 ≠ .pushEnqueue p t) ∧
      ((s.begin op).1 = s ∨
        (∃ threadCount, 0 < threadCount ∧ threadCount ≤ maxThreads ∧
          (s.begin op).1 = s.makePool threadCount) ∨
        (s.begin op).1 = s.makeTask) := by
  cases op with
  | poolNew threadCount out =>
      unfold begin
      dsimp only
      split
      · simp
      · next fits =>
          simp only [not_or] at fits
          exact ⟨by simp, Or.inr (Or.inl ⟨threadCount, by omega, by omega, rfl⟩)⟩
  | taskNew out =>
      unfold begin
      dsimp only
      split <;> simp
  | push pool task => cases pool <;> cases task <;> simp [begin]
  | poolDelete pool => cases pool <;> simp [begin]
  | isFinished task => cases task <;> simp [begin]
  | isRunning task => cases task <;> simp [begin]
  | join task => cases task <;> simp [begin]
  | timedJoin task => cases task <;> simp [begin]
  | taskDelete task => cases task <;> simp [begin]
  | detach task => cases task <;> simp [begin]

end World

end SystemProg.ThreadPool

import SystemProg.ThreadPool.Model

set_option autoImplicit false

-- `CallStepped` and `WorkerStepped` say once what each step can do; the invariants follow by cases.

namespace SystemProg.ThreadPool

namespace World

theorem setPool_pools (s : World) (p : PoolId) (pool : Option Pool) (p' : PoolId) :
    (s.setPool p pool).pools p' = if p' = p then pool else s.pools p' := by
  exact Function.update_apply _ _ _ _

theorem setTask_tasks (s : World) (t : TaskId) (task : Option Task) (t' : TaskId) :
    (s.setTask t task).tasks t' = if t' = t then task else s.tasks t' := by
  exact Function.update_apply _ _ _ _

theorem made_of_fresh {X : Type} {table : Nat → Option X} {made k : Nat} {x : X}
    (fresh : ∀ k, made ≤ k → table k = none) (there : table k = some x) : k < made := by
  by_contra beyond
  rw [fresh k (Nat.le_of_not_lt beyond)] at there
  cases there

theorem fresh_setPool {s : World} (fresh : ∀ p, s.poolsMade ≤ p → s.pools p = none) {p : PoolId}
    {pool : Pool} (there : s.pools p = some pool) (pool' : Option Pool) :
    ∀ p', s.poolsMade ≤ p' → (s.setPool p pool').pools p' = none := by
  intro p' beyond
  have other : p' ≠ p := Nat.ne_of_gt (Nat.lt_of_lt_of_le (made_of_fresh fresh there) beyond)
  rw [setPool_pools, if_neg other, fresh p' beyond]

theorem fresh_setTask {s : World} (fresh : ∀ t, s.tasksMade ≤ t → s.tasks t = none) {t : TaskId}
    {task : Task} (there : s.tasks t = some task) (task' : Option Task) :
    ∀ t', s.tasksMade ≤ t' → (s.setTask t task').tasks t' = none := by
  intro t' beyond
  have other : t' ≠ t := Nat.ne_of_gt (Nat.lt_of_lt_of_le (made_of_fresh fresh there) beyond)
  rw [setTask_tasks, if_neg other, fresh t' beyond]

-- The threads that a push starts: they wait, and the pool is otherwise as it was.
theorem startThreads_eq (p : PoolId) (creations : Nat) (pool : Pool) (workers : List Worker) :
    ∃ started, startThreads p creations pool workers =
      ({ pool with threads := pool.threads ++ List.range' workers.length started },
        workers ++ List.replicate started { pool := p, pc := .waiting }) := by
  induction creations generalizing pool workers with
  | zero => exact ⟨0, by simp [startThreads]⟩
  | succ creations ih =>
      unfold startThreads
      split
      · obtain ⟨started, same⟩ := ih { pool with threads := pool.threads ++ [workers.length] }
          (workers ++ [{ pool := p, pc := .waiting }])
        refine ⟨started + 1, ?_⟩
        rw [same]
        simp [List.range'_succ, List.replicate_succ]
      · exact ⟨0, by simp⟩

inductive CallStepped (s : World) : Call → World → Call → Prop where
  | loads (p : PoolId) (t : TaskId) (pool : Pool) (there : s.pools p = some pool) :
      CallStepped s (.pushLoad p t) s (.pushTry p t pool.taskCount)
  | full (p : PoolId) (t : TaskId) (expected : Int) (many : maxTasks ≤ expected) :
      CallStepped s (.pushTry p t expected) s (pushed p t .tooManyTasks)
  | retries (p : PoolId) (t : TaskId) (expected : Int) (pool : Pool)
      (there : s.pools p = some pool) :
      CallStepped s (.pushTry p t expected) s (.pushTry p t pool.taskCount)
  | reserves (p : PoolId) (t : TaskId) (pool : Pool) (there : s.pools p = some pool)
      (room : pool.taskCount < maxTasks) :
      CallStepped s (.pushTry p t pool.taskCount)
        (s.setPool p (some { pool with taskCount := pool.taskCount + 1 })) (.pushCheck p t)
  | rejects (p : PoolId) (t : TaskId) (task : Task) (there : s.tasks t = some task)
      (busy : task.pool ≠ none ∨ (task.state ≠ .new ∧ task.state ≠ .joined)) :
      CallStepped s (.pushCheck p t) s (.pushRollback p t)
  | accepts (p : PoolId) (t : TaskId) (task : Task) (there : s.tasks t = some task)
      (free : task.pool = none) (idle : task.state = .new ∨ task.state = .joined) :
      CallStepped s (.pushCheck p t)
        ((s.setTask t (some { task with pool := some p, state := .queued })).emit (.accepted p t))
        (.pushEnqueue p t)
  | rollsBack (p : PoolId) (t : TaskId) (pool : Pool) (there : s.pools p = some pool) :
      CallStepped s (.pushRollback p t)
        (s.setPool p (some { pool with taskCount := pool.taskCount - 1 }))
        (pushed p t .taskInPool)
  | enqueues (p : PoolId) (t : TaskId) (creations : Nat) (pool pool' : Pool)
      (workers : List Worker) (there : s.pools p = some pool)
      (started : startThreads p creations { pool with queue := pool.queue ++ [t] } s.workers =
        (pool', workers)) :
      CallStepped s (.pushEnqueue p t) { s.setPool p (some pool') with workers := workers }
        (pushed p t .ok)
  | joinNew (t : TaskId) (task : Task) (there : s.tasks t = some task) (state : task.state = .new) :
      CallStepped s (.join t) s (joined t .taskNotPushed)
  | joinWaits (c : Call) (t : TaskId) (task : Task) (joining : c = .join t ∨ c = .joinWait t)
      (there : s.tasks t = some task) (busy : task.state ≠ .finished ∧ task.state ≠ .joined) :
      CallStepped s c s (.joinWait t)
  | joinAgain (c : Call) (t : TaskId) (task : Task) (joining : c = .join t ∨ c = .joinWait t)
      (there : s.tasks t = some task) (state : task.state = .joined) :
      CallStepped s c s (joined t .ok)
  | joins (c : Call) (t : TaskId) (task : Task) (p : PoolId)
      (joining : c = .join t ∨ c = .joinWait t) (there : s.tasks t = some task)
      (state : task.state = .finished) (pool : task.pool = some p) :
      CallStepped s c
        ((s.setTask t (some { task with state := .joined, pool := none })).emit
          (.joined (some p) t))
        (.joinRelease t p)
  | joinsAlone (c : Call) (t : TaskId) (task : Task) (joining : c = .join t ∨ c = .joinWait t)
      (there : s.tasks t = some task) (state : task.state = .finished) (pool : task.pool = none) :
      CallStepped s c
        ((s.setTask t (some { task with state := .joined, pool := none })).emit (.joined none t))
        (joined t .ok)
  | joinReleases (t : TaskId) (p : PoolId) (pool : Pool) (there : s.pools p = some pool) :
      CallStepped s (.joinRelease t p)
        (s.setPool p (some { pool with taskCount := pool.taskCount - 1 })) (joined t .ok)
  | timedNew (t : TaskId) (task : Task) (there : s.tasks t = some task) (state : task.state = .new) :
      CallStepped s (.timedJoin t) s (timedJoined t .taskNotPushed)
  | timedWaits (c : Call) (t : TaskId) (task : Task) (joining : c = .timedJoin t ∨ c = .timedWait t)
      (there : s.tasks t = some task) (busy : task.state ≠ .finished ∧ task.state ≠ .joined) :
      CallStepped s c s (.timedWait t)
  | timesOut (t : TaskId) (task : Task) (there : s.tasks t = some task) :
      CallStepped s (.timedWait t) s (timedJoined t .timeout)
  | timedAgain (t : TaskId) (task : Task) (there : s.tasks t = some task)
      (state : task.state = .joined) :
      CallStepped s (.timedWait t) s (timedJoined t .ok)
  | timedJoins (c : Call) (t : TaskId) (task : Task) (p : PoolId) (pool : Pool)
      (joining : c = .timedJoin t ∨ c = .timedWait t) (there : s.tasks t = some task)
      (state : task.state = .finished) (taskPool : task.pool = some p)
      (there' : s.pools p = some pool) :
      CallStepped s c
        (((s.setTask t (some { task with state := .joined })).emit (.joined (some p) t)).setPool p
          (some { pool with taskCount := pool.taskCount - 1 }))
        (timedJoined t .ok)
  -- The immediate branch also takes a task that is JOINED already.
  | timedRejoins (t : TaskId) (task : Task) (p : PoolId) (pool : Pool)
      (there : s.tasks t = some task) (state : task.state = .joined) (taskPool : task.pool = some p)
      (there' : s.pools p = some pool) :
      CallStepped s (.timedJoin t)
        ((s.setTask t (some { task with state := .joined })).setPool p
          (some { pool with taskCount := pool.taskCount - 1 }))
        (timedJoined t .ok)
  | detachAlone (t : TaskId) (task : Task) (there : s.tasks t = some task)
      (pool : task.pool = none) :
      CallStepped s (.detach t) s (detached t .taskNotPushed)
  | detaches (t : TaskId) (task : Task) (there : s.tasks t = some task) (pool : task.pool ≠ none)
      (busy : task.state ≠ .finished) :
      CallStepped s (.detach t) (s.setTask t (some { task with detached := true }))
        (detached t .ok)
  | detachEnds (t : TaskId) (task : Task) (there : s.tasks t = some task) (pool : task.pool ≠ none)
      (state : task.state = .finished) :
      CallStepped s (.detach t) s (.detachRelease t)
  | detachReleases (t : TaskId) (task : Task) (p : PoolId) (pool : Pool)
      (there : s.tasks t = some task) (taskPool : task.pool = some p)
      (there' : s.pools p = some pool) :
      CallStepped s (.detachRelease t)
        (((s.setTask t none).emit (.autoDeleted p t)).setPool p
          (some { pool with taskCount := pool.taskCount - 1 }))
        (detached t .ok)
  | deleteRefuses (t : TaskId) (task : Task) (there : s.tasks t = some task)
      (busy : task.state ≠ .new ∧ task.state ≠ .joined) :
      CallStepped s (.delete t) s (deleted t .taskInPool)
  | deletePasses (t : TaskId) (task : Task) (there : s.tasks t = some task)
      (idle : task.state = .new ∨ task.state = .joined) :
      CallStepped s (.delete t) s (.deleteFree t)
  | deleteFrees (t : TaskId) (task : Task) (there : s.tasks t = some task) :
      CallStepped s (.deleteFree t) ((s.setTask t none).emit (.deleted t)) (deleted t .ok)
  | poolRefuses (p : PoolId) (pool : Pool) (there : s.pools p = some pool)
      (busy : pool.taskCount ≠ 0) :
      CallStepped s (.poolDelete p) s (poolDeleted p .hasTasks)
  | poolPasses (p : PoolId) (pool : Pool) (there : s.pools p = some pool)
      (empty : pool.taskCount = 0) :
      CallStepped s (.poolDelete p) s (.poolStop p)
  | poolStops (p : PoolId) (pool : Pool) (there : s.pools p = some pool) :
      CallStepped s (.poolStop p) (s.setPool p (some { pool with stopping := true })) (.poolJoin p)
  | poolEnds (p : PoolId) (pool : Pool) (there : s.pools p = some pool)
      (exited : ∀ w ∈ pool.threads, s.workers[w]?.map Worker.pc = some .exited) :
      CallStepped s (.poolJoin p) (s.setPool p none) (poolDeleted p .ok)
  | looksFinished (t : TaskId) (task : Task) (there : s.tasks t = some task) :
      CallStepped s (.isFinished t) s
        (.returned (.isFinished (some t)) (.flag (task.state = .joined)))
  | looksRunning (t : TaskId) (task : Task) (there : s.tasks t = some task) :
      CallStepped s (.isRunning t) s
        (.returned (.isRunning (some t)) (.flag (task.state = .running)))

inductive WorkerStepped (s : World) (worker : Worker) : World → WorkerPc → Prop where
  | waits (pool : Pool) (pc : worker.pc = .waiting) (there : s.pools worker.pool = some pool)
      (empty : pool.queue = []) (goesOn : pool.stopping = false) : WorkerStepped s worker s .waiting
  | exits (pool : Pool) (pc : worker.pc = .waiting) (there : s.pools worker.pool = some pool)
      (empty : pool.queue = []) (stopping : pool.stopping = true) : WorkerStepped s worker s .exited
  | takes (pool : Pool) (t : TaskId) (rest : List TaskId) (pc : worker.pc = .waiting)
      (there : s.pools worker.pool = some pool) (queue : pool.queue = t :: rest) :
      WorkerStepped s worker (s.setPool worker.pool (some { pool with queue := rest })) (.taken t)
  | starts (t : TaskId) (task : Task) (pc : worker.pc = .taken t) (there : s.tasks t = some task) :
      WorkerStepped s worker
        ((s.setTask t (some { task with state := .running })).emit (.started t)) (.running t)
  | ends (t : TaskId) (pc : worker.pc = .running t) :
      WorkerStepped s worker (s.emit (.ended t)) (.ran t)
  | finishes (t : TaskId) (task : Task) (pc : worker.pc = .ran t) (there : s.tasks t = some task) :
      WorkerStepped s worker (s.setTask t (some { task with state := .finished }))
        (if task.detached then .deleting t task.pool else .waiting)
  | deletes (t : TaskId) (task : Task) (p : PoolId) (pool : Pool)
      (pc : worker.pc = .deleting t (some p)) (there : s.tasks t = some task)
      (there' : s.pools p = some pool) :
      WorkerStepped s worker
        (((s.setTask t none).emit (.autoDeleted p t)).setPool p
          (some { pool with taskCount := pool.taskCount - 1 }))
        .waiting

theorem fetchSub_eq {s next : World} {p : PoolId} (taken : s.fetchSub p = some next) :
    ∃ pool, s.pools p = some pool ∧
      next = s.setPool p (some { pool with taskCount := pool.taskCount - 1 }) := by
  rw [fetchSub, Option.map_eq_some_iff] at taken
  obtain ⟨pool, there, rfl⟩ := taken
  exact ⟨pool, there, rfl⟩

theorem workerStep_stepped {s next : World} {worker : Worker} {pc : WorkerPc}
    (stepped : s.workerStep worker = some (next, pc)) : s.WorkerStepped worker next pc := by
  unfold workerStep at stepped
  split at stepped
  · next atPc =>
      split at stepped
      · cases stepped
      · next pool there =>
          split at stepped
          · next empty =>
              split at stepped
              · next stopping =>
                  cases stepped
                  exact .exits pool atPc there empty stopping
              · next goesOn =>
                  cases stepped
                  exact .waits pool atPc there empty (by simpa using goesOn)
          · next t rest queue =>
              cases stepped
              exact .takes pool t rest atPc there queue
  · next t atPc =>
      rw [Option.map_eq_some_iff] at stepped
      obtain ⟨task, there, same⟩ := stepped
      cases same
      exact .starts t task atPc there
  · next t atPc =>
      cases stepped
      exact .ends t atPc
  · next t atPc =>
      rw [Option.map_eq_some_iff] at stepped
      obtain ⟨task, there, same⟩ := stepped
      cases same
      exact .finishes t task atPc there
  · next t taskPool atPc =>
      split at stepped
      · next task p there =>
          rw [Option.map_eq_some_iff] at stepped
          obtain ⟨w, released, same⟩ := stepped
          cases same
          obtain ⟨pool, there', rfl⟩ := fetchSub_eq released
          exact .deletes t task p pool atPc there there'
      · cases stepped
  · cases stepped

theorem pushTry_stepped {s next : World} {p : PoolId} {t : TaskId} {expected : Int}
    {spurious : Bool} {c : Call} (stepped : s.pushTry p t expected spurious = some (next, c)) :
    s.CallStepped (.pushTry p t expected) next c := by
  unfold pushTry at stepped
  split at stepped
  · next many =>
      cases stepped
      exact .full p t expected many
  · next room =>
      rw [Option.map_eq_some_iff] at stepped
      obtain ⟨pool, there, same⟩ := stepped
      split at same
      · next swapped =>
          cases same
          obtain ⟨rfl, -⟩ := swapped
          exact .reserves p t pool there (by simpa using room)
      · cases same
        exact .retries p t expected pool there

theorem pushCheck_stepped {s next : World} {p : PoolId} {t : TaskId} {c : Call}
    (stepped : s.pushCheck p t = some (next, c)) : s.CallStepped (.pushCheck p t) next c := by
  rw [pushCheck, Option.map_eq_some_iff] at stepped
  obtain ⟨task, there, same⟩ := stepped
  split at same
  · next busy =>
      cases same
      refine .rejects p t task there (busy.imp_right ?_)
      rintro (state | state | state) <;> simp [state]
  · next idle =>
      cases same
      simp only [not_or, ne_eq, not_not] at idle
      obtain ⟨free, queued, running, finished⟩ := idle
      refine .accepts p t task there free ?_
      cases state : task.state <;> simp_all

theorem joinCheck_stepped {s next : World} {c c' : Call} {t : TaskId} {task : Task}
    (joining : c = .join t ∨ c = .joinWait t) (there : s.tasks t = some task)
    (stepped : s.joinCheck t task = (next, c')) : s.CallStepped c next c' := by
  unfold joinCheck at stepped
  split at stepped
  · next state =>
      cases pool : task.pool with
      | none =>
          rw [pool] at stepped
          cases stepped
          exact .joinsAlone c t task joining there state pool
      | some p =>
          rw [pool] at stepped
          cases stepped
          exact .joins c t task p joining there state pool
  · next state =>
      cases stepped
      exact .joinAgain c t task joining there state
  · next notFinished notJoined =>
      cases stepped
      exact .joinWaits c t task joining there ⟨notFinished, notJoined⟩

theorem timedRelease_stepped {s next : World} {c c' : Call} {t : TaskId} {task : Task}
    (joining : c = .timedJoin t ∨ c = .timedWait t) (there : s.tasks t = some task)
    (state : task.state = .finished ∨ c = .timedJoin t ∧ task.state = .joined)
    (stepped : s.timedRelease t task = some (next, c')) : s.CallStepped c next c' := by
  unfold timedRelease at stepped
  split at stepped
  · cases stepped
  · next p taskPool =>
      dsimp only at stepped
      rw [Option.map_eq_some_iff] at stepped
      obtain ⟨w, released, same⟩ := stepped
      cases same
      obtain ⟨pool, there', rfl⟩ := fetchSub_eq released
      rcases state with finished | ⟨rfl, already⟩
      · rw [if_pos finished] at there' ⊢
        exact .timedJoins c t task p pool joining there finished taskPool there'
      · rw [if_neg (by simp [already])] at there' ⊢
        exact .timedRejoins t task p pool there already taskPool there'

theorem timedJoin_stepped {s next : World} {t : TaskId} {c : Call}
    (stepped : s.timedJoin t = some (next, c)) : s.CallStepped (.timedJoin t) next c := by
  unfold timedJoin at stepped
  split at stepped
  · cases stepped
  · next task there =>
      split at stepped
      · next state =>
          cases stepped
          exact .timedNew t task there state
      · next state => exact timedRelease_stepped (Or.inl rfl) there (Or.inl state) stepped
      · next state => exact timedRelease_stepped (Or.inl rfl) there (Or.inr ⟨rfl, state⟩) stepped
      · next notFinished notJoined =>
          cases stepped
          exact .timedWaits _ t task (Or.inl rfl) there ⟨notFinished, notJoined⟩

theorem timedWait_stepped {s next : World} {t : TaskId} {timedOut : Bool} {c : Call}
    (stepped : s.timedWait t timedOut = some (next, c)) :
    s.CallStepped (.timedWait t) next c := by
  unfold timedWait at stepped
  split at stepped
  · cases stepped
  · next task there =>
      split at stepped
      · cases stepped
        exact .timesOut t task there
      · split at stepped
        · next state => exact timedRelease_stepped (Or.inr rfl) there (Or.inl state) stepped
        · next state =>
            cases stepped
            exact .timedAgain t task there state
        · next notFinished notJoined =>
            cases stepped
            exact .timedWaits _ t task (Or.inr rfl) there ⟨notFinished, notJoined⟩

theorem detach_stepped {s next : World} {t : TaskId} {c : Call}
    (stepped : s.detach t = some (next, c)) : s.CallStepped (.detach t) next c := by
  rw [detach, Option.map_eq_some_iff] at stepped
  obtain ⟨task, there, same⟩ := stepped
  split at same
  · next alone =>
      cases same
      exact .detachAlone t task there alone
  · next pool =>
      split at same
      · next state =>
          cases same
          exact .detachEnds t task there pool state
      · next busy =>
          cases same
          exact .detaches t task there pool busy

theorem detachRelease_stepped {s next : World} {t : TaskId} {c : Call}
    (stepped : s.detachRelease t = some (next, c)) : s.CallStepped (.detachRelease t) next c := by
  unfold detachRelease at stepped
  split at stepped
  · cases stepped
  · next task there =>
      split at stepped
      · cases stepped
      · next p taskPool =>
          rw [Option.map_eq_some_iff] at stepped
          obtain ⟨w, released, same⟩ := stepped
          cases same
          obtain ⟨pool, there', rfl⟩ := fetchSub_eq released
          exact .detachReleases t task p pool there taskPool there'

theorem delete_stepped {s next : World} {t : TaskId} {c : Call}
    (stepped : s.delete t = some (next, c)) : s.CallStepped (.delete t) next c := by
  rw [delete, Option.map_eq_some_iff] at stepped
  obtain ⟨task, there, same⟩ := stepped
  split at same
  · next busy =>
      cases same
      refine .deleteRefuses t task there ?_
      rcases busy with state | state | state <;> simp [state]
  · next idle =>
      cases same
      refine .deletePasses t task there ?_
      cases state : task.state <;> simp_all

theorem poolJoin_stepped {s next : World} {p : PoolId} {c : Call}
    (stepped : s.poolJoin p = some (next, c)) : s.CallStepped (.poolJoin p) next c := by
  unfold poolJoin at stepped
  split at stepped
  · cases stepped
  · next pool there =>
      split at stepped
      · next exited =>
          cases stepped
          exact .poolEnds p pool there exited
      · cases stepped

theorem CallStepped.of_detach {s w : World} {t : TaskId} {c' : Call}
    (stepped : s.CallStepped (.detach t) w c') : ∃ task, s.tasks t = some task ∧
      (task.pool = none ∧ w = s ∧ c' = detached t .taskNotPushed ∨
        task.state ≠ .finished ∧ w = s.setTask t (some { task with detached := true }) ∧
          c' = detached t .ok ∨
        task.state = .finished ∧ w = s ∧ c' = .detachRelease t) := by
  cases stepped with
  | detachAlone _ task there alone => exact ⟨task, there, Or.inl ⟨alone, rfl, rfl⟩⟩
  | detaches _ task there _ busy => exact ⟨task, there, Or.inr (Or.inl ⟨busy, rfl, rfl⟩)⟩
  | detachEnds _ task there _ state => exact ⟨task, there, Or.inr (Or.inr ⟨state, rfl, rfl⟩)⟩
  | joinWaits _ _ _ joining | joinAgain _ _ _ joining | joins _ _ _ _ joining
  | joinsAlone _ _ _ joining | timedWaits _ _ _ joining | timedJoins _ _ _ _ _ joining =>
      rcases joining with h | h <;> cases h

theorem CallStepped.of_detachRelease {s w : World} {t : TaskId} {c' : Call}
    (stepped : s.CallStepped (.detachRelease t) w c') : ∃ task p pool,
      s.tasks t = some task ∧ task.pool = some p ∧ s.pools p = some pool ∧
        w = ((s.setTask t none).emit (.autoDeleted p t)).setPool p
          (some { pool with taskCount := pool.taskCount - 1 }) ∧
        c' = detached t .ok := by
  cases stepped with
  | detachReleases _ task p pool there taskPool there' =>
      exact ⟨task, p, pool, there, taskPool, there', rfl, rfl⟩
  | joinWaits _ _ _ joining | joinAgain _ _ _ joining | joins _ _ _ _ joining
  | joinsAlone _ _ _ joining | timedWaits _ _ _ joining | timedJoins _ _ _ _ _ joining =>
      rcases joining with h | h <;> cases h

theorem callStep_stepped {s next : World} {choice : Choice} {c c' : Call}
    (stepped : s.callStep choice c = some (next, c')) : s.CallStepped c next c' := by
  cases c with
  | pushTry p t expected => exact pushTry_stepped stepped
  | pushCheck p t => exact pushCheck_stepped stepped
  | timedJoin t => exact timedJoin_stepped stepped
  | timedWait t => exact timedWait_stepped stepped
  | detach t => exact detach_stepped stepped
  | detachRelease t => exact detachRelease_stepped stepped
  | delete t => exact delete_stepped stepped
  | poolJoin p => exact poolJoin_stepped stepped
  | returned op result => cases stepped
  | pushEnqueue p t =>
      rw [callStep, pushEnqueue, Option.map_eq_some_iff] at stepped
      obtain ⟨pool, there, same⟩ := stepped
      cases same
      exact .enqueues p t choice.creations pool _ _ there rfl
  | pushRollback p t =>
      rw [callStep, Option.map_eq_some_iff] at stepped
      obtain ⟨w, released, same⟩ := stepped
      cases same
      obtain ⟨pool, there, rfl⟩ := fetchSub_eq released
      exact .rollsBack p t pool there
  | joinRelease t p =>
      rw [callStep, Option.map_eq_some_iff] at stepped
      obtain ⟨w, released, same⟩ := stepped
      cases same
      obtain ⟨pool, there, rfl⟩ := fetchSub_eq released
      exact .joinReleases t p pool there
  | pushLoad p t =>
      rw [callStep, Option.map_eq_some_iff] at stepped
      obtain ⟨pool, there, same⟩ := stepped
      cases same
      exact .loads p t pool there
  | join t =>
      rw [callStep, Option.map_eq_some_iff] at stepped
      obtain ⟨task, there, same⟩ := stepped
      split at same
      · next state =>
          cases same
          exact .joinNew t task there state
      · exact joinCheck_stepped (Or.inl rfl) there same
  | joinWait t =>
      rw [callStep, Option.map_eq_some_iff] at stepped
      obtain ⟨task, there, same⟩ := stepped
      exact joinCheck_stepped (Or.inr rfl) there same
  | deleteFree t =>
      rw [callStep, deleteFree, Option.map_eq_some_iff] at stepped
      obtain ⟨task, there, same⟩ := stepped
      cases same
      exact .deleteFrees t task there
  | poolDelete p =>
      rw [callStep, Option.map_eq_some_iff] at stepped
      obtain ⟨pool, there, same⟩ := stepped
      cases same
      split
      · next busy => exact .poolRefuses p pool there busy
      · next empty => exact .poolPasses p pool there (by simpa using empty)
  | poolStop p =>
      rw [callStep, Option.map_eq_some_iff] at stepped
      obtain ⟨pool, there, same⟩ := stepped
      cases same
      exact .poolStops p pool there
  | isFinished t =>
      rw [callStep, Option.map_eq_some_iff] at stepped
      obtain ⟨task, there, same⟩ := stepped
      cases same
      exact .looksFinished t task there
  | isRunning t =>
      rw [callStep, Option.map_eq_some_iff] at stepped
      obtain ⟨task, there, same⟩ := stepped
      cases same
      exact .looksRunning t task there

theorem CallStepped.calls {s w : World} {c c' : Call} (stepped : s.CallStepped c w c') :
    w.calls = s.calls := by
  cases stepped <;> rfl

theorem step_called {s next : World} {i : Nat} {choice : Choice}
    (taken : s.step (.call i choice) = some next) : ∃ c w c', s.calls[i]? = some c ∧
      s.callStep choice c = some (w, c') ∧ next = w.setCall i c' := by
  rw [World.step, Option.bind_eq_some_iff] at taken
  obtain ⟨c, at_i, rest⟩ := taken
  rw [Option.map_eq_some_iff] at rest
  obtain ⟨⟨w, c'⟩, stepped, rfl⟩ := rest
  exact ⟨c, w, c', at_i, stepped, rfl⟩

theorem step_worked {s next : World} {i : Nat} (taken : s.step (.worker i) = some next) :
    ∃ worker w pc, s.workers[i]? = some worker ∧ s.workerStep worker = some (w, pc) ∧
      next = w.setWorker i { worker with pc := pc } := by
  rw [World.step, Option.bind_eq_some_iff] at taken
  obtain ⟨worker, at_i, rest⟩ := taken
  rw [Option.map_eq_some_iff] at rest
  obtain ⟨⟨w, pc⟩, stepped, rfl⟩ := rest
  exact ⟨worker, w, pc, at_i, stepped, rfl⟩

end World

end SystemProg.ThreadPool

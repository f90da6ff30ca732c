import SystemProg.Lib.Monitor
import SystemProg.ThreadPool.Dangling

set_option autoImplicit false

-- A worker sleeps on the variable of its pool, and a join on that of its task, from the step in
-- which its check fails until a broadcast or a spurious wakeup.

namespace SystemProg.ThreadPool

inductive Thread where
  | call (i : Nat)
  | worker (i : WorkerId)
deriving DecidableEq

namespace World

def Action.thread : Action → Option Thread
  | .begin _ => none
  | .call i _ => some (.call i)
  | .worker i => some (.worker i)

-- The step ends in `pthread_cond_wait` or `pthread_cond_timedwait`.
def condWaits (s : World) (action : Action) (next : World) : Bool :=
  match action with
  | .begin _ => false
  | .call i _ =>
      match next.calls[i]? with
      | some (.joinWait _) | some (.timedWait _) => true
      | _ => false
  | .worker i =>
      s.workers[i]?.map Worker.pc = some .waiting ∧ next.workers[i]?.map Worker.pc = some .waiting

-- `pthread_cond_broadcast`, for the workers of a pool and for the joins of a task.
def condBroadcasts (s : World) (action : Action) (thread : Thread) : Bool :=
  match action, thread with
  | .call i _, .worker j =>
      match s.calls[i]? with
      | some (.pushEnqueue p _) | some (.poolStop p) => s.workers[j]?.map Worker.pool = some p
      | _ => false
  | .worker i, .call j =>
      match s.workers[i]?.map Worker.pc with
      | some (.ran t) => s.calls[j]? = some (.joinWait t) ∨ s.calls[j]? = some (.timedWait t)
      | _ => false
  | _, _ => false

def condvars : Monitor World Action Thread :=
  { step := World.step
    thread := Action.thread
    sleeps := condWaits
    wakes := condBroadcasts }

def Blocked (s : World) : Thread → Prop
  | .worker i => ∃ worker, s.workers[i]? = some worker ∧ worker.pc = .waiting ∧
      ∀ pool, s.pools worker.pool = some pool → pool.queue = [] ∧ pool.stopping = false
  | .call i => ∃ t, (s.calls[i]? = some (.joinWait t) ∨ s.calls[i]? = some (.timedWait t)) ∧
      ∀ task, s.tasks t = some task → task.state ≠ .finished ∧ task.state ≠ .joined

variable {s : World}

theorem blocked_falls {action : Action} {next : World} {thread : Thread}
    (taken : s.step action = some next) (acting : action.thread = some thread)
    (sleeps : s.condWaits action next = true) : next.Blocked thread := by
  cases action with
  | begin op => cases acting
  | call i choice =>
      cases acting
      obtain ⟨c, w, c', at_i, stepped, rfl⟩ := step_called taken
      have within : i < w.calls.length := by
        rw [(callStep_stepped stepped).calls]
        exact (List.getElem?_eq_some_iff.mp at_i).1
      have here : (w.setCall i c').calls[i]? = some c' := by simp [setCall, within]
      simp only [condWaits, here] at sleeps
      cases callStep_stepped stepped with
      | joinWaits c t task joining there busy =>
          refine ⟨t, Or.inl here, fun task' there' => ?_⟩
          obtain rfl : task' = task := Option.some.inj (there'.symm.trans there)
          exact busy
      | timedWaits c t task joining there busy =>
          refine ⟨t, Or.inr here, fun task' there' => ?_⟩
          obtain rfl : task' = task := Option.some.inj (there'.symm.trans there)
          exact busy
      | _ => cases sleeps
  | worker i =>
      cases acting
      obtain ⟨worker, w, pc, at_i, stepped, rfl⟩ := step_worked taken
      obtain ⟨-, workers, -⟩ := workerStep_retains (workerStep_stepped stepped)
      have here : (w.setWorker i { worker with pc := pc }).workers[i]? =
          some { worker with pc := pc } := by
        have within := (List.getElem?_eq_some_iff.mp at_i).1
        rw [← workers] at within
        simp [setWorker, within]
      simp only [condWaits, here, at_i, Option.map_some, decide_eq_true_eq, Option.some_inj]
        at sleeps
      obtain ⟨before, rfl⟩ := sleeps
      have done := workerStep_stepped stepped
      generalize after : WorkerPc.waiting = pc at done
      cases done with
      | waits pool atPc there empty goesOn =>
          refine ⟨_, here, rfl, fun pool' there' => ?_⟩
          obtain rfl : pool' = pool := Option.some.inj (there'.symm.trans there)
          exact ⟨empty, goesOn⟩
      | exits | takes => cases after
      | starts t task atPc | ends t atPc | finishes t task atPc | deletes t task p pool atPc =>
          rw [before] at atPc
          cases atPc

theorem blocked_worker {next : World} {i : WorkerId} (blocked : s.Blocked (.worker i))
    (workers : ∀ worker, s.workers[i]? = some worker → next.workers[i]? = some worker)
    (pools : ∀ worker, s.workers[i]? = some worker → ∀ pool',
      next.pools worker.pool = some pool' → pool'.queue = [] ∧ pool'.stopping = false ∨
        ∃ pool, s.pools worker.pool = some pool ∧ pool'.stopping = pool.stopping ∧
          (pool'.queue ≠ [] → pool.queue ≠ [])) : next.Blocked (.worker i) := by
  obtain ⟨worker, there, waiting, idle⟩ := blocked
  refine ⟨worker, workers worker there, waiting, fun pool' found => ?_⟩
  rcases pools worker there pool' found with done | ⟨pool, found', stopping, queue⟩
  · exact done
  · obtain ⟨empty, goesOn⟩ := idle pool found'
    refine ⟨?_, stopping.trans goesOn⟩
    by_contra more
    exact queue more empty

theorem blocked_call {next : World} {i : Nat} (blocked : s.Blocked (.call i))
    (calls : ∀ c, s.calls[i]? = some c → next.calls[i]? = some c)
    (tasks : ∀ t, s.calls[i]? = some (.joinWait t) ∨ s.calls[i]? = some (.timedWait t) →
      ∀ task', next.tasks t = some task' → task'.state ≠ .finished ∧ task'.state ≠ .joined ∨
        ∃ task, s.tasks t = some task ∧ (task'.state = task.state ∨
          task.state = .finished ∨ task.state = .joined)) : next.Blocked (.call i) := by
  obtain ⟨t, waits, busy⟩ := blocked
  refine ⟨t, waits.imp (calls _) (calls _), fun task' there' => ?_⟩
  rcases tasks t waits task' there' with done | ⟨task, there, same | finished | joined⟩
  · exact done
  · rw [same]
    exact busy task there
  · exact absurd finished (busy task there).1
  · exact absurd joined (busy task there).2

theorem getElem?_grow {A : Type} {list : List A} {i : Nat} {entry : A}
    (there : list[i]? = some entry) (more : List A) : (list ++ more)[i]? = some entry := by
  rw [List.getElem?_append, if_pos (List.getElem?_eq_some_iff.mp there).1]
  exact there

theorem blocked_begin {op : Op} {thread : Thread} (blocked : s.Blocked thread) :
    ((s.begin op).1.withCalls (s.calls ++ [(s.begin op).2])).Blocked thread := by
  obtain ⟨-, same | ⟨threadCount, -, -, same⟩ | same⟩ := begin_effect s op
  · rw [same]
    cases thread with
    | worker i =>
        exact blocked_worker blocked (fun _ there => there) fun _ _ pool' found =>
          Or.inr ⟨pool', found, rfl, id⟩
    | call i =>
        exact blocked_call blocked (fun _ there => getElem?_grow there _) fun t _ task' there =>
          Or.inr ⟨task', there, Or.inl rfl⟩
  · rw [same]
    cases thread with
    | worker i =>
        refine blocked_worker blocked (fun _ there => there) fun worker _ pool' found => ?_
        change (s.setPool s.poolsMade _).pools worker.pool = some pool' at found
        rw [setPool_pools] at found
        split at found
        · cases found
          exact Or.inl ⟨rfl, rfl⟩
        · exact Or.inr ⟨pool', found, rfl, id⟩
    | call i =>
        exact blocked_call blocked (fun _ there => getElem?_grow there _) fun t _ task' there =>
          Or.inr ⟨task', there, Or.inl rfl⟩
  · rw [same]
    cases thread with
    | worker i =>
        exact blocked_worker blocked (fun _ there => there) fun _ _ pool' found =>
          Or.inr ⟨pool', found, rfl, id⟩
    | call i =>
        refine blocked_call blocked (fun _ there => getElem?_grow there _) fun t _ task' there => ?_
        change (s.setTask s.tasksMade _).tasks t = some task' at there
        rw [setTask_tasks] at there
        split at there
        · cases there
          exact Or.inl ⟨by simp, by simp⟩
        · exact Or.inr ⟨task', there, Or.inl rfl⟩

theorem blocked_called {i : Nat} {choice : Choice} {c c' : Call} {w : World} {thread : Thread}
    (at_i : s.calls[i]? = some c) (stepped : s.callStep choice c = some (w, c'))
    (blocked : s.Blocked thread) (other : Thread.call i ≠ thread)
    (unheard : s.condBroadcasts (.call i choice) thread = false) :
    (w.setCall i c').Blocked thread := by
  cases thread with
  | call j =>
      have apart : i ≠ j := fun same => other (congrArg Thread.call same)
      have calls := (callStep_stepped stepped).calls
      refine blocked_call blocked (fun c there => ?_) fun t _ task' there' => ?_
      · change (w.calls.set i c')[j]? = some c
        rw [List.getElem?_set_ne apart, calls]
        exact there
      · rcases (callStep_stepped stepped).effect with
          ⟨p, t', task, -, -, there, -, rfl⟩ |
            ⟨p, t', creations, pool, pool', workers, -, -, -, -, rfl⟩ | passive
        · change (s.setTask t' _).tasks t = some task' at there'
          rw [setTask_tasks] at there'
          split at there'
          · cases there'
            exact Or.inl ⟨by simp, by simp⟩
          · exact Or.inr ⟨task', there', Or.inl rfl⟩
        · exact Or.inr ⟨task', there', Or.inl rfl⟩
        · obtain ⟨task, there, same | ⟨done, -⟩⟩ := passive.tasks t task' there'
          · exact Or.inr ⟨task, there, Or.inl same⟩
          · exact Or.inr ⟨task, there, Or.inr done⟩
  | worker j =>
      cases callStep_pooled stepped with
      | retains retains workers =>
          refine blocked_worker blocked (fun worker there => ?_) fun worker _ pool' found => ?_
          · change w.workers[j]? = some worker
            rw [workers]
            exact there
          · obtain ⟨pool, found', -, stopping, queue, -⟩ := retains.back _ _ found
            exact Or.inr ⟨pool, found', stopping, queue⟩
      | enqueues p t pool pool' workers enqueues there started same =>
          obtain ⟨k, eq⟩ := startThreads_eq p choice.creations
            { pool with queue := pool.queue ++ [t] } s.workers
          rw [started] at eq
          cases eq
          subst same enqueues
          refine blocked_worker blocked (fun worker there => getElem?_grow there _)
            fun worker at_j pool' found => ?_
          simp only [condBroadcasts, at_i, at_j, Option.map_some, Option.some_inj,
            decide_eq_false_iff_not] at unheard
          change (s.setPool p _).pools worker.pool = some pool' at found
          rw [setPool_pools, if_neg unheard] at found
          exact Or.inr ⟨pool', found, rfl, id⟩
      | stops p pool stops there same =>
          subst same stops
          refine blocked_worker blocked (fun worker there => there)
            fun worker at_j pool' found => ?_
          simp only [condBroadcasts, at_i, at_j, Option.map_some, Option.some_inj,
            decide_eq_false_iff_not] at unheard
          change (s.setPool p _).pools worker.pool = some pool' at found
          rw [setPool_pools, if_neg unheard] at found
          exact Or.inr ⟨pool', found, rfl, id⟩
      | ends p pool ends there exited same =>
          subst same
          refine blocked_worker blocked (fun worker there => there)
            fun worker at_j pool' found => ?_
          change (s.setPool p none).pools worker.pool = some pool' at found
          rw [setPool_pools] at found
          split at found
          · cases found
          · exact Or.inr ⟨pool', found, rfl, id⟩

theorem blocked_worked {i : WorkerId} {worker : Worker} {pc : WorkerPc} {w : World}
    {thread : Thread}
    (at_i : s.workers[i]? = some worker) (stepped : s.WorkerStepped worker w pc)
    (blocked : s.Blocked thread) (other : Thread.worker i ≠ thread)
    (unheard : s.condBroadcasts (.worker i) thread = false) :
    (w.setWorker i { worker with pc := pc }).Blocked thread := by
  obtain ⟨retains, workers, calls, -, -⟩ := workerStep_retains stepped
  cases thread with
  | worker j =>
      have apart : i ≠ j := fun same => other (congrArg Thread.worker same)
      refine blocked_worker blocked (fun worker' there => ?_) fun worker' _ pool' found => ?_
      · change (w.workers.set i { worker with pc := pc })[j]? = some worker'
        rw [List.getElem?_set_ne apart, workers]
        exact there
      · obtain ⟨pool, found', -, stopping, queue, -⟩ := retains.back _ _ found
        exact Or.inr ⟨pool, found', stopping, queue⟩
  | call j =>
      refine blocked_call blocked (fun c there => ?_) fun t waits task' there' => ?_
      · change w.calls[j]? = some c
        rw [calls]
        exact there
      · cases stepped with
        | waits | exits | takes | ends => exact Or.inr ⟨task', there', Or.inl rfl⟩
        | starts t' task atPc there =>
            change (s.setTask t' _).tasks t = some task' at there'
            rw [setTask_tasks] at there'
            split at there'
            · cases there'
              exact Or.inl ⟨by simp, by simp⟩
            · exact Or.inr ⟨task', there', Or.inl rfl⟩
        | finishes t' task atPc there =>
            -- The joins of the finished task have been woken.
            simp only [condBroadcasts, at_i, Option.map_some, atPc, decide_eq_false_iff_not,
              not_or] at unheard
            change (s.setTask t' _).tasks t = some task' at there'
            rw [setTask_tasks] at there'
            split at there'
            · next here =>
                subst here
                exact absurd waits (not_or.mpr unheard)
            · exact Or.inr ⟨task', there', Or.inl rfl⟩
        | deletes t' task p pool atPc there =>
            change (s.setTask t' none).tasks t = some task' at there'
            rw [setTask_tasks] at there'
            split at there'
            · cases there'
            · exact Or.inr ⟨task', there', Or.inl rfl⟩

theorem blocked_stays {action : Action} {next : World} {thread : Thread}
    (taken : s.step action = some next) (blocked : s.Blocked thread)
    (other : action.thread ≠ some thread) (unheard : s.condBroadcasts action thread = false) :
    next.Blocked thread := by
  cases action with
  | begin op =>
      cases taken
      exact blocked_begin blocked
  | call i choice =>
      obtain ⟨c, w, c', at_i, stepped, rfl⟩ := step_called taken
      exact blocked_called at_i stepped blocked (fun same => other (congrArg some same)) unheard
  | worker i =>
      obtain ⟨worker, w, pc, at_i, stepped, rfl⟩ := step_worked taken
      exact blocked_worked at_i (workerStep_stepped stepped) blocked
        (fun same => other (congrArg some same)) unheard

abbrev Dormitory := Sleepers World Thread

def start : Dormitory := { state := init, asleep := fun _ => false }

theorem sleepers_blocked {stirs : List (Stir Action Thread)} {last : Dormitory}
    (run : Run.exec condvars.stir start stirs = some last) (thread : Thread)
    (asleep : last.asleep thread = true) : last.state.Blocked thread :=
  Monitor.exec_blocked (fun _ _ _ _ => blocked_falls) (fun _ _ _ _ => blocked_stays)
    (fun _ => rfl) run thread asleep

-- The worlds of these runs are those of the runs in which everybody looks again and again.
theorem worlds_same (s : World) : Run.Reaches World.step init s ↔
    ∃ d, Run.Reaches condvars.stir start d ∧ d.state = s := by
  constructor
  · rintro ⟨actions, run⟩
    have run' : Run.exec condvars.step init actions = some s := run
    obtain ⟨stirs, asleep, -, run⟩ := Monitor.exec_stirs run' fun _ => false
    exact ⟨_, ⟨stirs, run⟩, rfl⟩
  · rintro ⟨d, ⟨stirs, run⟩, rfl⟩
    exact ⟨_, Monitor.exec_state run⟩

def sleepyRun : List (Stir Action Thread) := (oneTask ++ [Action.worker 0]).map .act

theorem sleepers_blocked_sleepy : ∃ d, Run.exec condvars.stir start sleepyRun = some d ∧
    d.asleep (.worker 0) = true ∧ d.state.Blocked (.worker 0) := by
  have run := (Option.some_get
    (show (Run.exec condvars.stir start sleepyRun).isSome by decide)).symm
  exact ⟨_, run, by decide, sleepers_blocked run (.worker 0) (by decide)⟩

theorem Sound.idle_of_waiting (sound : s.Sound) (housed : s.Housed) (placed : s.Placed)
    (manned : s.Manned) (pushed : ∀ p t, .pushEnqueue p t ∉ s.calls)
    (workers : ∀ (i : Nat) worker, s.workers[i]? = some worker → worker.pc = .exited ∨
      s.Blocked (.worker i)) :
    (∀ p pool, s.pools p = some pool → pool.queue = []) ∧
      ∀ t task, s.tasks t = some task → task.state ≠ .queued ∧ task.state ≠ .running := by
  have empty : ∀ p pool, s.pools p = some pool → pool.queue = [] := by
    intro p pool there
    by_contra queue
    -- A thread of the pool has not returned, as a task of the pool is outstanding.
    obtain ⟨i, mem⟩ := List.exists_mem_of_ne_nil _ (manned.threads p pool there queue)
    obtain ⟨worker, at_i, home⟩ := housed.threads p pool there i mem
    subst home
    rcases workers i worker at_i with gone | ⟨worker', at_i', -, idle⟩
    · have stopping := housed.exited worker (List.mem_of_getElem? at_i) gone pool there
      have drained := (sound.ledger worker.pool).drained
        (housed.stopped worker.pool pool there stopping)
      obtain ⟨t, rest, queued⟩ := List.exists_cons_of_ne_nil queue
      have custody := sound.custody worker.pool t
      have waits : 0 < s.waiting worker.pool t := by
        have inQueue : s.queue worker.pool = t :: rest := by simp [World.queue, there, queued]
        rw [waiting, inQueue, List.count_cons_self]
        omega
      have listed := custody.listed
      rw [custody.waiting] at waits
      rw [List.eq_nil_of_length_eq_zero drained.1] at listed
      split at waits
      · next stage => simp [stage] at listed
      · cases waits
    · rw [at_i] at at_i'
      cases at_i'
      exact queue (idle pool there).1
  refine ⟨empty, fun t task there => ?_⟩
  have resting (i : Nat) (worker : Worker) (at_i : s.workers[i]? = some worker) :
      worker.pc = .exited ∨ worker.pc = .waiting := by
    obtain gone | ⟨worker', at_i', waits, -⟩ := workers i worker at_i
    · exact Or.inl gone
    · rw [at_i] at at_i'
      cases at_i'
      exact Or.inr waits
  have idle {weight : Worker → Nat} (weightless : ∀ worker : Worker,
      worker.pc = .exited ∨ worker.pc = .waiting → weight worker = 0) :
      total weight s.workers = 0 := by
    rw [total_eq_zero]
    intro worker mem
    obtain ⟨i, at_i⟩ := List.mem_iff_getElem?.mp mem
    exact weightless worker (resting i worker at_i)
  constructor <;> intro state
  · obtain ⟨p, pool, home, there'⟩ := sound.pool_of_busy placed there (Or.inl state)
    have held := (sound.custody p t).waiting
    rw [stage_eq there, if_pos home, state, if_pos rfl, waiting, idle (fun worker rests => by
      rcases rests with pc | pc <;> simp [Worker.takes, pc])] at held
    have enqueues : total (Call.enqueues p t) s.calls = 0 := by
      rw [total_eq_zero]
      intro c mem
      cases c with
      | pushEnqueue p' t' => exact absurd mem (pushed p' t')
      | _ => rfl
    have queue : s.queue p = [] := by simp [World.queue, there', empty p pool there']
    rw [enqueues, queue] at held
    cases held
  · obtain ⟨p, pool, home, there'⟩ := sound.pool_of_busy placed there (Or.inr (Or.inl state))
    have held := (sound.custody p t).active
    rw [stage_eq there, if_pos home, state, if_pos rfl, active, idle (fun worker rests => by
      rcases rests with pc | pc <;> simp [Worker.runs, pc])] at held
    cases held

structure Rests (s : World) : Prop where
  calls : ∀ c ∈ s.calls, ∃ op result, c = .returned op result
  queues : ∀ p pool, s.pools p = some pool → pool.queue = []
  tasks : ∀ t task, s.tasks t = some task → task.state ≠ .queued ∧ task.state ≠ .running
  workers : ∀ worker ∈ s.workers, worker.pc = .waiting ∨ worker.pc = .exited

def CarefulStarts (s : World) (action : Action) : Prop := s.Careful action ∧ s.Starts action

instance (s : World) (action : Action) : Decidable (s.CarefulStarts action) :=
  inferInstanceAs (Decidable (_ ∧ _))

theorem rests_of_still {d : Dormitory} (kept : d.state.Kept) (manned : d.state.Manned)
    (blocked : ∀ thread, d.asleep thread = true → d.state.Blocked thread)
    (still : condvars.Still d) (first : ∀ action, ¬d.state.Rejoins action) : d.state.Rests := by
  obtain ⟨sound, housed, placed⟩ := kept
  have attended := Kept.attended ⟨sound, housed, placed⟩
  have workers (i : Nat) (worker : Worker) (at_i : d.state.workers[i]? = some worker) :
      worker.pc = .exited ∨ d.state.Blocked (.worker i) := by
    by_cases gone : worker.pc = .exited
    · exact Or.inl gone
    · refine Or.inr (blocked _ ?_)
      by_contra awake
      exact attended.workers i worker at_i gone
        (still (.worker i) (.worker i) rfl (by simpa using awake))
  -- A call that has not returned waits for a task, or for the threads of a pool.
  have calls (i : Nat) (c : Call) (at_i : d.state.calls[i]? = some c) :
      (∃ op result, c = .returned op result) ∨ (∃ t, (c = .joinWait t ∨ c = .timedWait t) ∧
        d.state.Blocked (.call i)) ∨ ∃ p, c = .poolJoin p := by
    by_cases asleep : d.asleep (.call i) = true
    · have waits := blocked _ asleep
      have ⟨t, at_i', _⟩ := waits
      rw [at_i, Option.some_inj, Option.some_inj] at at_i'
      exact Or.inr (Or.inl ⟨t, at_i', waits⟩)
    · by_contra going
      simp only [not_or, not_exists] at going
      refine attended.calls i c onlyChoice at_i going.1 going.2.2 (first _) ?_
      exact still (.call i onlyChoice) (.call i) rfl (by simpa using asleep)
  have pushed : ∀ p t, .pushEnqueue p t ∉ d.state.calls := by
    intro p t mem
    obtain ⟨i, at_i⟩ := List.mem_iff_getElem?.mp mem
    rcases calls i _ at_i with ⟨op, result, same⟩ | ⟨t, same | same, -⟩ | ⟨p, same⟩ <;> cases same
  obtain ⟨queues, tasks⟩ := sound.idle_of_waiting housed placed manned pushed workers
  refine ⟨fun c mem => ?_, queues, tasks, fun worker mem => ?_⟩
  · obtain ⟨i, at_i⟩ := List.mem_iff_getElem?.mp mem
    rcases calls i c at_i with returned | ⟨t, waits, t', at_i', busy⟩ | ⟨p, rfl⟩
    · exact returned
    · -- The task of the join would be queued or running.
      have visits : 0 < c.visits t := by
        rcases waits with rfl | rfl <;> simp [Call.visits]
      obtain ⟨task, there, -⟩ :=
        (sound.access t).usable (Nat.lt_of_lt_of_le visits (le_total (Call.visits t) mem))
      have listed : .joinWait t ∈ d.state.calls ∨ .timedWait t ∈ d.state.calls := by
        rcases waits with rfl | rfl
        · exact Or.inl mem
        · exact Or.inr mem
      have old := (placed.joining t listed).2 task there
      obtain rfl : t = t' := by
        rw [at_i] at at_i'
        rcases waits with rfl | rfl <;> simpa using at_i'
      have done := busy task there
      have idle := tasks t task there
      cases state : task.state <;> simp [state] at old done idle
    · -- A thread of the pool would not sleep, as the pool is stopping.
      obtain ⟨pool, there, ends⟩ := attended.joins i p onlyChoice at_i
      have awake : d.asleep (.call i) = false := by
        by_contra asleep
        obtain ⟨t, at_i', -⟩ := blocked (.call i) (by simpa using asleep)
        rw [at_i] at at_i'
        rcases at_i' with same | same <;> cases same
      have stays := mt ends.mpr (fun some_ =>
        some_ (still (.call i onlyChoice) (.call i) rfl awake))
      simp only [not_forall] at stays
      obtain ⟨w, onThread, working⟩ := stays
      obtain ⟨worker, at_w, home⟩ := housed.threads p pool there w onThread
      rw [at_w, Option.map_some, Option.some_inj] at working
      obtain ⟨worker', at_w', -, idle⟩ := (workers w worker at_w).resolve_left working
      rw [at_w] at at_w'
      cases at_w'
      have stopping := housed.stops p pool there (Nat.lt_of_lt_of_le (by simp [Call.awaits])
        (le_total (Call.awaits p) mem))
      rw [(idle pool (home ▸ there)).2] at stopping
      cases stopping
  · obtain ⟨i, at_i⟩ := List.mem_iff_getElem?.mp mem
    rcases workers i worker at_i with gone | ⟨worker', at_i', waits, -⟩
    · exact Or.inr gone
    · rw [at_i] at at_i'
      cases at_i'
      exact Or.inl waits

-- No deadlock: where the callers are careful and a thread can be created, everything comes to rest
-- only when all calls have returned and no task is left to run.
theorem rests_when_still {stirs : List (Stir Action Thread)} {last : Dormitory}
    (careful : Run.EachStep condvars.stir (Monitor.lift CarefulStarts) start stirs)
    (run : Run.exec condvars.stir start stirs = some last) (still : condvars.Still last)
    (first : ∀ action, ¬last.state.Rejoins action) : last.state.Rests := by
  have kept : ∀ s action next, Kept s ∧ Manned s → s.CarefulStarts action →
      condvars.step s action = some next → next.Kept ∧ next.Manned :=
    fun s action next ⟨kept, manned⟩ ⟨careful, starts⟩ taken =>
      ⟨kept.step careful taken, manned.step starts taken⟩
  obtain ⟨kept, manned⟩ := Run.exec_invariant_of_eachStep
    (fun s t next (before : Kept s.state ∧ Manned s.state) met taken =>
      Monitor.stir_preserves kept before met taken)
    (show Kept start.state ∧ Manned start.state from ⟨kept_init, manned_init⟩) careful run
  exact rests_of_still kept manned (sleepers_blocked run) still first

def wokenRun : List (Stir Action Thread) :=
  sleepyRun ++ [Action.begin (.timedJoin (some 0)), .call 3 onlyChoice,
    .begin (.poolDelete (some 0)), .call 4 onlyChoice, .call 4 onlyChoice, .worker 0,
    .call 4 onlyChoice].map .act

theorem rests_when_still_woken : ∃ d, Run.exec condvars.stir start wokenRun = some d ∧
    (d.state.pools 0).isNone ∧ d.state.Rests := by
  have run := (Option.some_get
    (show (Run.exec condvars.stir start wokenRun).isSome by decide)).symm
  refine ⟨_, run, by decide, rests_when_still (by decide) run ?_ ?_⟩
  · intro action thread acting awake
    cases action with
    | begin op => cases acting
    | call i choice =>
        match i with
        | 0 | 1 | 2 | 3 | 4 => rfl
        | _ + 5 => rfl
    | worker i =>
        match i with
        | 0 => rfl
        | _ + 1 => rfl
  · intro action
    cases action with
    | begin op => exact id
    | worker i => exact id
    | call i choice =>
        match i with
        | 0 | 1 | 2 | 3 | 4 => exact id
        | _ + 5 => exact id

end World

end SystemProg.ThreadPool

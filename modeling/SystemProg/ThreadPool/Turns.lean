import SystemProg.ThreadPool.Effects
import SystemProg.ThreadPool.Ledger

set_option autoImplicit false

-- The events of a task are counted: how often it has been pushed, how often its function has been
-- called, and how often it has returned. Who holds the task follows from these numbers and its
-- state.

namespace SystemProg.ThreadPool

namespace Event

def accepts (t : TaskId) : Event → Nat
  | .accepted _ t' => if t' = t then 1 else 0
  | _ => 0

def starts (t : TaskId) : Event → Nat
  | .started t' => if t' = t then 1 else 0
  | _ => 0

def ends (t : TaskId) : Event → Nat
  | .ended t' => if t' = t then 1 else 0
  | _ => 0

def home (t : TaskId) (before : Option PoolId) : Event → Option PoolId
  | .accepted p t' => if t' = t then some p else before
  | _ => before

end Event

namespace Worker

def calls (t : TaskId) (worker : Worker) : Nat := if worker.pc = .running t then 1 else 0

def comesBack (t : TaskId) (worker : Worker) : Nat := if worker.pc = .ran t then 1 else 0

end Worker

structure Turn (p : PoolId) (state : Option TaskState) (home : Option PoolId)
    (pushes calls returns waiting running ran : Nat) : Prop where
  inside : calls = returns + running
  due : calls + waiting ≤ pushes
  once : pushes ≤ returns + 1
  alone : waiting + running + ran ≤ 1
  back : ran ≤ returns
  at_home : 0 < waiting → home = some p
  idle : state = some .new ∨ state = some .finished ∨ state = some .joined →
    pushes = returns ∧ waiting = 0 ∧ ran = 0
  queued : state = some .queued → pushes = returns + 1 ∧ running = 0 ∧ ran = 0
  active : state = some .running → pushes = calls ∧ waiting = 0 ∧ running + ran = 1

namespace World

def state (s : World) (t : TaskId) : Option TaskState := (s.tasks t).map Task.state

def timesPushed (s : World) (t : TaskId) : Nat := total (Event.accepts t) s.log

def timesCalled (s : World) (t : TaskId) : Nat := total (Event.starts t) s.log

def timesReturned (s : World) (t : TaskId) : Nat := total (Event.ends t) s.log

def home (s : World) (t : TaskId) : Option PoolId := s.log.foldl (Event.home t) none

structure Orderly (s : World) : Prop where
  turn : ∀ p t, Turn p (s.state t) (s.home t) (s.timesPushed t) (s.timesCalled t)
    (s.timesReturned t) (s.waiting p t) (total (Worker.calls t) s.workers)
    (total (Worker.comesBack t) s.workers)
  freshPools : ∀ p, s.poolsMade ≤ p → s.pools p = none
  freshTasks : ∀ t, s.tasksMade ≤ t → s.tasks t = none ∧ s.timesPushed t = 0

variable {s : World}

theorem emit_timesPushed (event : Event) (t : TaskId) :
    (s.emit event).timesPushed t = s.timesPushed t + event.accepts t := by
  simp [timesPushed, emit]

theorem emit_timesCalled (event : Event) (t : TaskId) :
    (s.emit event).timesCalled t = s.timesCalled t + event.starts t := by
  simp [timesCalled, emit]

theorem emit_timesReturned (event : Event) (t : TaskId) :
    (s.emit event).timesReturned t = s.timesReturned t + event.ends t := by
  simp [timesReturned, emit]

theorem emit_home (event : Event) (t : TaskId) :
    (s.emit event).home t = event.home t (s.home t) := by
  simp [home, emit]

theorem aside_totals {events : List Event} (asides : ∀ event ∈ events, event.aside) (t : TaskId) :
    total (Event.accepts t) events = 0 ∧ total (Event.starts t) events = 0 ∧
      total (Event.ends t) events = 0 ∧ ∀ before, events.foldl (Event.home t) before = before := by
  induction events with
  | nil => simp
  | cons event rest ih =>
      obtain ⟨accepts, starts, ends, homes⟩ := ih fun e mem => asides e (List.mem_cons_of_mem _ mem)
      have aside := asides event (List.mem_cons_self ..)
      cases event <;>
        simp_all [Event.accepts, Event.starts, Event.ends, Event.home, Event.aside]

theorem Passive.counts {c c' : Call} {w : World} (passive : s.Passive c w c') (t : TaskId) :
    w.timesPushed t = s.timesPushed t ∧ w.timesCalled t = s.timesCalled t ∧
      w.timesReturned t = s.timesReturned t ∧ w.home t = s.home t := by
  obtain ⟨events, log, asides⟩ := passive.log
  obtain ⟨accepts, starts, ends, homes⟩ := aside_totals asides t
  simp [timesPushed, timesCalled, timesReturned, home, log, accepts, starts, ends, homes]

theorem Passive.state {c c' : Call} {w : World} (passive : s.Passive c w c') (t : TaskId) :
    w.state t = none ∨ w.state t = s.state t ∨
      (s.state t = some .finished ∨ s.state t = some .joined) ∧ w.state t = some .joined := by
  cases there : w.tasks t with
  | none => exact Or.inl (by simp [World.state, there])
  | some task' =>
      obtain ⟨task, before, same | ⟨idle, joined⟩⟩ := passive.tasks t task' there
      · exact Or.inr (Or.inl (by simp [World.state, there, before, same]))
      · exact Or.inr (Or.inr ⟨by simpa [World.state, before] using idle,
          by simp [World.state, there, joined]⟩)

theorem Passive.queue {c c' : Call} {w : World} (passive : s.Passive c w c') (p : PoolId) :
    w.queue p = [] ∨ w.queue p = s.queue p := by
  cases there : w.pools p with
  | none => exact Or.inl (by simp [World.queue, there])
  | some pool' =>
      obtain ⟨pool, before, -, same, -⟩ := passive.pools p pool' there
      exact Or.inr (by simp [World.queue, there, before, same])

theorem Orderly.moves {c c' : Call} {calls' : List Call} (moves : Moves c c' s.calls calls')
    (w : World) (workers : w.workers = s.workers)
    (turn : ∀ p t waiting,
      Shifts (c.enqueues p t + (s.queue p).count t) (c'.enqueues p t + (w.queue p).count t)
        (s.waiting p t) waiting →
      Turn p (w.state t) (w.home t) (w.timesPushed t) (w.timesCalled t) (w.timesReturned t) waiting
        (total (Worker.calls t) s.workers) (total (Worker.comesBack t) s.workers))
    (freshPools : ∀ p, w.poolsMade ≤ p → w.pools p = none)
    (freshTasks : ∀ t, w.tasksMade ≤ t → w.tasks t = none ∧ w.timesPushed t = 0) :
    (w.withCalls calls').Orderly := by
  refine ⟨fun p t => ?_, freshPools, freshTasks⟩
  have enqueues := moves (Call.enqueues p t) fun _ _ => rfl
  have held : (w.withCalls calls').waiting p t = total (Call.enqueues p t) calls' +
      (w.queue p).count t + total (Worker.takes p t) s.workers := by
    rw [← workers]
    rfl
  have moved := turn p t ((w.withCalls calls').waiting p t) ?_
  · rw [← workers] at moved
    exact moved
  · rw [held, waiting]
    constructor
    · have := enqueues.moved
      omega
    · have := enqueues.part
      omega

theorem enqueues_eq_zero {c : Call} (other : ∀ p t, c ≠ .pushEnqueue p t) (p : PoolId)
    (t : TaskId) : c.enqueues p t = 0 := by
  cases c with
  | pushEnqueue p' t' => exact absurd rfl (other p' t')
  | _ => rfl

theorem Orderly.passive {c c' : Call} {calls' : List Call} (moves : Moves c c' s.calls calls')
    {w : World} (orderly : s.Orderly) (passive : s.Passive c w c') :
    (w.withCalls calls').Orderly := by
  obtain ⟨samePools, sameTasks⟩ := passive.made
  apply Orderly.moves moves w passive.workers
  · intro p t waiting shift
    have old := orderly.turn p t
    have state := passive.state t
    have queue := passive.queue p
    obtain ⟨pushed, called, returned, home⟩ := passive.counts t
    have before := enqueues_eq_zero (fun p t => (passive.enqueues p t).1) p t
    have after := enqueues_eq_zero (fun p t => (passive.enqueues p t).2) p t
    rw [pushed, called, returned, home]
    have less : waiting ≤ s.waiting p t := by
      have nothing : ([] : List TaskId).count t = 0 := rfl
      grind [Shifts]
    constructor <;> grind [Turn]
  · intro p made
    cases there : w.pools p with
    | none => rfl
    | some pool' =>
        obtain ⟨pool, before, -⟩ := passive.pools p pool' there
        rw [orderly.freshPools p (samePools ▸ made)] at before
        cases before
  · intro t made
    obtain ⟨fresh, pushed⟩ := orderly.freshTasks t (sameTasks ▸ made)
    refine ⟨?_, (passive.counts t).1.trans pushed⟩
    cases there : w.tasks t with
    | none => rfl
    | some task' =>
        obtain ⟨task, before, -⟩ := passive.tasks t task' there
        rw [fresh] at before
        cases before

theorem setTask_state (t : TaskId) (task : Option Task) (t' : TaskId) :
    (s.setTask t task).state t' = if t' = t then task.map Task.state else s.state t' := by
  simp only [state, setTask_tasks]
  split <;> rfl

theorem state_eq {t : TaskId} {task : Task} (there : s.tasks t = some task) :
    s.state t = some task.state := by
  rw [state, there]
  rfl

theorem Orderly.unmade (orderly : s.Orderly) : ∀ t, s.tasksMade ≤ t → s.tasks t = none :=
  fun t fresh => (orderly.freshTasks t fresh).1

theorem Orderly.accepts {p : PoolId} {t : TaskId} {task : Task} {calls' : List Call}
    (moves : Moves (.pushCheck p t) (.pushEnqueue p t) s.calls calls') (orderly : s.Orderly)
    (there : s.tasks t = some task) (idle : task.state = .new ∨ task.state = .joined) :
    (((s.setTask t (some { task with pool := some p, state := .queued })).emit
      (.accepted p t)).withCalls calls').Orderly := by
  apply Orderly.moves moves
    ((s.setTask t (some { task with pool := some p, state := .queued })).emit (.accepted p t)) rfl
  · intro p' t' waiting shift
    have old := orderly.turn p' t'
    have was := state_eq there
    rw [emit_timesPushed, emit_timesCalled, emit_timesReturned, emit_home]
    change Turn p' (World.state (s.setTask t _) t') (Event.home t' (s.home t') _)
      (s.timesPushed t' + _) (s.timesCalled t' + _) (s.timesReturned t' + _) _ _ _
    rw [setTask_state]
    change Shifts _ (_ + (s.queue p').count t') _ _ at shift
    simp only [Call.enqueues, Event.accepts, Event.starts, Event.ends, Event.home,
      Option.map_some] at *
    constructor <;> grind [Turn, Shifts]
  · exact orderly.freshPools
  · intro t' made
    have pushed := (orderly.freshTasks t' made).2
    have other : t' ≠ t :=
      Nat.ne_of_gt (Nat.lt_of_lt_of_le (made_of_fresh orderly.unmade there) made)
    refine ⟨fresh_setTask orderly.unmade there _ t' made, ?_⟩
    rw [emit_timesPushed]
    simp [Event.accepts, Ne.symm other]
    exact pushed

theorem Orderly.enqueues {p : PoolId} {t : TaskId} {op : Op} {result : Result}
    {calls' : List Call} (moves : Moves (.pushEnqueue p t) (.returned op result) s.calls calls')
    (orderly : s.Orderly) {pool : Pool} (there : s.pools p = some pool) {pool' : Pool}
    (queue : pool'.queue = pool.queue ++ [t]) :
    ((s.setPool p (some pool')).withCalls calls').Orderly := by
  apply Orderly.moves moves (s.setPool p (some pool')) rfl
  · intro p' t' waiting shift
    have held : (s.setPool p (some pool')).queue p' =
        if p' = p then s.queue p ++ [t] else s.queue p' := by
      have was : s.queue p = pool.queue := by simp [World.queue, there]
      rw [setPool_queue, was, ← queue]
      rfl
    have same : waiting = s.waiting p' t' := by
      rw [held, apply_ite (List.count t'), List.count_append, List.count_singleton] at shift
      simp only [Call.enqueues] at shift
      grind [Shifts]
    rw [same]
    exact orderly.turn p' t'
  · exact fresh_setPool orderly.freshPools there _
  · exact orderly.freshTasks

theorem Orderly.hires (orderly : s.Orderly) (p : PoolId) (started : Nat) :
    ({ s with workers := s.workers ++ List.replicate started { pool := p, pc := .waiting } } :
      World).Orderly := by
  refine ⟨fun p' t => ?_, orderly.freshPools, orderly.freshTasks⟩
  have old := orderly.turn p' t
  rw [waiting] at old ⊢
  rw [total_hired _ (by simp [Worker.takes]), total_hired _ (by simp [Worker.calls]),
    total_hired _ (by simp [Worker.comesBack])]
  exact old

theorem Orderly.works {i : WorkerId} {worker : Worker} (there : s.workers[i]? = some worker)
    (worker' : Worker) (w : World) (calls : w.calls = s.calls) (workers : w.workers = s.workers)
    (turn : ∀ p t waiting running ran,
      Shifts (worker.takes p t + (s.queue p).count t) (worker'.takes p t + (w.queue p).count t)
        (s.waiting p t) waiting →
      Shifts (worker.calls t) (worker'.calls t) (total (Worker.calls t) s.workers) running →
      Shifts (worker.comesBack t) (worker'.comesBack t) (total (Worker.comesBack t) s.workers)
        ran →
      Turn p (w.state t) (w.home t) (w.timesPushed t) (w.timesCalled t) (w.timesReturned t) waiting
        running ran)
    (freshPools : ∀ p, w.poolsMade ≤ p → w.pools p = none)
    (freshTasks : ∀ t, w.tasksMade ≤ t → w.tasks t = none ∧ w.timesPushed t = 0) :
    (w.setWorker i worker').Orderly := by
  refine ⟨fun p t => ?_, freshPools, freshTasks⟩
  have same : (w.setWorker i worker').workers = s.workers.set i worker' :=
    congrArg (fun list => list.set i worker') workers
  have takes := total_set (Worker.takes p t) there worker'
  have part := takes.part
  have moved := takes.moved
  have held : (w.setWorker i worker').waiting p t = total (Call.enqueues p t) s.calls +
      (w.queue p).count t + total (Worker.takes p t) (s.workers.set i worker') := by
    rw [← calls, ← same]
    rfl
  rw [held, same]
  refine turn p t _ _ _ ⟨?_, ?_⟩ (total_set _ there worker') (total_set _ there worker')
  · rw [waiting]
    omega
  · rw [waiting]
    omega

section

variable {i : WorkerId} {worker : Worker} (there : s.workers[i]? = some worker)

include there

theorem Orderly.starts (orderly : s.Orderly) {t : TaskId} {task : Task} (pc : worker.pc = .taken t)
    (found : s.tasks t = some task) :
    (((s.setTask t (some { task with state := .running })).emit (.started t)).setWorker i
      { worker with pc := .running t }).Orderly := by
  have mine : 0 < s.waiting worker.pool t := by
    have part := le_total (Worker.takes worker.pool t) (List.mem_of_getElem? there)
    simp only [Worker.takes, pc, and_self, if_true] at part
    rw [waiting]
    omega
  apply Orderly.works there _
    ((s.setTask t (some { task with state := .running })).emit (.started t)) rfl rfl
  · intro p t' waiting running ran h1 h2 h3
    have old := orderly.turn p t'
    have own := orderly.turn worker.pool t
    have was := state_eq found
    have state : task.state = .queued := by
      cases now : task.state <;> grind [Turn]
    rw [emit_timesPushed, emit_timesCalled, emit_timesReturned, emit_home]
    change Turn p (World.state (s.setTask t _) t') (Event.home t' (s.home t') _)
      (s.timesPushed t' + _) (s.timesCalled t' + _) (s.timesReturned t' + _) _ _ _
    rw [setTask_state]
    change Shifts _ (_ + (s.queue p).count t') _ _ at h1
    simp only [Worker.takes, Worker.calls, Worker.comesBack, Event.accepts, Event.starts,
      Event.ends, Event.home, Option.map_some, pc] at *
    constructor <;> grind [Turn, Shifts]
  · exact orderly.freshPools
  · intro t' made
    refine ⟨fresh_setTask orderly.unmade found _ t' made, ?_⟩
    rw [emit_timesPushed]
    exact (orderly.freshTasks t' made).2

theorem Orderly.rests (orderly : s.Orderly) (pc : worker.pc = .waiting) {pc' : WorkerPc}
    (rests : pc' = .waiting ∨ pc' = .exited) :
    (s.setWorker i { worker with pc := pc' }).Orderly := by
  apply Orderly.works there _ s rfl rfl _ orderly.freshPools orderly.freshTasks
  intro p t waiting running ran h1 h2 h3
  have old := orderly.turn p t
  simp only [Worker.takes, Worker.calls, Worker.comesBack, pc] at *
  constructor <;> grind [Turn, Shifts]

theorem Orderly.takes (orderly : s.Orderly) (pc : worker.pc = .waiting) {pool : Pool}
    (found : s.pools worker.pool = some pool) {t : TaskId} {rest : List TaskId}
    (queue : pool.queue = t :: rest) :
    ((s.setPool worker.pool (some { pool with queue := rest })).setWorker i
      { worker with pc := .taken t }).Orderly := by
  apply Orderly.works there _ (s.setPool worker.pool (some { pool with queue := rest })) rfl rfl
  · intro p t' waiting running ran h1 h2 h3
    have old := orderly.turn p t'
    have was : s.queue worker.pool = t :: rest := by simp [World.queue, found, queue]
    rw [setPool_queue] at h1
    have same : waiting = s.waiting p t' ∧ running = total (Worker.calls t') s.workers ∧
        ran = total (Worker.comesBack t') s.workers := by
      simp only [Worker.takes, Worker.calls, Worker.comesBack, pc] at *
      have := List.count_cons (a := t') (b := t) (l := rest)
      grind [Shifts]
    obtain ⟨rfl, rfl, rfl⟩ := same
    exact old
  · exact fresh_setPool orderly.freshPools found _
  · exact orderly.freshTasks

theorem Orderly.ends (orderly : s.Orderly) {t : TaskId} (pc : worker.pc = .running t) :
    ((s.emit (.ended t)).setWorker i { worker with pc := .ran t }).Orderly := by
  apply Orderly.works there _ (s.emit (.ended t)) rfl rfl _ orderly.freshPools
  · intro t' made
    rw [emit_timesPushed]
    exact orderly.freshTasks t' made
  · intro p t' waiting running ran h1 h2 h3
    have old := orderly.turn p t'
    rw [emit_timesPushed, emit_timesCalled, emit_timesReturned, emit_home]
    have queue : (s.emit (.ended t)).queue p = s.queue p := rfl
    have state : (s.emit (.ended t)).state t' = s.state t' := rfl
    rw [queue] at h1
    rw [state]
    simp only [Worker.takes, Worker.calls, Worker.comesBack, Event.accepts, Event.starts,
      Event.ends, Event.home, pc] at *
    constructor <;> grind [Turn, Shifts]

theorem Orderly.finishes (orderly : s.Orderly) {t : TaskId} {task : Task} (pc : worker.pc = .ran t)
    (found : s.tasks t = some task) :
    ((s.setTask t (some { task with state := .finished })).setWorker i { worker with
      pc := if task.detached then .deleting t task.pool else .waiting }).Orderly := by
  apply Orderly.works there _ (s.setTask t (some { task with state := .finished })) rfl rfl _
    orderly.freshPools
  · exact fun t' made =>
      ⟨fresh_setTask orderly.unmade found _ t' made, (orderly.freshTasks t' made).2⟩
  · intro p t' waiting running ran h1 h2 h3
    have old := orderly.turn p t'
    have was := state_eq found
    have mine : 0 < total (Worker.comesBack t) s.workers := by
      have part := le_total (Worker.comesBack t) (List.mem_of_getElem? there)
      simp only [Worker.comesBack, pc, if_true] at part
      omega
    have state : t' = t → task.state = .running := by
      intro same
      cases now : task.state <;> grind [Turn]
    have queue : (s.setTask t (some { task with state := .finished })).queue p = s.queue p := rfl
    rw [queue] at h1
    change Turn p _ (s.home t') (s.timesPushed t') (s.timesCalled t') (s.timesReturned t') _ _ _
    rw [setTask_state]
    simp only [Worker.takes, Worker.calls, Worker.comesBack, Option.map_some, pc] at *
    constructor <;> grind [Turn, Shifts]

theorem Orderly.autoDeletes (orderly : s.Orderly) {t : TaskId} {task : Task} {p : PoolId}
    {pool : Pool} (pc : worker.pc = .deleting t (some p)) (found : s.tasks t = some task)
    (found' : s.pools p = some pool) :
    ((((s.setTask t none).emit (.autoDeleted p t)).setPool p
      (some { pool with taskCount := pool.taskCount - 1 })).setWorker i
        { worker with pc := .waiting }).Orderly := by
  apply Orderly.works there _ (((s.setTask t none).emit (.autoDeleted p t)).setPool p
    (some { pool with taskCount := pool.taskCount - 1 })) rfl rfl
  · intro p' t' waiting running ran h1 h2 h3
    have old := orderly.turn p' t'
    have queue : World.queue (((s.setTask t none).emit (.autoDeleted p t)).setPool p
        (some { pool with taskCount := pool.taskCount - 1 })) p' = s.queue p' := by
      rw [setPool_queue]
      split
      · next here => simp [World.queue, here, found']
      · rfl
    rw [queue] at h1
    change Turn p' (World.state (s.setTask t none) t')
      (World.home (World.emit (s.setTask t none) (.autoDeleted p t)) t')
      (World.timesPushed (World.emit (s.setTask t none) (.autoDeleted p t)) t')
      (World.timesCalled (World.emit (s.setTask t none) (.autoDeleted p t)) t')
      (World.timesReturned (World.emit (s.setTask t none) (.autoDeleted p t)) t') _ _ _
    rw [emit_timesPushed, emit_timesCalled, emit_timesReturned, emit_home, setTask_state]
    change Turn p' _ (s.home t') (s.timesPushed t') (s.timesCalled t') (s.timesReturned t') _ _ _
    simp only [Worker.takes, Worker.calls, Worker.comesBack, Option.map_none, pc] at *
    constructor <;> grind [Turn, Shifts]
  · exact fresh_setPool orderly.freshPools found' _
  · intro t' made
    refine ⟨fresh_setTask orderly.unmade found _ t' made, ?_⟩
    change World.timesPushed (World.emit (s.setTask t none) (.autoDeleted p t)) t' = 0
    rw [emit_timesPushed]
    exact (orderly.freshTasks t' made).2

end

theorem Orderly.madePool (orderly : s.Orderly) (threadCount : Int) :
    (s.makePool threadCount).Orderly := by
  have fresh := orderly.freshPools s.poolsMade (Nat.le_refl _)
  refine ⟨fun p t => ?_, fun p made => ?_, orderly.freshTasks⟩
  · have queue : (s.makePool threadCount).queue p = s.queue p := by
      have lookup : (s.makePool threadCount).queue p =
          if p = s.poolsMade then [] else s.queue p := setPool_queue _ _ _ _
      rw [lookup]
      split
      · next here => simp [World.queue, here, fresh]
      · rfl
    have same : (s.makePool threadCount).waiting p t = s.waiting p t := by
      rw [waiting, queue]
      rfl
    rw [same]
    exact orderly.turn p t
  · have later : s.poolsMade + 1 ≤ p := made
    have lookup : (s.makePool threadCount).pools p = if p = s.poolsMade then _ else s.pools p :=
      setPool_pools _ _ _ _
    rw [lookup, if_neg (Nat.ne_of_gt later)]
    exact orderly.freshPools p (Nat.le_of_succ_le later)

theorem Orderly.madeTask (orderly : s.Orderly) : s.makeTask.Orderly := by
  have tasks : ∀ t, s.makeTask.tasks t = if t = s.tasksMade then _ else s.tasks t :=
    setTask_tasks _ _ _
  refine ⟨fun p t => ?_, orderly.freshPools, fun t made => ?_⟩
  · have old := orderly.turn p t
    by_cases here : t = s.tasksMade
    · have unpushed := (orderly.freshTasks t (Nat.le_of_eq here.symm)).2
      have state : s.makeTask.state t = some .new := by
        rw [World.state, tasks, if_pos here]
        rfl
      rw [state]
      change Turn p _ (s.home t) (s.timesPushed t) (s.timesCalled t) (s.timesReturned t)
        (s.waiting p t) (total (Worker.calls t) s.workers) (total (Worker.comesBack t) s.workers)
      constructor <;> grind [Turn]
    · have state : s.makeTask.state t = s.state t := by
        rw [World.state, tasks, if_neg here]
        rfl
      rw [state]
      exact old
  · have later : s.tasksMade + 1 ≤ t := made
    have fresh := orderly.freshTasks t (Nat.le_of_succ_le later)
    rw [tasks, if_neg (Nat.ne_of_gt later)]
    exact fresh

theorem orderly_init : init.Orderly := by
  refine ⟨fun p t => ?_, fun _ _ => rfl, fun _ _ => ⟨rfl, rfl⟩⟩
  constructor <;> simp [init, state, home, timesPushed, timesCalled, timesReturned, waiting, queue]

theorem Orderly.step (orderly : s.Orderly) {action : Action} {next : World}
    (taken : s.step action = some next) : next.Orderly := by
  cases action with
  | begin op =>
      cases taken
      obtain ⟨other, world⟩ := begin_effect s op
      have begins : ∀ w : World, w.Orderly → w.calls = s.calls →
          (w.withCalls (s.calls ++ [(s.begin op).2])).Orderly := by
        intro w sound calls
        rw [← calls]
        exact Orderly.passive (moves_begin (.taskNew false) (.code .ok) _ _) sound
          (passive_refl fun p t => ⟨by simp, other p t⟩)
      have grown : (s.begin op).1.Orderly ∧ (s.begin op).1.calls = s.calls := by
        rcases world with same | ⟨threadCount, -, -, same⟩ | same <;> rw [same]
        · exact ⟨orderly, rfl⟩
        · exact ⟨orderly.madePool threadCount, rfl⟩
        · exact ⟨orderly.madeTask, rfl⟩
      exact begins _ grown.1 grown.2
  | call i choice =>
      obtain ⟨c, w, c', at_i, stepped, rfl⟩ := step_called taken
      have stepped := callStep_stepped stepped
      have moves := moves_set at_i c'
      have same : w.setCall i c' = w.withCalls (s.calls.set i c') := by
        rw [setCall, withCalls, stepped.calls]
      rw [same]
      rcases stepped.effect with ⟨p, t, task, rfl, rfl, there, idle, rfl⟩ |
        ⟨p, t, creations, pool, pool', workers, rfl, rfl, there, started, rfl⟩ | passive
      · exact Orderly.accepts moves orderly there idle
      · obtain ⟨k, same'⟩ :=
          startThreads_eq p creations { pool with queue := pool.queue ++ [t] } s.workers
        rw [started] at same'
        cases same'
        exact (Orderly.enqueues moves orderly there (by rfl)).hires p k
      · exact Orderly.passive moves orderly passive
  | worker i =>
      obtain ⟨worker, w, pc, at_i, stepped, rfl⟩ := step_worked taken
      cases workerStep_stepped stepped with
      | waits pool atPc found empty goesOn => exact orderly.rests at_i atPc (Or.inl rfl)
      | exits pool atPc found empty stopping => exact orderly.rests at_i atPc (Or.inr rfl)
      | takes pool t rest atPc found queue => exact orderly.takes at_i atPc found queue
      | starts t task atPc found => exact orderly.starts at_i atPc found
      | ends t atPc => exact orderly.ends at_i atPc
      | finishes t task atPc found => exact orderly.finishes at_i atPc found
      | deletes t task p pool atPc found found' => exact orderly.autoDeletes at_i atPc found found'

end World

end SystemProg.ThreadPool

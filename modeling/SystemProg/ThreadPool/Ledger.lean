import SystemProg.Lib.Total
import SystemProg.ThreadPool.Steps

set_option autoImplicit false

-- Each call and each worker carries weights: what it still has to take from a count, whether it
-- holds a task that is to run, and whether it goes on using a task. The invariant relates their
-- sums to the pools and the tasks, one pool and one task at a time.

namespace SystemProg.ThreadPool

namespace Call

-- It has reserved a place in the count, or taken a task from the pool and not from the count.
def owes (p : PoolId) : Call → Nat
  | .pushCheck p' _ | .pushRollback p' _ | .joinRelease _ p' => if p' = p then 1 else 0
  | _ => 0

def enqueues (p : PoolId) (t : TaskId) : Call → Nat
  | .pushEnqueue p' t' => if p' = p ∧ t' = t then 1 else 0
  | _ => 0

def visits (t : TaskId) : Call → Nat
  | .pushLoad _ t' | .pushTry _ t' _ | .pushCheck _ t' | .join t' | .joinWait t' | .timedJoin t'
  | .timedWait t' | .detach t' | .delete t' | .isFinished t' | .isRunning t' =>
      if t' = t then 1 else 0
  | _ => 0

-- It is going to delete the task: a finished one, or one that is in no pool.
def frees (t : TaskId) : Call → Nat
  | .detachRelease t' => if t' = t then 1 else 0
  | _ => 0

def deletes (t : TaskId) : Call → Nat
  | .deleteFree t' => if t' = t then 1 else 0
  | _ => 0

def pushes (p : PoolId) : Call → Nat
  | .pushLoad p' _ | .pushTry p' _ _ | .pushCheck p' _ | .pushRollback p' _ | .pushEnqueue p' _ =>
      if p' = p then 1 else 0
  | _ => 0

def closes (p : PoolId) : Call → Nat
  | .poolDelete p' | .poolStop p' | .poolJoin p' => if p' = p then 1 else 0
  | _ => 0

-- It has seen that the count is 0.
def drains (p : PoolId) : Call → Nat
  | .poolStop p' | .poolJoin p' => if p' = p then 1 else 0
  | _ => 0

end Call

namespace Worker

def takes (p : PoolId) (t : TaskId) (worker : Worker) : Nat :=
  if worker.pool = p ∧ worker.pc = .taken t then 1 else 0

def runs (p : PoolId) (t : TaskId) (worker : Worker) : Nat :=
  if worker.pool = p ∧ (worker.pc = .running t ∨ worker.pc = .ran t) then 1 else 0

def kills (p : PoolId) (t : TaskId) (worker : Worker) : Nat :=
  if worker.pc = .deleting t (some p) then 1 else 0

end Worker

def Event.settle (p : PoolId) (tasks : List TaskId) : Event → List TaskId
  | .accepted p' t => if p' = p then tasks ++ [t] else tasks
  | .joined p' t => if p' = some p then tasks.erase t else tasks
  | .autoDeleted p' t => if p' = p then tasks.erase t else tasks
  | _ => tasks

def Task.stage (p : PoolId) (task : Task) : Option TaskState :=
  if task.pool = some p then some task.state else none

structure Ledger (count : Option Int) (listed debts drains closes pushes : Nat) : Prop where
  exact : ∀ n, count = some n → n = listed + debts
  bound : ∀ n, count = some n → n ≤ maxTasks
  gone : count = none → listed = 0 ∧ debts = 0
  drained : 0 < drains → listed = 0 ∧ debts = 0
  apart : 0 < closes → pushes = 0

structure Custody (stage : Option TaskState) (dead : Bool) (listed waiting active dying : Nat) :
    Prop where
  listed : listed =
    if stage = some .queued ∨ stage = some .running ∨ stage = some .finished then 1 else 0
  waiting : waiting = if stage = some .queued then 1 else 0
  active : active = if stage = some .running then 1 else 0
  dying : dying = if stage = some .finished ∧ dead = true then 1 else 0

structure Access (task : Option Task) (visits frees deletes : Nat) : Prop where
  usable : 0 < visits → ∃ k, task = some k ∧ k.detached = false
  alone : 0 < frees + deletes → visits = 0 ∧ frees + deletes = 1
  freed : 0 < frees → ∃ k, task = some k ∧ k.state = .finished ∧ k.detached = false
  deleted : 0 < deletes → ∃ k, task = some k ∧ (k.state = .new ∨ k.state = .joined)

namespace World

-- The tasks that the pool has accepted and that have been neither joined nor deleted by the pool,
-- in the order they were accepted.
def outstanding (s : World) (p : PoolId) : List TaskId := s.log.foldl (Event.settle p) []

def count (s : World) (p : PoolId) : Option Int := (s.pools p).map Pool.taskCount

def queue (s : World) (p : PoolId) : List TaskId := ((s.pools p).map Pool.queue).getD []

def stage (s : World) (p : PoolId) (t : TaskId) : Option TaskState :=
  (s.tasks t).bind (Task.stage p)

def dead (s : World) (t : TaskId) : Bool := ((s.tasks t).map Task.detached).getD false

def debts (s : World) (p : PoolId) : Nat := total (Call.owes p) s.calls

def waiting (s : World) (p : PoolId) (t : TaskId) : Nat :=
  total (Call.enqueues p t) s.calls + (s.queue p).count t + total (Worker.takes p t) s.workers

def active (s : World) (p : PoolId) (t : TaskId) : Nat := total (Worker.runs p t) s.workers

def dying (s : World) (p : PoolId) (t : TaskId) : Nat := total (Worker.kills p t) s.workers

structure Sound (s : World) : Prop where
  ledger : ∀ p, Ledger (s.count p) (s.outstanding p).length (s.debts p)
    (total (Call.drains p) s.calls) (total (Call.closes p) s.calls) (total (Call.pushes p) s.calls)
  custody : ∀ p t, Custody (s.stage p t) (s.dead t) ((s.outstanding p).count t) (s.waiting p t)
    (s.active p t) (s.dying p t)
  access : ∀ t, Access (s.tasks t) (total (Call.visits t) s.calls) (total (Call.frees t) s.calls)
    (total (Call.deletes t) s.calls)
  freshPools : ∀ p, s.poolsMade ≤ p → s.pools p = none
  freshTasks : ∀ t, s.tasksMade ≤ t → s.tasks t = none

theorem setPool_count (s : World) (p : PoolId) (pool : Option Pool) (p' : PoolId) :
    (s.setPool p pool).count p' = if p' = p then pool.map Pool.taskCount else s.count p' := by
  simp only [count, setPool, Function.update_apply]
  split <;> rfl

theorem setPool_queue (s : World) (p : PoolId) (pool : Option Pool) (p' : PoolId) :
    (s.setPool p pool).queue p' = if p' = p then (pool.map Pool.queue).getD [] else s.queue p' := by
  simp only [queue, setPool, Function.update_apply]
  split <;> rfl

theorem setTask_stage (s : World) (t : TaskId) (task : Option Task) (p : PoolId) (t' : TaskId) :
    (s.setTask t task).stage p t' = if t' = t then task.bind (Task.stage p) else s.stage p t' := by
  simp only [stage, setTask_tasks]
  split <;> rfl

theorem setTask_dead (s : World) (t : TaskId) (task : Option Task) (t' : TaskId) :
    (s.setTask t task).dead t' =
      if t' = t then (task.map Task.detached).getD false else s.dead t' := by
  simp only [dead, setTask_tasks]
  split <;> rfl

theorem emit_outstanding (s : World) (event : Event) (p : PoolId) :
    (s.emit event).outstanding p = event.settle p (s.outstanding p) := by
  simp [outstanding, emit]

theorem drains_le_closes (p : PoolId) (calls : List Call) :
    total (Call.drains p) calls ≤ total (Call.closes p) calls := by
  apply total_mono
  intro c
  cases c <;> simp [Call.drains, Call.closes]

theorem total_hired (weight : Worker → Nat) {worker : Worker} (idle : weight worker = 0)
    (workers : List Worker) (started : Nat) :
    total weight (workers ++ List.replicate started worker) = total weight workers := by
  have nothing : total weight (List.replicate started worker) = 0 := by
    rw [total_eq_zero]
    intro entry mem
    rw [List.eq_of_mem_replicate mem, idle]
  rw [total_append, nothing, Nat.add_zero]

def withCalls (s : World) (calls : List Call) : World := { s with calls := calls }

def Moves (c c' : Call) (calls calls' : List Call) : Prop :=
  ∀ weight : Call → Nat, (∀ op result, weight (.returned op result) = 0) →
    Shifts (weight c) (weight c') (total weight calls) (total weight calls')

theorem moves_set {calls : List Call} {i : Nat} {c : Call} (there : calls[i]? = some c)
    (c' : Call) : Moves c c' calls (calls.set i c') :=
  fun weight _ => total_set weight there c'

theorem moves_begin (op : Op) (result : Result) (c' : Call) (calls : List Call) :
    Moves (.returned op result) c' calls (calls ++ [c']) := by
  intro weight idle
  rw [idle]
  exact total_snoc weight calls c'

theorem Sound.moves {s : World} {c c' : Call} {calls' : List Call}
    (moves : Moves c c' s.calls calls') (w : World) (workers : w.workers = s.workers)
    (ledger : ∀ p debts drains closes pushes, Shifts (c.owes p) (c'.owes p) (s.debts p) debts →
      Shifts (c.drains p) (c'.drains p) (total (Call.drains p) s.calls) drains →
      Shifts (c.closes p) (c'.closes p) (total (Call.closes p) s.calls) closes →
      Shifts (c.pushes p) (c'.pushes p) (total (Call.pushes p) s.calls) pushes →
      Ledger (w.count p) (w.outstanding p).length debts drains closes pushes)
    (custody : ∀ p t waiting,
      Shifts (c.enqueues p t + (s.queue p).count t) (c'.enqueues p t + (w.queue p).count t)
        (s.waiting p t) waiting →
      Custody (w.stage p t) (w.dead t) ((w.outstanding p).count t) waiting (s.active p t)
        (s.dying p t))
    (access : ∀ t visits frees deletes,
      Shifts (c.visits t) (c'.visits t) (total (Call.visits t) s.calls) visits →
      Shifts (c.frees t) (c'.frees t) (total (Call.frees t) s.calls) frees →
      Shifts (c.deletes t) (c'.deletes t) (total (Call.deletes t) s.calls) deletes →
      Access (w.tasks t) visits frees deletes)
    (freshPools : ∀ p, w.poolsMade ≤ p → w.pools p = none)
    (freshTasks : ∀ t, w.tasksMade ≤ t → w.tasks t = none) :
    (w.withCalls calls').Sound := by
  refine ⟨fun p => ?_, fun p t => ?_, fun t => ?_, freshPools, freshTasks⟩
  · exact ledger p _ _ _ _ (moves _ fun _ _ => rfl) (moves _ fun _ _ => rfl)
      (moves _ fun _ _ => rfl) (moves _ fun _ _ => rfl)
  · have enqueues := moves (Call.enqueues p t) fun _ _ => rfl
    have moved := custody p t ((w.withCalls calls').waiting p t) ?_
    · rw [active, dying, ← workers] at moved
      exact moved
    · have held : (w.withCalls calls').waiting p t =
          total (Call.enqueues p t) calls' + (w.queue p).count t +
            total (Worker.takes p t) s.workers := by
        rw [← workers]
        rfl
      rw [held, waiting]
      constructor
      · have := enqueues.moved
        omega
      · have := enqueues.part
        omega
  · exact access t _ _ _ (moves _ fun _ _ => rfl) (moves _ fun _ _ => rfl) (moves _ fun _ _ => rfl)

end World

end SystemProg.ThreadPool

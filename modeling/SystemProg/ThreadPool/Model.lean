import Mathlib.Logic.Function.Basic
import Mathlib.Tactic.Common

set_option autoImplicit false

-- `4/thread_pool.cpp`. Each section under a mutex and each access to `task_count` is one step, with
-- the code up to the next one. `none` stands for a step that the program does not have in this
-- state: it waits for a thread, or what it does is undefined, such as an access to an object that
-- has been deleted.

namespace SystemProg.ThreadPool

abbrev PoolId := Nat
abbrev TaskId := Nat
abbrev WorkerId := Nat

def maxThreads : Int := 20

def maxTasks : Int := 100000

inductive TaskState where
  | new
  | queued
  | running
  | finished
  | joined
deriving DecidableEq

structure Task where
  pool : Option PoolId
  state : TaskState
  detached : Bool
deriving DecidableEq

structure Pool where
  threads : List WorkerId
  queue : List TaskId
  maxThreads : Int
  taskCount : Int
  stopping : Bool
deriving DecidableEq

inductive WorkerPc where
  | waiting
  | taken (task : TaskId)
  | running (task : TaskId)
  | ran (task : TaskId)
  | deleting (task : TaskId) (taskPool : Option PoolId)
  | exited
deriving DecidableEq

structure Worker where
  pool : PoolId
  pc : WorkerPc
deriving DecidableEq

inductive Code where
  | ok
  | invalidArgument
  | tooManyTasks
  | hasTasks
  | taskNotPushed
  | taskInPool
  | notImplemented
  | timeout
deriving DecidableEq

inductive Result where
  | code (code : Code)
  | flag (value : Bool)
deriving DecidableEq

inductive Op where
  | poolNew (threadCount : Int) (out : Bool)
  | poolDelete (pool : Option PoolId)
  | push (pool : Option PoolId) (task : Option TaskId)
  | taskNew (out : Bool)
  | isFinished (task : Option TaskId)
  | isRunning (task : Option TaskId)
  | join (task : Option TaskId)
  | timedJoin (task : Option TaskId)
  | taskDelete (task : Option TaskId)
  | detach (task : Option TaskId)
deriving DecidableEq

inductive Call where
  | pushLoad (pool : PoolId) (task : TaskId)
  | pushTry (pool : PoolId) (task : TaskId) (expected : Int)
  | pushCheck (pool : PoolId) (task : TaskId)
  | pushRollback (pool : PoolId) (task : TaskId)
  | pushEnqueue (pool : PoolId) (task : TaskId)
  | join (task : TaskId)
  | joinWait (task : TaskId)
  | joinRelease (task : TaskId) (pool : PoolId)
  | timedJoin (task : TaskId)
  | timedWait (task : TaskId)
  | detach (task : TaskId)
  | detachRelease (task : TaskId)
  | delete (task : TaskId)
  | deleteFree (task : TaskId)
  | poolDelete (pool : PoolId)
  | poolStop (pool : PoolId)
  | poolJoin (pool : PoolId)
  | isFinished (task : TaskId)
  | isRunning (task : TaskId)
  | returned (op : Op) (result : Result)
deriving DecidableEq

-- What happens to the tasks, in its order.
inductive Event where
  | accepted (pool : PoolId) (task : TaskId)
  | started (task : TaskId)
  | ended (task : TaskId)
  | joined (pool : Option PoolId) (task : TaskId)
  | autoDeleted (pool : PoolId) (task : TaskId)
  | deleted (task : TaskId)
deriving DecidableEq

structure World where
  pools : PoolId → Option Pool
  poolsMade : Nat
  tasks : TaskId → Option Task
  tasksMade : Nat
  calls : List Call
  workers : List Worker
  log : List Event

namespace World

def init : World :=
  { pools := fun _ => none
    poolsMade := 0
    tasks := fun _ => none
    tasksMade := 0
    calls := []
    workers := []
    log := [] }

def setPool (s : World) (p : PoolId) (pool : Option Pool) : World :=
  { s with pools := Function.update s.pools p pool }

def setTask (s : World) (t : TaskId) (task : Option Task) : World :=
  { s with tasks := Function.update s.tasks t task }

def emit (s : World) (event : Event) : World := { s with log := s.log ++ [event] }

def fetchSub (s : World) (p : PoolId) : Option World :=
  (s.pools p).map fun pool => s.setPool p (some { pool with taskCount := pool.taskCount - 1 })

def workerStep (s : World) (worker : Worker) : Option (World × WorkerPc) :=
  match worker.pc with
  | .waiting =>
      match s.pools worker.pool with
      | none => none
      | some pool =>
          match pool.queue with
          | [] => if pool.stopping then some (s, .exited) else some (s, .waiting)
          | t :: rest => some (s.setPool worker.pool (some { pool with queue := rest }), .taken t)
  | .taken t =>
      (s.tasks t).map fun task =>
        ((s.setTask t (some { task with state := .running })).emit (.started t), .running t)
  -- The function has returned, or an exception of it has been caught. Calls that it makes itself are
  -- those of any thread: that it returns behind them is not modelled.
  | .running t => some (s.emit (.ended t), .ran t)
  | .ran t =>
      (s.tasks t).map fun task =>
        (s.setTask t (some { task with state := .finished }),
          if task.detached then .deleting t task.pool else .waiting)
  | .deleting t taskPool =>
      match s.tasks t, taskPool with
      | some _, some p =>
          (((s.setTask t none).emit (.autoDeleted p t)).fetchSub p).map fun s => (s, .waiting)
      | _, _ => none
  | .exited => none

-- What the program does not decide: whether `compare_exchange_weak` fails spuriously, whether
-- `pthread_cond_timedwait` times out, and how many threads `pthread_create` can make.
structure Choice where
  spurious : Bool
  timedOut : Bool
  creations : Nat
deriving DecidableEq

-- The loop of `thread_pool_push_task` that starts threads.
def startThreads (p : PoolId) : Nat → Pool → List Worker → Pool × List Worker
  | 0, pool, workers => (pool, workers)
  | creations + 1, pool, workers =>
      if (pool.threads.length : Int) < pool.maxThreads ∧
          pool.queue.length > pool.threads.length then
        startThreads p creations { pool with threads := pool.threads ++ [workers.length] }
          (workers ++ [{ pool := p, pc := .waiting }])
      else (pool, workers)

def pushed (p : PoolId) (t : TaskId) (code : Code) : Call :=
  .returned (.push (some p) (some t)) (.code code)

def pushTry (s : World) (p : PoolId) (t : TaskId) (expected : Int) (spurious : Bool) :
    Option (World × Call) :=
  if expected ≥ maxTasks then some (s, pushed p t .tooManyTasks)
  else
    (s.pools p).map fun pool =>
      if pool.taskCount = expected ∧ spurious = false then
        (s.setPool p (some { pool with taskCount := expected + 1 }), .pushCheck p t)
      else (s, .pushTry p t pool.taskCount)

def pushCheck (s : World) (p : PoolId) (t : TaskId) : Option (World × Call) :=
  (s.tasks t).map fun task =>
    if task.pool ≠ none ∨ task.state = .queued ∨ task.state = .running ∨
        task.state = .finished then
      (s, .pushRollback p t)
    else
      ((s.setTask t (some { task with pool := some p, state := .queued })).emit (.accepted p t),
        .pushEnqueue p t)

def pushEnqueue (s : World) (p : PoolId) (t : TaskId) (creations : Nat) : Option (World × Call) :=
  (s.pools p).map fun pool =>
    let started := startThreads p creations { pool with queue := pool.queue ++ [t] } s.workers
    ({ s.setPool p (some started.1) with workers := started.2 }, pushed p t .ok)

def joined (t : TaskId) (code : Code) : Call := .returned (.join (some t)) (.code code)

def joinCheck (s : World) (t : TaskId) (task : Task) : World × Call :=
  match task.state with
  | .finished =>
      ((s.setTask t (some { task with state := .joined, pool := none })).emit
        (.joined task.pool t),
        match task.pool with
        | some p => .joinRelease t p
        | none => joined t .ok)
  | .joined => (s, joined t .ok)
  | _ => (s, .joinWait t)

def timedJoined (t : TaskId) (code : Code) : Call := .returned (.timedJoin (some t)) (.code code)

-- The state is set to JOINED and the task is taken from the count of `task->pool`.
def timedRelease (s : World) (t : TaskId) (task : Task) : Option (World × Call) :=
  match task.pool with
  | none => none
  | some p =>
      let s := s.setTask t (some { task with state := .joined })
      ((if task.state = .finished then s.emit (.joined (some p) t) else s).fetchSub p).map
        fun s => (s, timedJoined t .ok)

def timedJoin (s : World) (t : TaskId) : Option (World × Call) :=
  match s.tasks t with
  | none => none
  | some task =>
      match task.state with
      | .new => some (s, timedJoined t .taskNotPushed)
      | .finished | .joined => s.timedRelease t task
      | _ => some (s, .timedWait t)

-- There is no clock: the deadline is a valid one, and the wait may time out at any moment.
def timedWait (s : World) (t : TaskId) (timedOut : Bool) : Option (World × Call) :=
  match s.tasks t with
  | none => none
  | some task =>
      if timedOut then some (s, timedJoined t .timeout)
      else
        match task.state with
        | .finished => s.timedRelease t task
        | .joined => some (s, timedJoined t .ok)
        | _ => some (s, .timedWait t)

def detached (t : TaskId) (code : Code) : Call := .returned (.detach (some t)) (.code code)

def detach (s : World) (t : TaskId) : Option (World × Call) :=
  (s.tasks t).map fun task =>
    if task.pool = none then (s, detached t .taskNotPushed)
    else if task.state = .finished then (s, .detachRelease t)
    else (s.setTask t (some { task with detached := true }), detached t .ok)

def detachRelease (s : World) (t : TaskId) : Option (World × Call) :=
  match s.tasks t with
  | none => none
  | some task =>
      match task.pool with
      | none => none
      | some p =>
          (((s.setTask t none).emit (.autoDeleted p t)).fetchSub p).map
            fun s => (s, detached t .ok)

def deleted (t : TaskId) (code : Code) : Call := .returned (.taskDelete (some t)) (.code code)

def delete (s : World) (t : TaskId) : Option (World × Call) :=
  (s.tasks t).map fun task =>
    if task.state = .queued ∨ task.state = .running ∨ task.state = .finished then
      (s, deleted t .taskInPool)
    else (s, .deleteFree t)

def deleteFree (s : World) (t : TaskId) : Option (World × Call) :=
  (s.tasks t).map fun _ => ((s.setTask t none).emit (.deleted t), deleted t .ok)

def poolDeleted (p : PoolId) (code : Code) : Call :=
  .returned (.poolDelete (some p)) (.code code)

-- The threads of the pool have returned, and it is deleted.
def poolJoin (s : World) (p : PoolId) : Option (World × Call) :=
  match s.pools p with
  | none => none
  | some pool =>
      if ∀ w ∈ pool.threads, (s.workers[w]?.map Worker.pc) = some .exited then
        some (s.setPool p none, poolDeleted p .ok)
      else none

def callStep (s : World) (choice : Choice) : Call → Option (World × Call)
  | .pushLoad p t => (s.pools p).map fun pool => (s, .pushTry p t pool.taskCount)
  | .pushTry p t expected => s.pushTry p t expected choice.spurious
  | .pushCheck p t => s.pushCheck p t
  | .pushRollback p t => (s.fetchSub p).map fun s => (s, pushed p t .taskInPool)
  | .pushEnqueue p t => s.pushEnqueue p t choice.creations
  | .join t =>
      (s.tasks t).map fun task =>
        if task.state = .new then (s, joined t .taskNotPushed) else s.joinCheck t task
  | .joinWait t => (s.tasks t).map (s.joinCheck t)
  | .joinRelease t p => (s.fetchSub p).map fun s => (s, joined t .ok)
  | .timedJoin t => s.timedJoin t
  | .timedWait t => s.timedWait t choice.timedOut
  | .detach t => s.detach t
  | .detachRelease t => s.detachRelease t
  | .delete t => s.delete t
  | .deleteFree t => s.deleteFree t
  | .poolDelete p =>
      (s.pools p).map fun pool =>
        (s, if pool.taskCount ≠ 0 then poolDeleted p .hasTasks else .poolStop p)
  | .poolStop p =>
      (s.pools p).map fun pool => (s.setPool p (some { pool with stopping := true }), .poolJoin p)
  | .poolJoin p => s.poolJoin p
  | .isFinished t =>
      (s.tasks t).map fun task =>
        (s, .returned (.isFinished (some t)) (.flag (task.state = .joined)))
  | .isRunning t =>
      (s.tasks t).map fun task =>
        (s, .returned (.isRunning (some t)) (.flag (task.state = .running)))
  | .returned _ _ => none

-- `thread_pool_new` behind its checks.
def makePool (s : World) (threadCount : Int) : World :=
  { s.setPool s.poolsMade (some
      { threads := [], queue := [], maxThreads := threadCount, taskCount := 0, stopping := false })
    with poolsMade := s.poolsMade + 1 }

def makeTask (s : World) : World :=
  { s.setTask s.tasksMade (some { pool := none, state := .new, detached := false })
    with tasksMade := s.tasksMade + 1 }

-- A thread makes a call; what no other thread can tell apart is done at once.
def begin (s : World) (op : Op) : World × Call :=
  match op with
  | .poolNew threadCount out =>
      if out = false ∨ threadCount ≤ 0 ∨ threadCount > maxThreads then
        (s, .returned op (.code .invalidArgument))
      else (s.makePool threadCount, .returned op (.code .ok))
  | .poolDelete (some p) => (s, .poolDelete p)
  | .push (some p) (some t) => (s, .pushLoad p t)
  | .taskNew out =>
      if out = false then (s, .returned op (.code .invalidArgument))
      else (s.makeTask, .returned op (.code .ok))
  | .isFinished (some t) => (s, .isFinished t)
  | .isRunning (some t) => (s, .isRunning t)
  | .join (some t) => (s, .join t)
  | .timedJoin (some t) => (s, .timedJoin t)
  | .taskDelete (some t) => (s, .delete t)
  | .detach (some t) => (s, .detach t)
  | .isFinished none | .isRunning none => (s, .returned op (.flag false))
  | _ => (s, .returned op (.code .invalidArgument))

inductive Action where
  | begin (op : Op)
  | call (i : Nat) (choice : Choice)
  | worker (w : WorkerId)
deriving DecidableEq

def setCall (s : World) (i : Nat) (call : Call) : World :=
  { s with calls := s.calls.set i call }

def setWorker (s : World) (w : WorkerId) (worker : Worker) : World :=
  { s with workers := s.workers.set w worker }

def step (s : World) : Action → Option World
  | .begin op =>
      let begun := s.begin op
      some { begun.1 with calls := s.calls ++ [begun.2] }
  | .call i choice =>
      (s.calls[i]?).bind fun call => (s.callStep choice call).map fun done => done.1.setCall i done.2
  | .worker w =>
      (s.workers[w]?).bind fun worker =>
        (s.workerStep worker).map fun done => done.1.setWorker w { worker with pc := done.2 }

end World

end SystemProg.ThreadPool

import SystemProg.Lib.Epoll
import SystemProg.Lib.Run

set_option autoImplicit false

-- `examples/cpp20_coroutines/iocoro.cpp`. The coroutines are arbitrary: between two calls of the
-- loop, or when an operation resumes one, they make calls, and `ret` is where the last of them
-- gives control back. Other threads make the calls that take `myMutex`. A failed `assert` and a use
-- of a deleted task end the program: the functions answer `none` there. `new`, `close` and the
-- calls on the epoll instance succeed, and the counter of the eventfd does not overflow.

namespace SystemProg.IoCore

abbrev Fd := Nat

-- A `IOTask *`, by the order of `new`.
abbrev TaskId := Nat

-- An `AsyncOperation *`, by the order of `co_await`.
abbrev OpId := Nat

inductive TaskState where
  | new
  | working
  | deleting
deriving DecidableEq

-- `AsyncRecv`, `AsyncSend`, `AsyncAccept` and `AsyncConnect`.
inductive OpKind where
  | recv
  | send
  | accept
  | connect
deriving DecidableEq

def OpKind.bit : OpKind → Direction
  | .recv | .accept => .read
  | .send | .connect => .write

structure AsyncOperation where
  id : OpId
  kind : OpKind
deriving DecidableEq

-- `idx` is `none` for -1.
structure IOTask where
  state : TaskState
  fd : Fd
  idx : Option Nat
  eventsReady : Mask
  asyncOp : Option AsyncOperation

def IOTask.new (fd : Fd) : IOTask :=
  { state := .new
    fd := fd
    idx := none
    eventsReady := fun _ => false
    asyncOp := none }

-- What a system call answers: it is done, and the descriptor may still be ready; EWOULDBLOCK, or
-- for `connect` EINPROGRESS; or another error, on which the program asserts.
inductive Answer where
  | done (still : Bool)
  | wouldBlock
  | failed
deriving DecidableEq

-- What `co_await` gives: the result of the system call, or -1 for a task that is deleted.
inductive OpResult where
  | done
  | canceled
deriving DecidableEq

structure Completion where
  op : OpId
  task : TaskId
  result : OpResult
deriving DecidableEq

-- Where the thread of the loop is: outside of `roll`, in `processQueues` with what is left of
-- `myQueue`, in `epoll_wait`, or in the loop over the events.
inductive Phase where
  | outside
  | queues (rest : List TaskId)
  -- `processQueues` has resumed the coroutine of a task that it deletes.
  | canceled (t : TaskId) (rest : List TaskId)
  | polling
  | events (rest : List (TaskId × Mask))
  -- The handling of an event has resumed a coroutine.
  | resumed (rest : List (TaskId × Mask))

structure IOCore where
  heap : TaskId → Option IOTask
  made : Nat
  tasks : List TaskId
  queue : List TaskId
  size : Nat
  stopped : Bool
  phase : Phase
  epoll : Epoll Fd TaskId
  -- Not in the source: the tasks of all operations so far, and the operations that have a result.
  started : List TaskId
  log : List Completion

inductive Action where
  | subscribe (fd : Fd)
  | unsubscribe (t : TaskId)
  | stop
  | wakeup
  | await (t : TaskId) (kind : OpKind) (answer : Answer)
  | ret
  | roll
  | queue
  | wait (fds : List Fd)
  | interrupted
  | event (answer : Answer)
  | destroy
  | kernel (fd : Fd) (d : Direction)
deriving DecidableEq

def eventFd : Fd := 0

def eventSub : TaskId := 0

def epollBatchSize : Nat := 128

namespace IOCore

def setTask (s : IOCore) (t : TaskId) (task : IOTask) : IOCore :=
  { s with heap := Function.update s.heap t (some task) }

def setPhase (s : IOCore) (phase : Phase) : IOCore := { s with phase := phase }

-- `myMutex` is taken by `processQueues`.
def Locked (s : IOCore) : Prop :=
  match s.phase with
  | .queues _ | .canceled _ _ => True
  | _ => False

instance (s : IOCore) : Decidable s.Locked := by
  unfold Locked
  split <;> infer_instance

-- Coroutines can run.
def Runs (s : IOCore) : Prop :=
  match s.phase with
  | .outside | .canceled _ _ | .resumed _ => True
  | _ => False

instance (s : IOCore) : Decidable s.Runs := by
  unfold Runs
  split <;> infer_instance

def wakeup (s : IOCore) : IOCore := { s with epoll := s.epoll.raise eventFd .read }

def stop (s : IOCore) : IOCore := { s with stopped := true }.wakeup

-- What one of the two loops at the beginning of `subscribe` finds.
def Holds (s : IOCore) (fd : Fd) (t : TaskId) : Prop := (s.heap t).all (·.fd = fd) = true

instance (s : IOCore) (fd : Fd) (t : TaskId) : Decidable (s.Holds fd t) :=
  inferInstanceAs (Decidable (_ = _))

def enqueue (s : IOCore) (t : TaskId) : IOCore :=
  { s with queue := s.queue ++ [t], size := s.size + 1 }

def subscribe (s : IOCore) (fd : Fd) : Option IOCore :=
  if s.Locked ∨ ∃ t ∈ s.tasks ++ s.queue, s.Holds fd t then none
  else some (({ s.setTask s.made (.new fd) with made := s.made + 1 }.enqueue s.made).wakeup)

def unsubscribe (s : IOCore) (t : TaskId) : Option IOCore :=
  match s.heap t with
  | none => none
  | some task =>
      if s.Locked ∨ t ∈ s.queue ∨ task.idx.bind (fun i => s.tasks[i]?) ≠ some t ∨
          task.state ≠ .working then none
      else some ((s.setTask t { task with state := .deleting }).enqueue t).wakeup

def complete (s : IOCore) (op : OpId) (t : TaskId) (result : OpResult) : IOCore :=
  { s with log := s.log ++ [{ op := op, task := t, result := result }] }

-- `execute` of the three operations that have it; the flag says that there is a result.
def execute (s : IOCore) (t : TaskId) (task : IOTask) (kind : OpKind) (answer : Answer) :
    Option (Bool × IOCore) :=
  if task.eventsReady kind.bit = false then some (false, s)
  else
    match answer with
    | .done still =>
        if s.epoll.level task.fd kind.bit = false then none
        else
          some (true, if still then s else { s with epoll := s.epoll.lower task.fd kind.bit })
    | .wouldBlock =>
        if s.epoll.level task.fd kind.bit = true then none
        else
          some (false, s.setTask t { task with
            eventsReady := Function.update task.eventsReady kind.bit false })
    | .failed => none

def construct (s : IOCore) (t : TaskId) (task : IOTask) (kind : OpKind) (answer : Answer) :
    Option (Bool × IOCore) :=
  match kind with
  | .connect =>
      match answer with
      | .done _ => some (true, s)
      | .wouldBlock =>
          some (false, { s.setTask t { task with
            eventsReady := Function.update task.eventsReady .write false } with
              epoll := s.epoll.lower task.fd .write })
      | .failed => none
  | kind => s.execute t task kind answer

def awaitSuspend (s : IOCore) (t : TaskId) (op : AsyncOperation) : Option IOCore :=
  match s.heap t with
  | none => none
  | some task =>
      if task.asyncOp.isSome then none else some (s.setTask t { task with asyncOp := some op })

-- `co_await` on an operation: it has its result at once, or its coroutine is suspended.
def await (s : IOCore) (t : TaskId) (kind : OpKind) (answer : Answer) : Option IOCore :=
  if s.Runs then
    match s.heap t with
    | none => none
    | some task =>
        (s.construct t task kind answer).bind fun (ready, s') =>
          let op := s.started.length
          let begun := { s' with started := s.started ++ [t] }
          if ready then some (begun.complete op t .done)
          else begun.awaitSuspend t { id := op, kind := kind }
  else none

-- `onIOEvent`; the flag says that the coroutine has been resumed.
def onIOEvent (s : IOCore) (t : TaskId) (task : IOTask) (op : AsyncOperation) (answer : Answer) :
    Option (Bool × IOCore) :=
  if task.eventsReady op.kind.bit = false then
    if task.state = .deleting then some (true, s.complete op.id t .canceled)
    else some (false, s)
  else
    match op.kind with
    | .connect => some (true, s.complete op.id t .done)
    | kind =>
        (s.execute t task kind answer).map fun (ready, s') =>
          (ready, if ready then s'.complete op.id t .done else s')

def addTask (s : IOCore) (t : TaskId) (task : IOTask) (rest : List TaskId) : Option IOCore :=
  (s.epoll.add task.fd t).map fun epoll =>
    { s.setTask t { task with
        state := .working, eventsReady := fun d => d ≠ .error, idx := some s.tasks.length } with
      epoll := epoll
      tasks := s.tasks ++ [t]
      phase := .queues rest }

-- `delete s` and what follows it.
def deleteTask (s : IOCore) (t : TaskId) (rest : List TaskId) : Option IOCore :=
  match s.heap t with
  | none => none
  | some task =>
      if task.state ≠ .deleting ∨ task.asyncOp.isSome then none
      else
        some { s with
          heap := Function.update s.heap t none
          epoll := s.epoll.close task.fd
          tasks := s.tasks.dropLast
          phase := .queues rest }

def moveBack (s : IOCore) (i : Nat) : Option IOCore :=
  s.tasks.getLast?.bind fun back =>
    (s.heap back).map fun task =>
      { s.setTask back { task with idx := some i } with tasks := s.tasks.set i back }

def dropTask (s : IOCore) (t : TaskId) (task : IOTask) (rest : List TaskId) : Option IOCore :=
  match task.idx with
  | none => none
  | some i =>
      if s.tasks[i]? ≠ some t then none
      else
        (s.moveBack i).bind fun moved =>
          (moved.epoll.del task.fd).bind fun epoll =>
            let dropped := { moved with epoll := epoll }
            match task.asyncOp with
            | none => dropped.deleteTask t rest
            | some op =>
                let task := { task with eventsReady := fun _ => false }
                ((dropped.setTask t task).onIOEvent t task op .wouldBlock).map fun done =>
                  done.2.setPhase (.canceled t rest)

-- One turn of the loop over `myQueue`, or what follows the loop.
def processQueue (s : IOCore) : Option IOCore :=
  match s.phase with
  | .queues [] => some { s with queue := [], size := s.tasks.length, phase := .polling }
  | .queues (t :: rest) =>
      match s.heap t with
      | none => none
      | some task =>
          match task.state with
          | .new => s.addTask t task rest
          | .deleting => s.dropTask t task rest
          | .working => none
  | _ => none

-- The call of `roll` that the loop makes while the core is not stopped.
def roll (s : IOCore) : Option IOCore :=
  match s.phase with
  | .outside =>
      if s.stopped then none
      else if s.size = 0 ∨ s.queue = [] then some (s.setPhase .polling)
      else some (s.setPhase (.queues s.queue))
  | _ => none

def epollWait (s : IOCore) (fds : List Fd) : Option IOCore :=
  match s.phase with
  | .polling =>
      if fds.length ≤ epollBatchSize then
        (s.epoll.collect fds).map fun (events, epoll) =>
          { s with epoll := epoll, phase := .events events }
      else none
  | _ => none

def interrupted (s : IOCore) : Option IOCore :=
  match s.phase with
  | .polling => some (s.setPhase .outside)
  | _ => none

-- `s->myAsyncOp = op` where the operation has no result yet.
def restore (s : IOCore) (t : TaskId) (op : AsyncOperation) : Option IOCore :=
  (s.heap t).map fun task => s.setTask t { task with asyncOp := some op }

-- One turn of the loop over the events, or the end of `roll`.
def handleEvent (s : IOCore) (answer : Answer) : Option IOCore :=
  match s.phase with
  | .events [] => some (s.setPhase .outside)
  | .events ((t, mask) :: rest) =>
      if mask .error = true ∨ (mask .read || mask .write) = false then none
      else
        match s.heap t with
        | none => none
        | some task =>
            let told := { task with eventsReady := fun d => task.eventsReady d || mask d }
            match task.asyncOp with
            | none => some ((s.setTask t told).setPhase (.events rest))
            | some op =>
                let taken := { told with asyncOp := none }
                ((s.setTask t taken).onIOEvent t taken op answer).bind fun (done, s') =>
                  if done then some (s'.setPhase (.resumed rest))
                  else (s'.restore t op).map (·.setPhase (.events rest))
  | _ => none

def ret (s : IOCore) : Option IOCore :=
  match s.phase with
  | .resumed rest => some (s.setPhase (.events rest))
  | .canceled t rest =>
      match s.heap t with
      | none => none
      | some task => (s.setTask t { task with asyncOp := none }).deleteTask t rest
  | _ => none

-- `~IOCore()`, up to its `processQueues`.
def destroy (s : IOCore) : Option IOCore :=
  match s.phase with
  | .outside => (s.unsubscribe eventSub).map fun s' => s'.setPhase (.queues s'.queue)
  | _ => none

def init : IOCore :=
  { heap := Function.update (fun _ => none) eventSub (some (.new eventFd))
    made := 1
    tasks := []
    queue := [eventSub]
    size := 1
    stopped := false
    phase := .outside
    epoll := Epoll.empty.raise eventFd .read
    started := []
    log := [] }

def step (s : IOCore) : Action → Option IOCore
  | .subscribe fd => s.subscribe fd
  | .unsubscribe t => s.unsubscribe t
  | .stop => some s.stop
  | .wakeup => some s.wakeup
  | .await t kind answer => s.await t kind answer
  | .ret => s.ret
  | .roll => s.roll
  | .queue => s.processQueue
  | .wait fds => s.epollWait fds
  | .interrupted => s.interrupted
  | .event answer => s.handleEvent answer
  | .destroy => s.destroy
  | .kernel fd d => some { s with epoll := s.epoll.raise fd d }

end IOCore

end SystemProg.IoCore

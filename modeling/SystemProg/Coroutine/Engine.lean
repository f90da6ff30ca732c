import Mathlib.Logic.Function.Basic
import Mathlib.Tactic.Common

set_option autoImplicit false

-- `1/libcoro.cpp`. The functions that coroutines run are arbitrary, so the engine is stepped from
-- one of its calls to the next. A failed `assert`, a null dereference and `exit` end the program:
-- the functions answer `none` there. Each list of the engine is the sequence of its links, and a
-- link that is in no list is empty.

namespace SystemProg.Coroutine

abbrev CoroId := Nat

inductive CoroState where
  | running
  | suspended
  | finished
deriving DecidableEq, Repr

inductive CoroRef where
  | sched
  | coro (id : CoroId)
deriving DecidableEq, Repr

-- Where a coroutine continues when the engine jumps to its context. `F` are the places outside the
-- engine from which one of its functions was called.
inductive Context (F : Type) where
  -- It runs now, and what its `sigjmp_buf` holds is out of date.
  | active
  | start
  | restart
  | code
  | joining (target : CoroId)
  | frame (place : F)
deriving DecidableEq, Repr

structure Coro (F : Type) where
  state : CoroState
  ret : Nat
  func : Bool
  ctx : Context F
  joiner : Option CoroRef
deriving DecidableEq, Repr

structure Engine (F : Type) where
  coros : CoroId → Option (Coro F)
  spawned : Nat
  thisCoro : Option CoroRef
  runningNow : List CoroRef
  runningNext : List CoroId
  pool : List CoroId
  coroCount : Nat
  -- The coroutine that `siglongjmp` goes to, until it has control.
  jump : Option CoroRef

namespace Engine

variable {F : Type}

def create : Engine F :=
  { coros := fun _ => none
    spawned := 0
    thisCoro := none
    runningNow := []
    runningNext := []
    pool := []
    coroCount := 0
    jump := none }

def setCoro (e : Engine F) (c : CoroId) (coro : Coro F) : Engine F :=
  { e with coros := Function.update e.coros c (some coro) }

def Linked (e : Engine F) (c : CoroId) : Prop :=
  .coro c ∈ e.runningNow ∨ c ∈ e.runningNext ∨ c ∈ e.pool

instance (e : Engine F) (c : CoroId) : Decidable (e.Linked c) :=
  inferInstanceAs (Decidable (_ ∨ _))

-- `coro_engine_resume_next` up to its jump; the caller has saved the context it leaves.
def resumeNext (e : Engine F) : Option (Engine F) :=
  match e.runningNow, e.thisCoro with
  | next :: rest, some _ => some { e with runningNow := rest, thisCoro := none, jump := some next }
  | _, _ => none

def suspend (ctx : Context F) (e : Engine F) : Option (Engine F) :=
  match e.thisCoro with
  | some (.coro c) =>
      match e.coros c with
      | none => none
      | some coro =>
          if e.Linked c ∨ coro.state ≠ .running then none
          else (e.setCoro c { coro with state := .suspended, ctx := ctx }).resumeNext
  | _ => none

def yield (ctx : Context F) (e : Engine F) : Option (Engine F) :=
  match e.thisCoro with
  | some (.coro c) =>
      match e.coros c with
      | none => none
      | some coro =>
          if e.Linked c ∨ coro.state ≠ .running then none
          else
            let saved := e.setCoro c { coro with ctx := ctx }
            resumeNext { saved with runningNext := saved.runningNext ++ [c] }
  | _ => none

def wakeup (coro : CoroRef) (e : Engine F) : Option (Engine F) :=
  match coro with
  -- The scheduler's own state is never changed from RUNNING.
  | .sched => some e
  | .coro c =>
      match e.coros c with
      | none => none
      | some coro =>
          match coro.state with
          | .running => some e
          | .finished => some e
          | .suspended =>
              if e.Linked c then none
              else
                let woken := e.setCoro c { coro with state := .running }
                some { woken with runningNext := woken.runningNext ++ [c] }

-- One turn of the loop of `coro_engine_run`, up to the jump or to the return.
def runTurn (e : Engine F) : Option (Engine F) :=
  if e.runningNow ≠ [] then none
  else if e.runningNext = [] then some e
  else if e.thisCoro ≠ none then none
  else
    resumeNext { e with
      runningNow := e.runningNext.map .coro ++ [.sched]
      runningNext := []
      thisCoro := some .sched }

def landSched (e : Engine F) : Option (Engine F) :=
  if .sched ∈ e.runningNow ∨ e.thisCoro ≠ none ∨ e.runningNow ≠ [] then none
  else runTurn { e with jump := none }

-- A coroutine gets control, and goes on in the context it is given here.
def land (c : CoroId) (e : Engine F) : Option (Engine F × Context F) :=
  match e.coros c with
  | none => none
  | some coro =>
      let here := { e.setCoro c { coro with ctx := .active } with
        thisCoro := some (.coro c), jump := none }
      match coro.ctx with
      | .active => none
      | .start => some (here, .start)
      | .restart =>
          if e.Linked c ∨ e.thisCoro ≠ none ∨ coro.state ≠ .running ∨ coro.func = false then none
          else some (here, .restart)
      | ctx => if e.Linked c ∨ e.thisCoro ≠ none then none else some (here, ctx)

-- `coro_body` when the function has returned.
def finish (ret : Nat) (e : Engine F) : Option (Engine F) :=
  match e.thisCoro with
  | some (.coro c) =>
      match e.coros c with
      | none => none
      | some coro =>
          if coro.state ≠ .running then none
          else
            let done := e.setCoro c
              { coro with ret := ret, func := false, state := .finished, ctx := .restart }
            match coro.joiner with
            | none => done.resumeNext
            | some joiner => (done.wakeup joiner).bind resumeNext
  | _ => none

-- `coro_engine_spawn_new`, without the system calls that give the coroutine its stack.
def spawnNew (e : Engine F) : Engine F :=
  let coro : Coro F :=
    { state := .running, ret := 0, func := true, ctx := .start, joiner := none }
  { e.setCoro e.spawned coro with
    spawned := e.spawned + 1
    coroCount := e.coroCount + 1
    runningNext := e.runningNext ++ [e.spawned] }

def spawn (e : Engine F) : Option (Engine F) :=
  match e.pool with
  | [] => some e.spawnNew
  | c :: rest =>
      match e.coros c with
      | none => none
      | some coro =>
          let taken := { e.setCoro c { coro with func := true, state := .running } with
            pool := rest }
          if taken.Linked c then none
          else some { taken with runningNext := taken.runningNext ++ [c] }

-- The loop of `coro_engine_join` and what follows it, with the result once there is one.
def joinTurn (target : CoroId) (e : Engine F) : Option (Engine F × Option Nat) :=
  match e.coros target with
  | none => none
  | some coro =>
      if coro.state = .finished then
        if coro.joiner ≠ e.thisCoro ∨ e.Linked target then none
        else
          let joined := e.setCoro target { coro with joiner := none, ret := 0 }
          some ({ joined with pool := target :: joined.pool }, some coro.ret)
      else (e.suspend (.joining target)).map fun e => (e, none)

def join (target : CoroId) (e : Engine F) : Option (Engine F × Option Nat) :=
  match e.coros target with
  | none => none
  | some coro =>
      if coro.joiner ≠ none then none
      else (e.setCoro target { coro with joiner := e.thisCoro }).joinTurn target

end Engine

end SystemProg.Coroutine

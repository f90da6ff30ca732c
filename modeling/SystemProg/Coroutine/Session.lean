import SystemProg.Coroutine.Asserts
import SystemProg.Lib.Run

set_option autoImplicit false

-- The coroutines call nothing but the engine. Beside it stands who owns which coroutine: an object
-- that comes from the pool again is another incarnation, and a handle is that of one incarnation.

namespace SystemProg.Coroutine

structure Handle where
  coro : CoroId
  incarnation : Nat
deriving DecidableEq, Repr

-- Whether `coro_join` has been called with the handle of the last incarnation, and has returned.
inductive Phase where
  | unclaimed
  | claimed
  | joined
deriving DecidableEq, Repr

structure Life where
  phase : Phase
  incarnation : Nat
deriving DecidableEq, Repr

-- What `coro_new`, the functions of the coroutines and `coro_join` return, in this order.
inductive Record where
  | created (handle : Handle)
  | ended (handle : Handle) (ret : Nat)
  | joined (who : Option CoroRef) (handle : Handle) (ret : Nat)
deriving DecidableEq, Repr

-- A call of a coroutine, or of the main thread outside of `coro_engine_run`; `resume` is what
-- happens from a jump to the next call.
inductive Act where
  | resume
  | run
  | new
  | yield
  | suspend
  | wakeup (target : CoroId)
  | join (handle : Handle)
  | finish (ret : Nat)
deriving DecidableEq, Repr

structure Session where
  engine : Engine Empty
  lives : CoroId → Life
  -- The handle that a coroutine has called `coro_join` with.
  ticket : CoroId → Handle
  log : List Record

namespace Session

def init : Session :=
  { engine := .create
    lives := fun _ => { phase := .unclaimed, incarnation := 0 }
    ticket := fun _ => { coro := 0, incarnation := 0 }
    log := [] }

def handle (s : Session) (c : CoroId) : Handle :=
  { coro := c, incarnation := (s.lives c).incarnation }

@[simp] theorem handle_coro (s : Session) (c : CoroId) : (s.handle c).coro = c := rfl

def setPhase (s : Session) (c : CoroId) (phase : Phase) : Session :=
  { s with lives := Function.update s.lives c { s.lives c with phase := phase } }

def newHandle (s : Session) : Handle :=
  let c := s.engine.pool.headD s.engine.spawned
  { coro := c, incarnation := (s.lives c).incarnation + 1 }

def new (s : Session) : Option Session :=
  let handle := s.newHandle
  s.engine.spawn.map fun e =>
    { s with
      engine := e
      lives := Function.update s.lives handle.coro
        { phase := .unclaimed, incarnation := handle.incarnation }
      log := s.log ++ [.created handle] }

def finish (s : Session) (ret : Nat) : Option Session :=
  match s.engine.thisCoro with
  | some (.coro c) =>
      (s.engine.finish ret).map fun e =>
        { s with engine := e, log := s.log ++ [.ended (s.handle c) ret] }
  | _ => none

def joinResult (s : Session) (handle : Handle) (result : Engine Empty × Option Nat) : Session :=
  match result.2 with
  | none => { s with engine := result.1 }
  | some ret =>
      { s.setPhase handle.coro .joined with
        engine := result.1
        log := s.log ++ [.joined s.engine.thisCoro handle ret] }

def claim (s : Session) (handle : Handle) : Session :=
  match s.engine.thisCoro with
  | some (.coro a) =>
      { s.setPhase handle.coro .claimed with ticket := Function.update s.ticket a handle }
  | _ => s.setPhase handle.coro .claimed

def join (s : Session) (handle : Handle) : Option Session :=
  (s.engine.join handle.coro).map ((s.claim handle).joinResult handle)

def goOn (s : Session) (c : CoroId) : Context Empty → Option Session
  | .active => none
  | .start | .restart | .code => some s
  | .joining target => (s.engine.joinTurn target).map (s.joinResult (s.ticket c))

def resume (s : Session) : Option Session :=
  match s.engine.jump with
  | none => none
  | some .sched => s.engine.landSched.map fun e => { s with engine := e }
  | some (.coro c) =>
      match s.engine.land c with
      | none => none
      | some (e, ctx) => { s with engine := e }.goOn c ctx

def call (s : Session) : Act → Option Session
  | .resume => none
  | .run =>
      -- Coroutines do not run the scheduler that runs them.
      if s.engine.thisCoro ≠ none then none
      else s.engine.runTurn.map fun e => { s with engine := e }
  | .new => s.new
  | .yield => (s.engine.yield .code).map fun e => { s with engine := e }
  | .suspend => (s.engine.suspend .code).map fun e => { s with engine := e }
  | .wakeup target => (s.engine.wakeup (.coro target)).map fun e => { s with engine := e }
  | .join handle => s.join handle
  | .finish ret => s.finish ret

def step (s : Session) (act : Act) : Option Session :=
  if s.engine.jump = none then s.call act
  else if act = .resume then s.resume
  else none

def Open (s : Session) (handle : Handle) : Prop :=
  handle.coro < s.engine.spawned ∧ s.handle handle.coro = handle ∧
    (s.lives handle.coro).phase = .unclaimed

-- What the programs may do: a coroutine is joined once and not by itself, its handle is not joined
-- again after that, and only coroutines yield, suspend themselves and return.
def Permits (s : Session) : Act → Prop
  | .resume | .new => True
  | .run => s.engine.thisCoro = none
  | .yield | .suspend | .finish _ => s.engine.thisCoro ≠ none
  | .wakeup target => target < s.engine.spawned
  | .join handle => s.Open handle ∧ s.engine.thisCoro ≠ some (.coro handle.coro)

def Allowed (s : Session) (act : Act) : Prop :=
  (act = .resume ↔ s.engine.jump ≠ none) ∧ s.Permits act

instance (s : Session) (handle : Handle) : Decidable (s.Open handle) :=
  inferInstanceAs (Decidable (_ ∧ _))

instance (s : Session) : (act : Act) → Decidable (s.Permits act)
  | .resume | .new => inferInstanceAs (Decidable True)
  | .run => inferInstanceAs (Decidable (s.engine.thisCoro = none))
  | .yield | .suspend | .finish _ => inferInstanceAs (Decidable (s.engine.thisCoro ≠ none))
  | .wakeup target => inferInstanceAs (Decidable (target < s.engine.spawned))
  | .join _ => inferInstanceAs (Decidable (_ ∧ _))

instance (s : Session) (act : Act) : Decidable (s.Allowed act) :=
  inferInstanceAs (Decidable (_ ∧ _))

end Session

end SystemProg.Coroutine

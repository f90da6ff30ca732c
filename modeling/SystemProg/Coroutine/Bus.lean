import SystemProg.Coroutine.Engine

set_option autoImplicit false

-- `1/corobus.cpp`. Channel objects are addressed by the order of their creation, so a slot of a bus
-- that is used again holds another address. `coro_bus_delete` is left out: the buses live as long
-- as the run. Broadcasts and batches are compiled out. Descriptors and `channel_count` are `int`
-- there and have no bound here, as an overflow needs 2^31 channels at once.

namespace SystemProg.Coroutine

abbrev BusId := Nat
abbrev ChanId := Nat
abbrev Message := UInt32

inductive Side where
  | send
  | recv
deriving DecidableEq, Repr

def Side.other : Side → Side
  | .send => .recv
  | .recv => .send

structure Channel where
  sizeLimit : Nat
  closed : Bool
  queue : Side → List CoroId
  data : List Message
  freed : Bool

namespace Channel

-- The channel has a free place for a sender, or a message for a receiver.
def ready (chan : Channel) : Side → Bool
  | .send => chan.data.length < chan.sizeLimit
  | .recv => chan.data ≠ []

def setQueue (chan : Channel) (side : Side) (queue : List CoroId) : Channel :=
  { chan with queue := Function.update chan.queue side queue }

end Channel

inductive ErrorCode where
  | none
  | noChannel
  | wouldBlock
  | notImplemented
deriving DecidableEq, Repr

inductive BusOp where
  | send (data : Message)
  | recv
deriving DecidableEq, Repr

def BusOp.side : BusOp → Side
  | .send _ => .send
  | .recv => .recv

-- A call of one of the four functions that move a message; no bus is `nullptr`.
structure BusCall where
  op : BusOp
  blocking : Bool
  bus : Option BusId
  channel : Int
deriving DecidableEq, Repr

def BusCall.side (call : BusCall) : Side := call.op.side

-- Where the bus calls the engine: in `wakeup_queue_suspend_this` for the queue of a channel, or in
-- `coro_bus_channel_close` before it deletes the channel.
inductive Place where
  | waiting (call : BusCall) (chan : ChanId)
  | closing (chan : ChanId)
deriving DecidableEq, Repr

-- What the calls return, in their order, by whom: `sent` and `received` return 0, the latter with
-- what it stores in its output variable, `refused` returns -1 and stores nothing.
inductive Event where
  | sent (coro : Option CoroRef) (call : BusCall) (chan : ChanId)
  | received (coro : Option CoroRef) (call : BusCall) (chan : ChanId) (data : Option Message)
  | refused (coro : Option CoroRef) (call : BusCall) (code : ErrorCode)
  | opened (bus : BusId) (channel : Nat) (chan : ChanId)
  | joined (coro : Option CoroRef) (target : CoroId) (ret : Nat)
deriving DecidableEq, Repr

-- A coroutine, or the main thread outside of `coro_engine_run`, makes a call; `resume` is what
-- happens from a jump to the next call.
inductive Action where
  | resume
  | run
  | new
  | yield
  | suspend
  | wakeup (target : CoroId)
  | join (target : CoroId)
  | finish (ret : Nat)
  | busNew
  | open_ (bus : Option BusId) (sizeLimit : Nat)
  | close (bus : Option BusId) (channel : Int)
  | send (bus : Option BusId) (channel : Int) (data : Message)
  | trySend (bus : Option BusId) (channel : Int) (data : Message)
  | recv (bus : Option BusId) (channel : Int)
  | tryRecv (bus : Option BusId) (channel : Int)
deriving DecidableEq, Repr

def Action.busCall : Action → Option BusCall
  | .send bus channel data =>
      some { op := .send data, blocking := true, bus := bus, channel := channel }
  | .trySend bus channel data =>
      some { op := .send data, blocking := false, bus := bus, channel := channel }
  | .recv bus channel => some { op := .recv, blocking := true, bus := bus, channel := channel }
  | .tryRecv bus channel => some { op := .recv, blocking := false, bus := bus, channel := channel }
  | _ => none

structure Machine where
  engine : Engine Place
  buses : List (List (Option ChanId))
  chans : ChanId → Option Channel
  opened : Nat
  errno : ErrorCode
  log : List Event

namespace Machine

def init : Machine :=
  { engine := .create
    buses := []
    chans := fun _ => none
    opened := 0
    errno := .none
    log := [] }

def setChan (s : Machine) (id : ChanId) (chan : Channel) : Machine :=
  { s with chans := Function.update s.chans id (some chan) }

-- `bus->channels[channel]` behind the checks that each function makes; `none` is a bus that there
-- is not.
def findChannel (s : Machine) (bus : Option BusId) (channel : Int) : Option (Option ChanId) :=
  match bus with
  | none => some none
  | some bus =>
      match s.buses[bus]? with
      | none => none
      | some channels => some (if channel < 0 then none else channels[channel.toNat]?.join)

def refuse (s : Machine) (call : BusCall) (code : ErrorCode) : Machine :=
  { s with errno := code, log := s.log ++ [.refused s.engine.thisCoro call code] }

def wakeupFirst (queue : List CoroId) (e : Engine Place) : Option (List CoroId × Engine Place) :=
  match queue with
  | [] => some ([], e)
  | c :: rest => (e.wakeup (.coro c)).map fun e => (rest, e)

-- `wakeup_queue_suspend_this` up to its `coro_suspend`.
def suspendThis (s : Machine) (call : BusCall) (id : ChanId) (chan : Channel) : Option Machine :=
  match s.engine.thisCoro with
  | some (.coro c) =>
      (s.engine.suspend (.frame (.waiting call id))).map fun e =>
        { s.setChan id (chan.setQueue call.side (chan.queue call.side ++ [c])) with engine := e }
  | _ => none

def transfer (who : Option CoroRef) (call : BusCall) (id : ChanId) (chan : Channel) :
    Channel × Event :=
  match call.op with
  | .send data => ({ chan with data := chan.data ++ [data] }, .sent who call id)
  | .recv => ({ chan with data := chan.data.tail }, .received who call id chan.data.head?)

-- The body of the loop of `coro_bus_send` and of `coro_bus_recv`. The two `try` functions have the
-- same body but for its last statement, where they return an error.
def busTurn (s : Machine) (call : BusCall) : Option Machine :=
  match s.findChannel call.bus call.channel with
  | none => none
  | some none => some (s.refuse call .noChannel)
  | some (some id) =>
      match s.chans id with
      | none => none
      | some chan =>
          if chan.freed then none
          else if chan.closed then some (s.refuse call .noChannel)
          else if chan.ready call.side then
            let moved := transfer s.engine.thisCoro call id chan
            (wakeupFirst (moved.1.queue call.side.other) s.engine).map fun (queue, e) =>
              { s.setChan id (moved.1.setQueue call.side.other queue) with
                engine := e, errno := .none, log := s.log ++ [moved.2] }
          else if call.blocking then s.suspendThis call id chan
          else some (s.refuse call .wouldBlock)

def coroBusSend (s : Machine) (bus : Option BusId) (channel : Int) (data : Message) :
    Option Machine :=
  s.busTurn { op := .send data, blocking := true, bus := bus, channel := channel }

def coroBusTrySend (s : Machine) (bus : Option BusId) (channel : Int) (data : Message) :
    Option Machine :=
  s.busTurn { op := .send data, blocking := false, bus := bus, channel := channel }

def coroBusRecv (s : Machine) (bus : Option BusId) (channel : Int) : Option Machine :=
  s.busTurn { op := .recv, blocking := true, bus := bus, channel := channel }

def coroBusTryRecv (s : Machine) (bus : Option BusId) (channel : Int) : Option Machine :=
  s.busTurn { op := .recv, blocking := false, bus := bus, channel := channel }

-- The `rlist_del_entry` of `wakeup_queue_suspend_this`: an entry that has been shifted from its
-- queue is linked to itself, and one that has not must not be in a deleted channel.
def unlink (s : Machine) (c : CoroId) (call : BusCall) (id : ChanId) : Option Machine :=
  match s.chans id with
  | none => none
  | some chan =>
      if c ∈ chan.queue call.side then
        if chan.freed then none
        else some (s.setChan id (chan.setQueue call.side ((chan.queue call.side).erase c)))
      else some s

def setChannels (s : Machine) (bus : BusId) (channels : List (Option ChanId)) : Machine :=
  { s with buses := s.buses.set bus channels }

def coroBusNew (s : Machine) : Machine := { s with buses := s.buses ++ [[]], errno := .none }

-- The first free slot of the bus, or the one behind its last.
def freeSlot (channels : List (Option ChanId)) : Nat := channels.idxOf none

def coroBusChannelOpen (s : Machine) (bus : Option BusId) (sizeLimit : Nat) : Option Machine :=
  match bus with
  | none => none
  | some bus =>
      match s.buses[bus]? with
      | none => none
      | some channels =>
          let slot := freeSlot channels
          let channels' :=
            if slot < channels.length then channels.set slot (some s.opened)
            else channels ++ [some s.opened]
          let chan : Channel :=
            { sizeLimit := sizeLimit, closed := false, queue := fun _ => [], data := [],
              freed := false }
          some { (s.setChan s.opened chan).setChannels bus channels' with
            opened := s.opened + 1
            errno := .none
            log := s.log ++ [.opened bus slot s.opened] }

def wakeupAll : List CoroId → Engine Place → Option (Engine Place)
  | [], e => some e
  | c :: rest, e => (e.wakeup (.coro c)).bind (wakeupAll rest)

def clearSlot (s : Machine) (bus : Option BusId) (channel : Int) : Machine :=
  match bus with
  | none => s
  | some bus =>
      match s.buses[bus]? with
      | none => s
      | some channels => s.setChannels bus (channels.set channel.toNat none)

-- `coro_bus_channel_close` up to its `coro_yield`.
def coroBusChannelClose (s : Machine) (bus : Option BusId) (channel : Int) : Option Machine :=
  match s.findChannel bus channel with
  | none => none
  | some none => some s
  | some (some id) =>
      match s.chans id with
      | none => none
      | some chan =>
          if chan.freed then none
          else
            let closed := (s.setChan id { chan with closed := true }).clearSlot bus channel
            ((wakeupAll (chan.queue .send) closed.engine).bind fun e =>
              (wakeupAll (chan.queue .recv) e).bind (Engine.yield (.frame (.closing id)))).map
                fun e => { closed with engine := e }

def deleteChannel (s : Machine) (id : ChanId) : Option Machine :=
  match s.chans id with
  | none => none
  | some chan => if chan.freed then none else some (s.setChan id { chan with freed := true })

-- `coro_join` has a result, or the coroutine waits for it.
def joinResult (s : Machine) (target : CoroId) (result : Engine Place × Option Nat) : Machine :=
  match result.2 with
  | none => { s with engine := result.1 }
  | some ret =>
      { s with
        engine := result.1
        log := s.log ++ [.joined s.engine.thisCoro target ret] }

-- A coroutine goes on where it gave up control.
def goOn (s : Machine) (c : CoroId) : Context Place → Option Machine
  | .active => none
  | .start | .restart | .code => some s
  | .joining target => (s.engine.joinTurn target).map (s.joinResult target)
  | .frame (.waiting call id) => (s.unlink c call id).bind fun s => s.busTurn call
  | .frame (.closing id) => s.deleteChannel id

def resume (s : Machine) : Option Machine :=
  match s.engine.jump with
  | none => none
  | some .sched => s.engine.landSched.map fun e => { s with engine := e }
  | some (.coro c) =>
      match s.engine.land c with
      | none => none
      | some (e, ctx) => { s with engine := e }.goOn c ctx

def call (s : Machine) : Action → Option Machine
  | .resume => none
  | .run =>
      -- Coroutines do not run the scheduler that runs them.
      if s.engine.thisCoro ≠ none then none
      else s.engine.runTurn.map fun e => { s with engine := e }
  | .new => s.engine.spawn.map fun e => { s with engine := e }
  | .yield => (s.engine.yield .code).map fun e => { s with engine := e }
  | .suspend => (s.engine.suspend .code).map fun e => { s with engine := e }
  | .wakeup target => (s.engine.wakeup (.coro target)).map fun e => { s with engine := e }
  | .join target => (s.engine.join target).map (s.joinResult target)
  | .finish ret => (s.engine.finish ret).map fun e => { s with engine := e }
  | .busNew => some s.coroBusNew
  | .open_ bus sizeLimit => s.coroBusChannelOpen bus sizeLimit
  | .close bus channel => s.coroBusChannelClose bus channel
  | .send bus channel data => s.coroBusSend bus channel data
  | .trySend bus channel data => s.coroBusTrySend bus channel data
  | .recv bus channel => s.coroBusRecv bus channel
  | .tryRecv bus channel => s.coroBusTryRecv bus channel

def step (s : Machine) (action : Action) : Option Machine :=
  if s.engine.jump = none then s.call action
  else if action = .resume then s.resume
  else none

end Machine

end SystemProg.Coroutine

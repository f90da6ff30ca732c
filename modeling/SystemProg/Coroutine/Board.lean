import SystemProg.Coroutine.Order

set_option autoImplicit false

-- What a user of the bus sees: tables of bounded queues, on which every call is done at once. A
-- call that has to wait has no answer yet, and changes nothing.

namespace SystemProg.Coroutine

structure Mailbox where
  sizeLimit : Nat
  data : List Message
deriving DecidableEq, Repr

abbrev Board := List (List (Option Mailbox))

inductive BoardOp where
  | busNew
  | open_ (bus : Option BusId) (sizeLimit : Nat)
  | close (bus : Option BusId) (channel : Int)
  | move (who : Option CoroRef) (call : BusCall)
deriving DecidableEq, Repr

-- `moved` returns 0, with the message that has been taken if the call is a receive.
inductive Answer where
  | opened (bus : BusId) (channel : Nat)
  | moved (who : Option CoroRef) (call : BusCall) (data : Option Message)
  | refused (who : Option CoroRef) (call : BusCall) (code : ErrorCode)
deriving DecidableEq, Repr

def Event.answer : Event → Option Answer
  | .sent who call _ => some (.moved who call none)
  | .received who call _ data => some (.moved who call data)
  | .refused who call code => some (.refused who call code)
  | .opened bus channel _ => some (.opened bus channel)
  | .joined .. => none

-- Nothing where the operation has to wait.
def Mailbox.serve (box : Mailbox) : BusOp → Option (Option Message × Mailbox)
  | .send data =>
      if box.data.length < box.sizeLimit then some (none, { box with data := box.data ++ [data] })
      else none
  | .recv =>
      match box.data with
      | [] => none
      | first :: rest => some (some first, { box with data := rest })

namespace Board

def find (board : Board) (bus : Option BusId) (channel : Int) : Option Mailbox :=
  match bus with
  | none => none
  | some bus =>
      if channel < 0 then none else (board[bus]?.bind fun row => row[channel.toNat]?).join

def put (board : Board) (bus : Option BusId) (channel : Int) (box : Option Mailbox) : Board :=
  match bus with
  | none => board
  | some bus =>
      match board[bus]? with
      | none => board
      | some row => board.set bus (row.set channel.toNat box)

def open_ (board : Board) (bus : Option BusId) (sizeLimit : Nat) : List Answer × Board :=
  match bus with
  | none => ([], board)
  | some bus =>
      match board[bus]? with
      | none => ([], board)
      | some row =>
          let slot := row.findIdx Option.isNone
          let box : Mailbox := { sizeLimit := sizeLimit, data := [] }
          let row' := if slot < row.length then row.set slot (some box) else row ++ [some box]
          ([.opened bus slot], board.set bus row')

def move (board : Board) (who : Option CoroRef) (call : BusCall) : List Answer × Board :=
  match board.find call.bus call.channel with
  | none => ([.refused who call .noChannel], board)
  | some box =>
      match box.serve call.op with
      | some (data, box') =>
          ([.moved who call data], board.put call.bus call.channel (some box'))
      | none => (if call.blocking then [] else [.refused who call .wouldBlock], board)

def perform (board : Board) : BoardOp → List Answer × Board
  | .busNew => ([], board ++ [[]])
  | .open_ bus sizeLimit => board.open_ bus sizeLimit
  | .close bus channel =>
      ([], if board.find bus channel = none then board else board.put bus channel none)
  | .move who call => board.move who call

end Board

namespace Machine

def mailbox (s : Machine) (id : ChanId) : Option Mailbox :=
  (s.chans id).map fun chan => { sizeLimit := chan.sizeLimit, data := chan.data }

-- What the descriptors show of the machine: no queue of coroutines, and no channel that is being
-- closed.
def board (s : Machine) : Board := s.buses.map fun channels => channels.map (·.bind s.mailbox)

def answers (s : Machine) : List Answer := s.log.filterMap Event.answer

-- The call that the step tries to do: a new one, or the one in which the coroutine that gets
-- control was suspended.
def request (s : Machine) : Action → Option BoardOp
  | .resume =>
      match s.engine.jump with
      | some (.coro c) => (s.pendingCall c).head?.map (.move (some (.coro c)))
      | _ => none
  | .busNew => some .busNew
  | .open_ bus sizeLimit => some (.open_ bus sizeLimit)
  | .close bus channel => some (.close bus channel)
  | action => action.busCall.map (.move s.engine.thisCoro)

def requests : Machine → List Action → List BoardOp
  | _, [] => []
  | s, action :: rest =>
      match s.step action with
      | none => []
      | some next => (s.request action).toList ++ next.requests rest

end Machine

end SystemProg.Coroutine

import Mathlib.Logic.Function.Basic
import SystemProg.Lib.Run

set_option autoImplicit false

-- The server of `advanced/boost_chat`. A strand runs one handler at a time, so a handler is one
-- step. The handlers that the repository leaves to be written abort the program. The sockets' own
-- calls succeed.

namespace SystemProg.BoostChat

abbrev PeerId := Nat
abbrev Bytes := List UInt8

-- A message, by a number: the server passes it on as it is.
abbrev ChatMessage := Nat

inductive ServerState where
  | new
  | listen
  | stopped
deriving DecidableEq, Repr

inductive PeerState where
  | connected
  | stopped
deriving DecidableEq, Repr

inductive PeerHandler where
  | onNewFeed (text : Bytes)
  | recv
  | onRecv (err : Bool) (size : Nat)
  | send
  | onSend (err : Bool) (size : Nat)
  | stop
deriving DecidableEq, Repr

inductive ServerHandler where
  | accept
  | onAccept (err : Bool)
  | stop
  | onNewRequest (req : Nat)
  | peerOnRecv (msg : ChatMessage)
  | peerOnClose (peer : PeerId)
  | onNewFeed (text : Bytes)
deriving DecidableEq, Repr

inductive Handler where
  | peer (p : PeerId) (handler : PeerHandler)
  | server (handler : ServerHandler)
deriving DecidableEq, Repr

inductive Fault where
  | abort
  | assertion
  | nullServer
deriving DecidableEq, Repr

-- `sockOpen` says that `m_sock` is open, `server` that `m_server` is not null.
structure Peer where
  state : PeerState
  sockOpen : Bool
  server : Bool
deriving DecidableEq, Repr

structure Server where
  state : ServerState
  sockOpen : Bool
  peers : List PeerId
  reqs : List Nat
  inMsgs : List ChatMessage

-- Peers are named by the order of their connections; `posted` is all that has been posted to the
-- strands, `served` the requests that have been answered.
structure System where
  server : Server
  peers : PeerId → Option Peer
  accepted : Nat
  posted : List Handler
  served : List (Nat × ChatMessage)

inductive Action where
  | start
  | stop
  | recvAsync (req : Nat)
  | feedAsync (text : Bytes)
  | handle (handler : Handler)
deriving DecidableEq, Repr

namespace System

def init : System where
  server := { state := .new, sockOpen := true, peers := [], reqs := [], inMsgs := [] }
  peers := fun _ => none
  accepted := 0
  posted := []
  served := []

def post (s : System) (handler : Handler) : System :=
  { s with posted := s.posted ++ [handler] }

def setPeer (s : System) (p : PeerId) (peer : Peer) : System :=
  { s with peers := Function.update s.peers p (some peer) }

def setServer (s : System) (server : Server) : System := { s with server := server }

def chatServerPeer : Peer := { state := .connected, sockOpen := true, server := true }

def peerStart (s : System) (p : PeerId) : System := s.post (.peer p .recv)

def peerStop (s : System) (p : PeerId) : System := s.post (.peer p .stop)

def peerFeedAsync (s : System) (text : Bytes) (p : PeerId) : System :=
  s.post (.peer p (.onNewFeed text))

def peerOnClose (s : System) (p : PeerId) : System := s.post (.server (.peerOnClose p))

-- `priv_in_strand_recv` and `priv_in_strand_send`, which test the state and are left to be written.
def inStrandUnlessStopped (s : System) (peer : Peer) : Except Fault System :=
  if peer.state = .stopped then .ok s else .error .abort

def peerInStrandStop (s : System) (p : PeerId) (peer : Peer) : Except Fault System :=
  if peer.state ≠ .connected then .ok s
  else if peer.server then
    .ok ((s.peerOnClose p).setPeer p { state := .connected, sockOpen := false, server := false })
  else .error .nullServer

def peerHandle (s : System) (p : PeerId) (peer : Peer) : PeerHandler → Except Fault System
  | .onNewFeed _ => .error .abort
  | .recv => s.inStrandUnlessStopped peer
  | .onRecv _ _ => .error .abort
  | .send => s.inStrandUnlessStopped peer
  | .onSend _ _ => .error .abort
  | .stop => s.peerInStrandStop p peer

-- `priv_in_strand_accept`, up to the connection for which it waits.
def inStrandAccept (s : System) : Except Fault System :=
  if s.server.state = .listen then .ok s else .error .assertion

def inStrandOnAccept (s : System) (err : Bool) : Except Fault System :=
  if s.server.state = .stopped then .ok s
  else if err then .error .abort
  else
    let p := s.accepted
    let created := { s.setPeer p chatServerPeer with accepted := p + 1 }
    let started := created.peerStart p
    (started.setServer { s.server with peers := s.server.peers ++ [p] }).inStrandAccept

def serverInStrandStop (s : System) : System :=
  if s.server.state ≠ .listen then s
  else
    let stopped := { s.server with state := .stopped, sockOpen := false, peers := [] }
    (s.server.peers.foldl peerStop s).setServer stopped

def inStrandOnNewRequest (s : System) (req : Nat) : System :=
  match s.server.reqs, s.server.inMsgs with
  | [], msg :: rest =>
      { s.setServer { s.server with inMsgs := rest } with served := s.served ++ [(req, msg)] }
  | _, _ => s.setServer { s.server with reqs := s.server.reqs ++ [req] }

def inStrandPeerOnRecv (s : System) (msg : ChatMessage) : System :=
  s.setServer { s.server with inMsgs := s.server.inMsgs ++ [msg] }

def inStrandPeerOnClose (s : System) (p : PeerId) : Except Fault System :=
  if p ∈ s.server.peers then
    .ok (s.setServer { s.server with peers := s.server.peers.erase p })
  else if s.server.state = .stopped then .ok s
  else .error .abort

def inStrandOnNewFeed (s : System) (text : Bytes) : System :=
  s.server.peers.foldl (fun s p => s.peerFeedAsync text p) s

def serverHandle (s : System) : ServerHandler → Except Fault System
  | .accept => s.inStrandAccept
  | .onAccept err => s.inStrandOnAccept err
  | .stop => .ok s.serverInStrandStop
  | .onNewRequest req => .ok (s.inStrandOnNewRequest req)
  | .peerOnRecv msg => .ok (s.inStrandPeerOnRecv msg)
  | .peerOnClose p => s.inStrandPeerOnClose p
  | .onNewFeed text => .ok (s.inStrandOnNewFeed text)

-- `start` without its calls of the acceptor.
def start (s : System) : Except Fault System :=
  if s.server.state = .new then
    .ok ((s.setServer { s.server with state := .listen }).post (.server .accept))
  else .error .assertion

-- Of a peer that there is not, no handler runs.
def handle (s : System) : Handler → Option (Except Fault System)
  | .peer p handler => (s.peers p).map fun peer => s.peerHandle p peer handler
  | .server handler => some (s.serverHandle handler)

def step (s : System) : Action → Option System
  | .start => s.start.toOption
  | .stop => some (s.post (.server .stop))
  | .recvAsync req => some (s.post (.server (.onNewRequest req)))
  | .feedAsync text => some (s.post (.server (.onNewFeed text)))
  | .handle handler => (s.handle handler).bind Except.toOption

end System

end SystemProg.BoostChat

import SystemProg.Chat.Text

set_option autoImplicit false

-- `5/chat_client.cpp` and `5/chat_server.cpp`. What the system calls answer is a parameter of each
-- function: `none` means that the answers end before the function does, or that the system does not
-- give them. A connection keeps, seen from one end, the bytes that `send` has taken and the bytes
-- that `recv` has given.

namespace SystemProg.Chat

-- `chat_errcode`, and 0
inductive Errcode where
  | ok
  | invalidArgument
  | timeout
  | portBusy
  | noAddr
  | alreadyStarted
  | notImplemented
  | notStarted
  | sys
deriving DecidableEq

structure Connection where
  sent : Text
  received : Text
deriving DecidableEq

def Connection.new : Connection := { sent := [], received := [] }

-- The flags are 0, so a `send` on a broken connection may also raise SIGPIPE; that ends the process
-- and is not modelled. `failed` is an error that is returned.
inductive SendResult where
  | sent (count : Nat)
  | interrupted
  | wouldBlock
  | failed
deriving DecidableEq

inductive RecvResult where
  | received (bytes : Text)
  | ended
  | interrupted
  | wouldBlock
  | failed
deriving DecidableEq

-- `output_buffer` and `output_sent`
structure Output where
  buffer : Text
  sent : Nat
deriving DecidableEq

namespace Output

def empty : Output := { buffer := [], sent := 0 }

def append (output : Output) (text : Text) : Output :=
  { output with buffer := output.buffer ++ text }

def unsent (output : Output) : Text := output.buffer.drop output.sent

-- The buffer is cleared once all of it has been sent.
def settle (output : Output) : Output :=
  if output.sent = output.buffer.length then empty else output

end Output

inductive Flushed where
  | emptied
  | blocked
  | broken
deriving DecidableEq

-- The loop of `flush_output` and of `flush_peer_output`, with the answers that it leaves.
def sendAll (output : Output) (conn : Connection) :
    List SendResult → Option (Flushed × Output × Connection × List SendResult)
  | [] => if output.unsent = [] then some (.emptied, output, conn, []) else none
  | result :: rest =>
      if output.unsent = [] then some (.emptied, output, conn, result :: rest)
      else
        match result with
        | .sent count =>
            -- 0 bytes are taken for a failure.
            if count = 0 then some (.broken, output, conn, rest)
            else if count ≤ output.unsent.length then
              sendAll { output with sent := output.sent + count }
                { conn with sent := conn.sent ++ output.unsent.take count } rest
            else none
        | .interrupted => sendAll output conn rest
        | .wouldBlock => some (.blocked, output, conn, rest)
        | .failed => some (.broken, output, conn, rest)

-- `sizeof(buf)`
def chunkSize : Nat := 1024

inductive Received where
  | drained
  | ended
  | failed
deriving DecidableEq

-- The loop around `recv`, with what `input_buffer` holds after it.
def recvAll (buffer : Text) (conn : Connection) :
    List RecvResult → Option (Received × Text × Connection)
  | [] => none
  | .received bytes :: rest =>
      if bytes ≠ [] ∧ bytes.length ≤ chunkSize then
        recvAll (buffer ++ bytes) { conn with received := conn.received ++ bytes } rest
      else none
  | .interrupted :: rest => recvAll buffer conn rest
  | .wouldBlock :: _ => some (.drained, buffer, conn)
  | .ended :: _ => some (.ended, buffer, conn)
  | .failed :: _ => some (.failed, buffer, conn)

structure Client where
  socket : Option Connection
  inputBuffer : Text
  messages : List Message
  output : Output
  name : Text
  nameSent : Bool
  -- Not in the source: what has been fed and what has been popped.
  fed : Text
  popped : List Message
deriving DecidableEq

namespace Client

def chatClientNew (name : Text) : Client :=
  { socket := none
    inputBuffer := []
    messages := []
    output := .empty
    name := name
    nameSent := false
    fed := []
    popped := [] }

inductive ConnectResult where
  | unresolved
  | noSocket
  | refused
  | connected
deriving DecidableEq

def chatClientConnect (client : Client) (addr : Text) (result : ConnectResult) :
    Errcode × Client :=
  if client.socket.isSome then (.alreadyStarted, client)
  else
    match find [colon] addr with
    | none => (.noAddr, client)
    | some _ =>
        match result with
        | .unresolved => (.noAddr, client)
        | .noSocket | .refused => (.sys, client)
        | .connected => (.ok, { client with socket := some .new })

def chatClientPopNext (client : Client) : Option Message × Client :=
  match client.messages with
  | [] => (none, client)
  | message :: rest =>
      (some message, { client with messages := rest, popped := client.popped ++ [message] })

def flushOutput (client : Client) (sends : List SendResult) :
    Option (Client × List SendResult) :=
  match client.socket with
  | none => some (client, sends)
  | some conn =>
      (sendAll client.output conn sends).map fun done =>
        match done.1 with
        | .broken => ({ client with output := done.2.1, socket := none }, done.2.2.2)
        | _ =>
            ({ client with output := done.2.1.settle, socket := some done.2.2.1 }, done.2.2.2)

-- The loop around `extract_message`; a message takes at least one byte of the buffer.
def takeMessages : Nat → Client → Client
  | 0, client => client
  | fuel + 1, client =>
      match extractMessage client.inputBuffer with
      | none => client
      | some (msg, rest) =>
          let client := { client with inputBuffer := rest }
          if trim msg = [] then takeMessages fuel client
          else
            takeMessages fuel
              { client with messages := client.messages ++ [parseMessage (trim msg)] }

-- What is done for POLLIN; the flag is false when the connection has been closed.
def receive (client : Client) (conn : Connection) (recvs : List RecvResult) :
    Option (Bool × Client) :=
  (recvAll client.inputBuffer conn recvs).map fun done =>
    match done.1 with
    | .drained =>
        (true, takeMessages done.2.1.length
          { client with inputBuffer := done.2.1, socket := some done.2.2 })
    | _ => (false, { client with inputBuffer := done.2.1, socket := none })

inductive PollResult where
  | failed
  | timedOut
  | ready (broken input output : Bool)
deriving DecidableEq

-- POLLOUT, and the flush that follows it in any case.
def flushTwice (client : Client) (output : Bool) (sends : List SendResult) : Option Client :=
  (if output then client.flushOutput sends else some (client, sends)).bind fun done =>
    if done.1.socket.isSome ∧ done.1.output.buffer ≠ [] then
      (done.1.flushOutput done.2).map Prod.fst
    else some done.1

def chatClientUpdate (client : Client) (poll : PollResult) (recvs : List RecvResult)
    (sends : List SendResult) : Option (Errcode × Client) :=
  match client.socket with
  | none => some (.notStarted, client)
  | some conn =>
      match poll with
      | .failed => some (.sys, client)
      | .timedOut => some (.timeout, client)
      | .ready broken input output =>
          if broken then some (.sys, { client with socket := none })
          else
            (if input then client.receive conn recvs else some (true, client)).bind fun done =>
              if done.1 then (done.2.flushTwice output sends).map fun client => (.ok, client)
              else some (.sys, done.2)

-- The name goes out in front of the first message.
def sendName (client : Client) : Client :=
  if client.nameSent = false ∧ client.name ≠ [] then
    { client with output := client.output.append (client.name ++ [newline]), nameSent := true }
  else client

def chatClientFeed (client : Client) (msg : Text) (sends : List SendResult) :
    Option (Errcode × Client) :=
  if client.socket = none then some (.notStarted, client)
  else if msg = [] then some (.ok, client)
  else
    let named := client.sendName
    let fed := { named with output := named.output.append msg, fed := named.fed ++ msg }
    (fed.flushOutput sends).map fun done =>
      (if done.1.socket = none then .sys else .ok, done.1)

end Client

structure Peer where
  socket : Option Connection
  inputBuffer : Text
  output : Output
  name : Text
  nameReceived : Bool
  -- Not in the source: the client, and how many messages had been queued when it was accepted.
  client : Nat
  since : Nat
deriving DecidableEq

def Peer.new (client since : Nat) : Peer :=
  { socket := some .new
    inputBuffer := []
    output := .empty
    name := []
    nameReceived := false
    client := client
    since := since }

def flushPeerOutput (peer : Peer) (sends : List SendResult) : Option (Peer × List SendResult) :=
  match peer.socket with
  | none => some (peer, sends)
  | some conn =>
      (sendAll peer.output conn sends).map fun done =>
        match done.1 with
        | .broken => ({ peer with output := done.2.1, socket := none }, done.2.2.2)
        | _ => ({ peer with output := done.2.1.settle, socket := some done.2.2.1 }, done.2.2.2)

structure Server where
  -- The listening socket and the epoll descriptor are there.
  listening : Bool
  peers : List Peer
  messages : List Message
  inputBuffer : Text
  -- Not in the source: what has been queued, with the peer it is from, and what has been popped.
  log : List (Option Nat × Message)
  popped : List Message
deriving DecidableEq

namespace Server

def chatServerNew : Server :=
  { listening := false
    peers := []
    messages := []
    inputBuffer := []
    log := []
    popped := [] }

inductive ListenResult where
  | failed
  | busy
  | listening
deriving DecidableEq

def chatServerListen (server : Server) (result : ListenResult) : Errcode × Server :=
  if server.listening then (.alreadyStarted, server)
  else
    match result with
    | .failed => (.sys, server)
    | .busy => (.portBusy, server)
    | .listening => (.ok, { server with listening := true })

def chatServerPopNext (server : Server) : Option Message × Server :=
  match server.messages with
  | [] => (none, server)
  | message :: rest =>
      (some message, { server with messages := rest, popped := server.popped ++ [message] })

-- `unset` and `unwatched`: `fcntl` and `epoll_ctl` have failed for the new socket.
inductive AcceptResult where
  | accepted (client : Nat)
  | interrupted
  | wouldBlock
  | failed
  | unset
  | unwatched
deriving DecidableEq

def acceptPendingClients (server : Server) : List AcceptResult → Option (Errcode × Server)
  | [] => none
  | .accepted client :: rest =>
      acceptPendingClients
        { server with peers := server.peers ++ [Peer.new client server.log.length] } rest
  | .interrupted :: rest => acceptPendingClients server rest
  | .wouldBlock :: _ => some (.ok, server)
  | .failed :: _ | .unset :: _ | .unwatched :: _ => some (.sys, server)

def setPeer (server : Server) (k : Nat) (peer : Peer) : Server :=
  { server with peers := server.peers.set k peer }

-- The loop over the peers, from the one at `k` on; the peer that the line is from is left out.
def broadcast (source : Option Nat) (line : Text) :
    Nat → List Peer → List SendResult → Option (List Peer × List SendResult)
  | _, [], sends => some ([], sends)
  | k, peer :: rest, sends =>
      (if peer.socket = none ∨ source = some k then some (peer, sends)
        else flushPeerOutput { peer with output := peer.output.append line } sends).bind
          fun first =>
            (broadcast source line (k + 1) rest first.2).map fun others =>
              (first.1 :: others.1, others.2)

def queue (server : Server) (source : Option Nat) (message : Message) : Server :=
  { server with
    messages := server.messages ++ [message]
    log := server.log ++ [(source, message)] }

def fullMsg (peer : Peer) (msg : Text) : Text :=
  if peer.nameReceived ∧ peer.name ≠ [] then messageLine peer.name msg else msg ++ [newline]

-- The loop around `extract_message` of a peer's event, with the flag for progress.
def takeLines (k : Nat) : Nat → Server → List SendResult → Bool →
    Option (Server × List SendResult × Bool)
  | 0, server, sends, progress => some (server, sends, progress)
  | fuel + 1, server, sends, progress =>
      match server.peers[k]? with
      | none => none
      | some peer =>
          match extractMessage peer.inputBuffer with
          | none => some (server, sends, progress)
          | some (msg, rest) =>
              let peer := { peer with inputBuffer := rest }
              if trim msg = [] then takeLines k fuel (server.setPeer k peer) sends progress
              else if peer.nameReceived = false then
                takeLines k fuel
                  (server.setPeer k { peer with name := trim msg, nameReceived := true }) sends
                  progress
              else
                let server := (server.setPeer k peer).queue (some k)
                  { author := peer.name, data := trim msg }
                (broadcast (some k) (fullMsg peer (trim msg)) 0 server.peers sends).bind
                  fun done => takeLines k fuel { server with peers := done.1 } done.2 true

inductive Event where
  | listening (accepts : List AcceptResult)
  | peer (k : Nat) (broken input output : Bool) (recvs : List RecvResult)
deriving DecidableEq

-- What is done for EPOLLIN; the flag is false when `chat_server_update` returns.
def peerInput (server : Server) (k : Nat) (peer : Peer) (conn : Connection)
    (recvs : List RecvResult) (sends : List SendResult) (progress : Bool) :
    Option (Bool × Server × List SendResult × Bool) :=
  (recvAll peer.inputBuffer conn recvs).bind fun done =>
    let read := { peer with inputBuffer := done.2.1 }
    match done.1 with
    | .failed => some (false, server.setPeer k { read with socket := some done.2.2 }, sends, progress)
    | .ended =>
        (takeLines k done.2.1.length (server.setPeer k { read with socket := none }) sends
          true).map fun taken => (true, taken)
    | .drained =>
        (takeLines k done.2.1.length (server.setPeer k { read with socket := some done.2.2 }) sends
          (progress || done.2.1 ≠ peer.inputBuffer)).map fun taken => (true, taken)

def peerOutput (server : Server) (k : Nat) (sends : List SendResult) (progress : Bool) :
    Option (Server × List SendResult × Bool) :=
  match server.peers[k]? with
  | none => none
  | some peer =>
      if peer.output.sent < peer.output.buffer.length then
        (flushPeerOutput peer sends).map fun done =>
          (server.setPeer k done.1, done.2,
            progress || done.1.output.sent ≠ peer.output.sent || done.1.output.buffer = [])
      else some (server, sends, progress)

def peerEvent (server : Server) (k : Nat) (broken input output : Bool) (recvs : List RecvResult)
    (sends : List SendResult) (progress : Bool) :
    Option (Bool × Server × List SendResult × Bool) :=
  match server.peers[k]? with
  | none => none
  | some peer =>
      match peer.socket with
      | none => some (true, server, sends, progress)
      | some conn =>
          if broken then some (true, server.setPeer k { peer with socket := none }, sends, true)
          else
            (if input then server.peerInput k peer conn recvs sends progress
              else some (true, server, sends, progress)).bind fun done =>
                if done.1 ∧ output then
                  (done.2.1.peerOutput k done.2.2.1 done.2.2.2).map fun flushed => (true, flushed)
                else some done

def handleEvents : List Event → Server → List SendResult → Bool → Option (Errcode × Server)
  | [], server, _, progress => some (if progress then .ok else .timeout, server)
  | .listening accepts :: rest, server, sends, _ =>
      (server.acceptPendingClients accepts).bind fun done =>
        if done.1 = .ok then handleEvents rest done.2 sends true else some done
  | .peer k broken input output recvs :: rest, server, sends, progress =>
      (server.peerEvent k broken input output recvs sends progress).bind fun done =>
        if done.1 then handleEvents rest done.2.1 done.2.2.1 done.2.2.2
        else some (.sys, done.2.1)

inductive EpollResult where
  | failed
  | timedOut
  | ready (events : List Event)
deriving DecidableEq

def chatServerUpdate (server : Server) (epoll : EpollResult) (sends : List SendResult) :
    Option (Errcode × Server) :=
  if server.listening = false then some (.notStarted, server)
  else
    match epoll with
    | .failed => some (.sys, server)
    | .timedOut => some (.timeout, server)
    | .ready events =>
        if events ≠ [] ∧ events.length ≤ 16 then handleEvents events server sends false else none

-- The loop around `extract_message` of `chat_server_feed`.
def feedLines : Nat → Server → List SendResult → Option Server
  | 0, server, _ => some server
  | fuel + 1, server, sends =>
      match extractMessage server.inputBuffer with
      | none => some server
      | some (line, rest) =>
          let server := { server with inputBuffer := rest }
          if trim line = [] then feedLines fuel server sends
          else
            let server := server.queue none { author := serverName, data := trim line }
            (broadcast none (messageLine serverName (trim line)) 0 server.peers sends).bind
              fun done => feedLines fuel { server with peers := done.1 } done.2

def chatServerFeed (server : Server) (msg : Text) (accepts : List AcceptResult)
    (sends : List SendResult) : Option (Errcode × Server) :=
  if server.listening = false then some (.notStarted, server)
  else if msg = [] then some (.ok, server)
  else
    (server.acceptPendingClients accepts).bind fun done =>
      if done.1 = .ok then
        let server := { done.2 with inputBuffer := done.2.inputBuffer ++ msg }
        (feedLines server.inputBuffer.length server sends).map fun server => (.ok, server)
      else some done

end Server

structure Room where
  clients : List Client
  server : Server
deriving DecidableEq

inductive Action where
  | clientNew (name : Text)
  | connect (i : Nat) (addr : Text) (result : Client.ConnectResult)
  | clientFeed (i : Nat) (msg : Text) (sends : List SendResult)
  | clientUpdate (i : Nat) (poll : Client.PollResult) (recvs : List RecvResult)
      (sends : List SendResult)
  | clientPop (i : Nat)
  | listen (result : Server.ListenResult)
  | serverUpdate (epoll : Server.EpollResult) (sends : List SendResult)
  | serverFeed (msg : Text) (accepts : List Server.AcceptResult) (sends : List SendResult)
  | serverPop
deriving DecidableEq

namespace Room

def init : Room := { clients := [], server := .chatServerNew }

def setClient (s : Room) (i : Nat) (client : Client) : Room :=
  { s with clients := s.clients.set i client }

def setServer (s : Room) (server : Server) : Room := { s with server := server }

-- A call of one of the programs. They share nothing but the connections, so the order of the
-- calls stands for every order of their system calls.
def step (s : Room) : Action → Option Room
  | .clientNew name => some { s with clients := s.clients ++ [.chatClientNew name] }
  | .connect i addr result =>
      s.clients[i]?.map fun client => s.setClient i (client.chatClientConnect addr result).2
  | .clientFeed i msg sends =>
      s.clients[i]?.bind fun client =>
        (client.chatClientFeed msg sends).map fun done => s.setClient i done.2
  | .clientUpdate i poll recvs sends =>
      s.clients[i]?.bind fun client =>
        (client.chatClientUpdate poll recvs sends).map fun done => s.setClient i done.2
  | .clientPop i => s.clients[i]?.map fun client => s.setClient i client.chatClientPopNext.2
  | .listen result => some (s.setServer (s.server.chatServerListen result).2)
  | .serverUpdate epoll sends =>
      (s.server.chatServerUpdate epoll sends).map fun done => s.setServer done.2
  | .serverFeed msg accepts sends =>
      (s.server.chatServerFeed msg accepts sends).map fun done => s.setServer done.2
  | .serverPop => some (s.setServer s.server.chatServerPopNext.2)

end Room

end SystemProg.Chat

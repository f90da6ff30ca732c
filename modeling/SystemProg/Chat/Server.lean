import SystemProg.Chat.Sockets

set_option autoImplicit false

namespace SystemProg.Chat

namespace Peer

def sentBytes (p : Peer) : Text := (p.socket.map Connection.sent).getD []

def receivedBytes (p : Peer) : Text := (p.socket.map Connection.received).getD []

def stream (p : Peer) : Text := p.sentBytes ++ p.output.unsent

structure Writes (p p' : Peer) (text : Text) : Prop where
  same : ∃ output socket, p' = { p with output := output, socket := socket }
  opened : p'.socket ≠ none → p.socket ≠ none
  writes : p.output.Bounded → p'.socket ≠ none →
    p'.output.Bounded ∧ p'.stream = p.stream ++ text ∧ p'.receivedBytes = p.receivedBytes

variable {p p' : Peer}

theorem writes_refl (p : Peer) : p.Writes p [] :=
  ⟨⟨p.output, p.socket, rfl⟩, id, fun bounded _ => ⟨bounded, by simp, rfl⟩⟩

theorem writes_closed (closed : p.socket = none) (text : Text) : p.Writes p text :=
  ⟨⟨p.output, p.socket, rfl⟩, id, fun _ opened => absurd closed opened⟩

theorem flushPeerOutput_writes {sends rest : List SendResult}
    (done : flushPeerOutput p sends = some (p', rest)) : p.Writes p' [] := by
  obtain ⟨output, socket, rfl, moves⟩ := flushPeerOutput_moves done
  refine ⟨⟨_, _, rfl⟩, moves.opened, fun bounded opened => ?_⟩
  obtain ⟨bounded', stream⟩ := moves.stream bounded opened
  exact ⟨bounded', stream.trans (List.append_nil _).symm, moves.received opened⟩

theorem append_writes {sends rest : List SendResult} {line : Text}
    (done : flushPeerOutput { p with output := p.output.append line } sends = some (p', rest)) :
    p.Writes p' line := by
  obtain ⟨⟨output, socket, same⟩, opened, writes⟩ := flushPeerOutput_writes done
  refine ⟨⟨output, socket, same⟩, opened, fun bounded there => ?_⟩
  obtain ⟨more, bounded'⟩ := Output.append_unsent bounded line
  obtain ⟨bounded'', stream, received⟩ := writes bounded' there
  refine ⟨bounded'', ?_, received⟩
  rw [stream, List.append_nil, Peer.stream, Peer.stream, List.append_assoc, ← more]
  rfl

end Peer

namespace Server

theorem broadcast_writes {source : Option Nat} {line : Text} {k : Nat} {peers peers' : List Peer}
    {sends rest : List SendResult}
    (done : broadcast source line k peers sends = some (peers', rest)) :
    peers'.length = peers.length ∧ ∀ (i : Nat) (p' : Peer), peers'[i]? = some p' →
      ∃ p, peers[i]? = some p ∧ p.Writes p' (if source = some (k + i) then [] else line) := by
  induction peers generalizing k sends peers' with
  | nil =>
      cases done
      exact ⟨rfl, by simp⟩
  | cons peer later ih =>
      rw [broadcast, Option.bind_eq_some_iff] at done
      obtain ⟨⟨first, between⟩, here, done⟩ := done
      rw [Option.map_eq_some_iff] at done
      obtain ⟨⟨others, rest'⟩, more, done⟩ := done
      cases done
      have wrote : peer.Writes first (if source = some k then [] else line) := by
        split at here
        · next skipped =>
            cases here
            rcases skipped with closed | own
            · exact Peer.writes_closed closed _
            · rw [if_pos own]
              exact Peer.writes_refl peer
        · next included =>
            rw [not_or] at included
            rw [if_neg included.2]
            exact Peer.append_writes here
      obtain ⟨length, each⟩ := ih more
      refine ⟨by simp [length], fun i p' there => ?_⟩
      cases i with
      | zero =>
          cases there
          exact ⟨peer, rfl, wrote⟩
      | succ i =>
          obtain ⟨p, before, writes⟩ := each i p' (by simpa using there)
          refine ⟨p, by simpa using before, ?_⟩
          rw [Nat.add_right_comm] at writes
          exact writes

-- What goes out for the messages of the log that are not from the peer itself.
def linesFor (k : Nat) (log : List (Option Nat × Message)) : Text :=
  (log.filter (·.1 ≠ some k)).flatMap fun entry => messageLine entry.2.author entry.2.data

def messagesFrom (k : Nat) (log : List (Option Nat × Message)) : List Message :=
  (log.filter (·.1 = some k)).map Prod.snd

theorem linesFor_snoc (k : Nat) (log : List (Option Nat × Message)) (source : Option Nat)
    (message : Message) :
    linesFor k (log ++ [(source, message)]) = linesFor k log ++
      (if source = some k then [] else messageLine message.author message.data) := by
  by_cases own : source = some k <;> simp [linesFor, own]

theorem messagesFrom_snoc (k : Nat) (log : List (Option Nat × Message)) (source : Option Nat)
    (message : Message) :
    messagesFrom k (log ++ [(source, message)]) = messagesFrom k log ++
      (if source = some k then [message] else []) := by
  by_cases own : source = some k <;> simp [messagesFrom, own]

-- The first line that has been taken from a peer is its name, the others are its messages.
structure Hears (log : List (Option Nat × Message)) (k : Nat) (p : Peer) (heard : List Text) :
    Prop where
  bounded : p.output.Bounded
  stream : p.stream = linesFor k (log.drop p.since)
  lines : heard ++ frames p.inputBuffer = frames p.receivedBytes
  rest : Lines.pending newline p.inputBuffer = Lines.pending newline p.receivedBytes
  named : if p.nameReceived then heard.head? = some p.name else heard = []
  queued : messagesFrom k log = heard.tail.map fun line => { author := p.name, data := line }

structure PeerSound (log : List (Option Nat × Message)) (k : Nat) (p : Peer) : Prop where
  since : p.since ≤ log.length
  named : p.nameReceived = true → Line p.name
  hears : p.socket ≠ none → ∃ heard, Hears log k p heard

structure Sound (s : Server) : Prop where
  peers : ∀ (k : Nat) (p : Peer), s.peers[k]? = some p → PeerSound s.log k p
  known : ∀ entry ∈ s.log, ∀ k : Nat, entry.1 = some k → k < s.peers.length
  lines : ∀ entry ∈ s.log, Line entry.2.author ∧ Line entry.2.data
  fed : ∀ entry ∈ s.log, entry.1 = none → entry.2.author = serverName
  queued : s.popped ++ s.messages = s.log.map Prod.snd

variable {log : List (Option Nat × Message)} {k : Nat} {p p' : Peer} {heard : List Text}

theorem Hears.writes {text : Text} {log' : List (Option Nat × Message)}
    (hears : Hears log k p heard) (wrote : p.Writes p' text) (opened : p'.socket ≠ none)
    (stream : linesFor k (log'.drop p.since) = linesFor k (log.drop p.since) ++ text)
    (from' : messagesFrom k log' = messagesFrom k log) : Hears log' k p' heard := by
  obtain ⟨⟨output, socket, same⟩, -, writes⟩ := wrote
  obtain ⟨bounded, stream', received⟩ := writes hears.bounded opened
  refine ⟨bounded, ?_, ?_, ?_, ?_, ?_⟩
  · rw [stream', hears.stream, ← stream, same]
  · rw [received, ← hears.lines, same]
  · rw [received, ← hears.rest, same]
  · rw [same]
    exact hears.named
  · rw [from', hears.queued, same]

theorem PeerSound.writes {text : Text} {log' : List (Option Nat × Message)}
    (sound : PeerSound log k p) (wrote : p.Writes p' text) (longer : log.length ≤ log'.length)
    (stream : linesFor k (log'.drop p.since) = linesFor k (log.drop p.since) ++ text)
    (from' : messagesFrom k log' = messagesFrom k log) : PeerSound log' k p' := by
  obtain ⟨output, socket, same⟩ := wrote.same
  refine ⟨?_, ?_, fun opened => ?_⟩
  · rw [same]
    exact Nat.le_trans sound.since longer
  · rw [same]
    exact sound.named
  · obtain ⟨heard, hears⟩ := sound.hears (wrote.opened opened)
    exact ⟨heard, hears.writes wrote opened stream from'⟩

theorem PeerSound.other {source : Option Nat} {message : Message} (sound : PeerSound log k p)
    (other : source ≠ some k) (wrote : p.Writes p' (messageLine message.author message.data)) :
    PeerSound (log ++ [(source, message)]) k p' := by
  refine sound.writes wrote (by simp) ?_ ?_
  · rw [List.drop_append_of_le_length sound.since, linesFor_snoc, if_neg other]
  · rw [messagesFrom_snoc, if_neg other, List.append_nil]

theorem Hears.blank {line rest : Text} (hears : Hears log k p heard)
    (buffer : p.inputBuffer = line ++ newline :: rest) (free : newline ∉ line)
    (empty : trim line = []) : Hears log k { p with inputBuffer := rest } heard := by
  refine ⟨hears.bounded, hears.stream, ?_, ?_, hears.named, hears.queued⟩
  · have lines := hears.lines
    rw [buffer, frames_line free, if_pos empty] at lines
    exact lines
  · have pending := hears.rest
    rw [buffer, Lines.pending_line free] at pending
    exact pending

theorem Hears.name {line rest : Text} (hears : Hears log k p heard)
    (buffer : p.inputBuffer = line ++ newline :: rest) (free : newline ∉ line)
    (nonempty : trim line ≠ []) (unnamed : p.nameReceived = false) :
    Hears log k { p with inputBuffer := rest, name := trim line, nameReceived := true }
      [trim line] := by
  have first : heard = [] := by
    have named := hears.named
    rw [unnamed] at named
    exact named
  refine ⟨hears.bounded, hears.stream, ?_, ?_, rfl, ?_⟩
  · have lines := hears.lines
    rw [buffer, frames_line free, if_neg nonempty, first] at lines
    exact lines
  · have pending := hears.rest
    rw [buffer, Lines.pending_line free] at pending
    exact pending
  · rw [hears.queued, first]
    rfl

theorem Hears.message {line rest : Text} (hears : Hears log k p heard)
    (since : p.since ≤ log.length) (buffer : p.inputBuffer = line ++ newline :: rest)
    (free : newline ∉ line) (nonempty : trim line ≠ []) (named : p.nameReceived = true) :
    Hears (log ++ [(some k, { author := p.name, data := trim line })]) k
      { p with inputBuffer := rest } (heard ++ [trim line]) := by
  have first : heard.head? = some p.name := by
    have received := hears.named
    rw [named] at received
    exact received
  have some' : heard ≠ [] := by
    rintro rfl
    cases first
  refine ⟨hears.bounded, ?_, ?_, ?_, ?_, ?_⟩
  · rw [List.drop_append_of_le_length since, linesFor_snoc, if_pos rfl, List.append_nil]
    exact hears.stream
  · have lines := hears.lines
    rw [buffer, frames_line free, if_neg nonempty] at lines
    rw [List.append_assoc]
    exact lines
  · have pending := hears.rest
    rw [buffer, Lines.pending_line free] at pending
    exact pending
  · rw [named, if_pos rfl, List.head?_append_of_ne_nil _ some', first]
  · rw [messagesFrom_snoc, if_pos rfl, hears.queued, List.tail_append_of_ne_nil some',
      List.map_append]
    rfl

end Server

end SystemProg.Chat

import SystemProg.Chat.Room

set_option autoImplicit false

namespace SystemProg.Chat

theorem sendAll_end {results rest : List SendResult} {output output' : Output}
    {conn conn' : Connection} {flushed : Flushed}
    (done : sendAll output conn results = some (flushed, output', conn', rest)) :
    (flushed = .emptied → output'.unsent = []) ∧
      (flushed = .blocked → ∃ front, results = front ++ .wouldBlock :: rest) := by
  fun_induction sendAll output conn results with
  | case1 output conn nothing =>
      cases done
      exact ⟨fun _ => nothing, by simp⟩
  | case2 => cases done
  | case3 output conn result rest nothing =>
      cases done
      exact ⟨fun _ => nothing, by simp⟩
  | case4 =>
      cases done
      simp
  | case5 output conn results unsent count taken within ih =>
      obtain ⟨emptied, blocked⟩ := ih done
      refine ⟨emptied, fun stopped => ?_⟩
      obtain ⟨front, same⟩ := blocked stopped
      exact ⟨.sent count :: front, by rw [same, List.cons_append]⟩
  | case6 => cases done
  | case7 output conn results unsent ih =>
      obtain ⟨emptied, blocked⟩ := ih done
      refine ⟨emptied, fun stopped => ?_⟩
      obtain ⟨front, same⟩ := blocked stopped
      exact ⟨.interrupted :: front, by rw [same, List.cons_append]⟩
  | case8 =>
      cases done
      exact ⟨by simp, fun _ => ⟨[], rfl⟩⟩
  | case9 =>
      cases done
      simp

theorem Output.settle_nothing {output : Output} (nothing : output.unsent = []) :
    output.settle.unsent = [] := by
  unfold Output.settle
  split
  · rfl
  · exact nothing

-- Everything has been sent, or `send` has answered EAGAIN last.
def FlushEnds (output : Output) (sends rest : List SendResult) : Prop :=
  output.unsent = [] ∨ ∃ front, sends = front ++ .wouldBlock :: rest

theorem FlushMoves.ends {output output' : Output} {socket socket' : Option Connection}
    {sends rest : List SendResult} (moves : FlushMoves output socket sends output' socket' rest)
    (opened : socket' ≠ none) : FlushEnds output' sends rest := by
  cases moves with
  | closed none => exact absurd none opened
  | broken => exact absurd rfl opened
  | @settled conn conn' flushed output' rest there unbroken all =>
      obtain ⟨emptied, blocked⟩ := sendAll_end all
      cases flushed with
      | broken => exact absurd rfl unbroken
      | emptied => exact Or.inl (Output.settle_nothing (emptied rfl))
      | blocked => exact Or.inr (blocked rfl)

theorem Peer.flush_ends {p p' : Peer} {sends rest : List SendResult}
    (done : flushPeerOutput p sends = some (p', rest)) (opened : p'.socket ≠ none) :
    FlushEnds p'.output sends rest := by
  obtain ⟨output, socket, rfl, moves⟩ := flushPeerOutput_moves done
  exact moves.ends opened

theorem Client.flush_ends {c c' : Client} {sends rest : List SendResult}
    (done : c.flushOutput sends = some (c', rest)) (opened : c'.socket ≠ none) :
    FlushEnds c'.output sends rest := by
  obtain ⟨output, socket, rfl, moves⟩ := flushOutput_moves done
  exact moves.ends opened

inductive OutputOp where
  | append (text : Text)
  | flush (sends : List SendResult)
deriving DecidableEq

def OutputOp.text : OutputOp → Text
  | .append text => text
  | .flush _ => []

def Peer.outputStep (p : Peer) : OutputOp → Option Peer
  | .append text => some { p with output := p.output.append text }
  | .flush sends => (flushPeerOutput p sends).map Prod.fst

def Client.outputStep (c : Client) : OutputOp → Option Client
  | .append text => some { c with output := c.output.append text }
  | .flush sends => (c.flushOutput sends).map Prod.fst

def Output.Intact (output : Output) (sent appended : Text) : Prop :=
  sent ++ output.unsent = appended ∧ output.sent ≤ output.buffer.length

namespace Peer

variable {p p' : Peer}

theorem Writes.trans {p'' : Peer} {text text' : Text} (first : p.Writes p' text)
    (second : p'.Writes p'' text') : p.Writes p'' (text ++ text') := by
  obtain ⟨output, socket, same⟩ := first.same
  obtain ⟨output', socket', same'⟩ := second.same
  refine ⟨⟨output', socket', by rw [same', same]⟩,
    fun opened => first.opened (second.opened opened), fun bounded opened => ?_⟩
  obtain ⟨bounded', stream, received⟩ := first.writes bounded (second.opened opened)
  obtain ⟨bounded'', stream', received'⟩ := second.writes bounded' opened
  exact ⟨bounded'', by rw [stream', stream, List.append_assoc], received'.trans received⟩

theorem outputStep_writes {op : OutputOp} (taken : p.outputStep op = some p') :
    p.Writes p' op.text := by
  cases op with
  | append text =>
      cases taken
      refine ⟨⟨_, _, rfl⟩, id, fun bounded _ => ?_⟩
      obtain ⟨more, bounded'⟩ := Output.append_unsent bounded text
      refine ⟨bounded', ?_, rfl⟩
      rw [Peer.stream, Peer.stream, List.append_assoc, OutputOp.text, ← more]
      rfl
  | flush sends =>
      rw [outputStep, Option.map_eq_some_iff] at taken
      obtain ⟨⟨p', rest⟩, done, rfl⟩ := taken
      exact flushPeerOutput_writes done

theorem outputSteps_write {ops : List OutputOp} (run : Run.exec outputStep p ops = some p') :
    p.Writes p' (ops.flatMap OutputOp.text) := by
  induction ops generalizing p with
  | nil =>
      cases run
      exact writes_refl _
  | cons op ops ih =>
      obtain ⟨next, taken, finished⟩ := (Run.exec_cons _ _ _ _).mp run
      exact (outputStep_writes taken).trans (ih finished)

end Peer

namespace Client

variable {c c' : Client}

structure Writes (c c' : Client) (text : Text) : Prop where
  opened : c'.socket ≠ none → c.socket ≠ none
  writes : c.output.Bounded → c'.socket ≠ none → c'.output.Bounded ∧ c'.stream = c.stream ++ text

theorem Writes.trans {c'' : Client} {text text' : Text} (first : c.Writes c' text)
    (second : c'.Writes c'' text') : c.Writes c'' (text ++ text') := by
  refine ⟨fun opened => first.opened (second.opened opened), fun bounded opened => ?_⟩
  obtain ⟨bounded', stream⟩ := first.writes bounded (second.opened opened)
  obtain ⟨bounded'', stream'⟩ := second.writes bounded' opened
  exact ⟨bounded'', by rw [stream', stream, List.append_assoc]⟩

theorem flushOutput_writes {sends rest : List SendResult}
    (done : c.flushOutput sends = some (c', rest)) : c.Writes c' [] := by
  obtain ⟨output, socket, rfl, moves⟩ := flushOutput_moves done
  refine ⟨moves.opened, fun bounded opened => ?_⟩
  obtain ⟨bounded', stream⟩ := moves.stream bounded opened
  exact ⟨bounded', stream.trans (List.append_nil _).symm⟩

theorem outputStep_writes {op : OutputOp} (taken : c.outputStep op = some c') :
    c.Writes c' op.text := by
  cases op with
  | append text =>
      cases taken
      refine ⟨id, fun bounded _ => ?_⟩
      obtain ⟨more, bounded'⟩ := Output.append_unsent bounded text
      refine ⟨bounded', ?_⟩
      rw [Client.stream, Client.stream, List.append_assoc, OutputOp.text, ← more]
      rfl
  | flush sends =>
      rw [outputStep, Option.map_eq_some_iff] at taken
      obtain ⟨⟨c', rest⟩, done, rfl⟩ := taken
      exact flushOutput_writes done

theorem outputSteps_write {ops : List OutputOp} (run : Run.exec outputStep c ops = some c') :
    c.Writes c' (ops.flatMap OutputOp.text) := by
  induction ops generalizing c with
  | nil =>
      cases run
      exact ⟨id, fun bounded _ => ⟨bounded, (List.append_nil _).symm⟩⟩
  | cons op ops ih =>
      obtain ⟨next, taken, finished⟩ := (Run.exec_cons _ _ _ _).mp run
      exact (outputStep_writes taken).trans (ih finished)

end Client

namespace Room

variable {s : Room}

theorem outputs_intact {actions : List Action} (run : Run.exec step init actions = some s) :
    (∀ (ops : List OutputOp) (p p' : Peer), p.output.Bounded →
      Run.exec Peer.outputStep p ops = some p' → p'.socket ≠ none →
        p'.output.Intact p'.sentBytes (p.stream ++ ops.flatMap OutputOp.text)) ∧
    (∀ (ops : List OutputOp) (c c' : Client), c.output.Bounded →
      Run.exec Client.outputStep c ops = some c' → c'.socket ≠ none →
        c'.output.Intact c'.sentBytes (c.stream ++ ops.flatMap OutputOp.text)) ∧
    (∀ (p p' : Peer) (sends rest : List SendResult),
      flushPeerOutput p sends = some (p', rest) → p'.socket ≠ none →
        FlushEnds p'.output sends rest) ∧
    (∀ (c c' : Client) (sends rest : List SendResult),
      c.flushOutput sends = some (c', rest) → c'.socket ≠ none →
        FlushEnds c'.output sends rest) ∧
    (∀ (k : Nat) (p : Peer), s.server.peers[k]? = some p → p.socket ≠ none →
      p.output.Intact p.sentBytes (Server.linesFor k (s.server.log.drop p.since))) ∧
    ∀ (i : Nat) (c : Client), s.clients[i]? = some c →
      (∀ action ∈ actions, action.clientHealthy i) →
        c.output.Intact c.sentBytes (Client.header c.name c.fed ++ c.fed) := by
  refine ⟨fun ops p p' bounded taken opened => ?_, fun ops c c' bounded taken opened => ?_,
    fun p p' sends rest => Peer.flush_ends, fun c c' sends rest => Client.flush_ends,
    fun k p there opened => ?_, fun i c there healthy => ?_⟩
  · obtain ⟨bounded', stream, -⟩ := (Peer.outputSteps_write taken).writes bounded opened
    exact ⟨stream, bounded'⟩
  · obtain ⟨bounded', stream⟩ := (Client.outputSteps_write taken).writes bounded opened
    exact ⟨stream, bounded'⟩
  · obtain ⟨heard, hears⟩ := ((run_serverSound run).peers k p there).hears opened
    exact ⟨hears.stream, hears.bounded⟩
  · have sound := run_clientSound healthy run c there
    exact ⟨sound.stream, sound.bounded⟩

def inParts : List Action :=
  [.clientNew [97], .listen .listening, .connect 0 [colon] .connected,
    .serverUpdate (.ready [.listening [.accepted 0, .wouldBlock]]) [],
    .serverFeed [97, 10] [.wouldBlock] [.sent 3, .interrupted, .sent 1, .wouldBlock],
    .serverFeed [98, 10] [.wouldBlock] [.sent 7, .wouldBlock]]

theorem outputs_intact_parts : ∃ s p, Run.exec step init inParts = some s ∧
    s.server.peers[0]? = some p ∧ p.sentBytes.length = 11 ∧ p.output.unsent.length = 9 ∧
    p.output.Intact p.sentBytes (Server.linesFor 0 (s.server.log.drop p.since)) ∧
    ∃ p', Run.exec Peer.outputStep p [.append [99, 10], .flush [.sent 4, .interrupted, .sent 7]] =
        some p' ∧
      p'.output.Intact p'.sentBytes (p.stream ++ [99, 10]) := by
  obtain ⟨ops, -, -, -, peers, -⟩ := @outputs_intact _ inParts rfl
  exact ⟨_, _, rfl, rfl, rfl, rfl, peers 0 _ rfl (by decide), _, rfl,
    ops [.append [99, 10], .flush [.sent 4, .interrupted, .sent 7]] _ _ (by decide) rfl
      (by decide)⟩

end Room

end SystemProg.Chat

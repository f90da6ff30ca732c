import SystemProg.Lib.Run
import SystemProg.Chat.Client

set_option autoImplicit false

namespace SystemProg.Chat

namespace Client

variable {c c' : Client}

-- The bytes arrive: the lines that they complete are taken, and the last one waits.
structure Reads (c c' : Client) (bytes : Text) : Prop where
  received : c'.receivedBytes = c.receivedBytes ++ bytes
  buffer : c'.inputBuffer = Lines.pending newline (c.inputBuffer ++ bytes)
  messages : c'.messages = c.messages ++ (frames (c.inputBuffer ++ bytes)).map parseMessage

theorem reads_refl (free : newline ∉ c.inputBuffer) : c.Reads c [] := by
  refine ⟨(List.append_nil _).symm, ?_, ?_⟩
  · rw [List.append_nil, Lines.pending_of_free free]
  · rw [List.append_nil, frames_of_free free, List.map_nil, List.append_nil]

theorem Reads.trans {c'' : Client} {bytes bytes' : Text} (first : c.Reads c' bytes)
    (second : c'.Reads c'' bytes') : c.Reads c'' (bytes ++ bytes') := by
  refine ⟨?_, ?_, ?_⟩
  · rw [second.received, first.received, List.append_assoc]
  · rw [second.buffer, first.buffer, ← Lines.pending_append, List.append_assoc]
  · rw [second.messages, first.messages, first.buffer, ← List.append_assoc c.inputBuffer,
      frames_append (c.inputBuffer ++ bytes), List.map_append, List.append_assoc]

theorem Reads.free {bytes : Text} (reads : c.Reads c' bytes) : newline ∉ c'.inputBuffer := by
  rw [reads.buffer]
  exact Lines.pending_free _

structure Keeps (c c' : Client) : Prop where
  opened : c.socket ≠ none
  received : c'.receivedBytes = c.receivedBytes
  buffer : c'.inputBuffer = c.inputBuffer
  messages : c'.messages = c.messages

theorem Keeps.trans {c'' : Client} (first : c.Keeps c') (second : c'.Keeps c'') :
    c.Keeps c'' :=
  ⟨first.opened, second.received.trans first.received, second.buffer.trans first.buffer,
    second.messages.trans first.messages⟩

theorem Reads.keeps {c'' : Client} {bytes : Text} (reads : c.Reads c' bytes)
    (kept : c'.Keeps c'') : c.Reads c'' bytes :=
  ⟨kept.received.trans reads.received, kept.buffer.trans reads.buffer,
    kept.messages.trans reads.messages⟩

theorem flushOutput_keeps {sends rest : List SendResult}
    (done : c.flushOutput sends = some (c', rest)) (opened : c'.socket ≠ none) : c.Keeps c' := by
  obtain ⟨output, socket, rfl, moves⟩ := flushOutput_moves done
  exact ⟨moves.opened opened, moves.received opened, rfl, rfl⟩

theorem flushTwice_keeps {sends : List SendResult} {output : Bool}
    (done : c.flushTwice output sends = some c') (opened : c'.socket ≠ none) : c.Keeps c' := by
  obtain ⟨first, rest, once, twice⟩ := flushTwice_cases done
  have before (there : first.socket ≠ none) : c.Keeps first := by
    rcases once with ⟨-, flushed⟩ | ⟨-, rfl, rfl⟩
    · exact flushOutput_keeps flushed there
    · exact ⟨there, rfl, rfl, rfl⟩
  rcases twice with ⟨-, rest', flushed⟩ | ⟨-, rfl⟩
  · have after := flushOutput_keeps flushed opened
    exact (before after.opened).trans after
  · exact before opened

theorem receive_reads {conn : Connection} {recvs : List RecvResult} {goesOn : Bool}
    (there : c.socket = some conn) (done : c.receive conn recvs = some (goesOn, c'))
    (opened : c'.socket ≠ none) :
    goesOn = true ∧ ∃ bytes, c.Reads c' bytes := by
  rw [Client.receive, Option.map_eq_some_iff] at done
  obtain ⟨⟨received, buffer, conn'⟩, all, done⟩ := done
  obtain ⟨bytes, buffer_eq, received_eq, -, -⟩ := recvAll_spec all
  cases received with
  | drained =>
      have taken := @takeMessages_eq { c with inputBuffer := buffer, socket := some conn' }
        buffer.length (Nat.le_refl _)
      dsimp only at done
      rw [taken] at done
      cases done
      refine ⟨rfl, bytes, ?_, ?_, ?_⟩
      · rw [receivedBytes_some there]
        exact received_eq
      · rw [← buffer_eq]
      · rw [← buffer_eq]
  | ended =>
      cases done
      exact absurd rfl opened
  | failed =>
      cases done
      exact absurd rfl opened

theorem update_reads {poll : PollResult} {recvs : List RecvResult} {sends : List SendResult}
    {code : Errcode} (free : newline ∉ c.inputBuffer)
    (done : c.chatClientUpdate poll recvs sends = some (code, c')) (opened : c'.socket ≠ none) :
    ∃ bytes, c.Reads c' bytes := by
  unfold chatClientUpdate at done
  split at done
  · cases done
    exact ⟨[], reads_refl free⟩
  · next conn there =>
      cases poll with
      | failed =>
          cases done
          exact ⟨[], reads_refl free⟩
      | timedOut =>
          cases done
          exact ⟨[], reads_refl free⟩
      | ready broken input output =>
          dsimp only at done
          split at done
          · cases done
            exact absurd rfl opened
          · rw [Option.bind_eq_some_iff] at done
            obtain ⟨⟨goesOn, read⟩, reading, done⟩ := done
            have middle (there' : read.socket ≠ none) :
                goesOn = true ∧ ∃ bytes, c.Reads read bytes := by
              split at reading
              · exact receive_reads there reading there'
              · cases reading
                exact ⟨rfl, [], reads_refl free⟩
            dsimp only at done
            split at done
            · rw [Option.map_eq_some_iff] at done
              obtain ⟨flushed, flushing, done⟩ := done
              cases done
              have kept := flushTwice_keeps flushing opened
              obtain ⟨bytes, reads⟩ := (middle kept.opened).2
              exact ⟨bytes, reads.keeps kept⟩
            · next closed =>
                cases done
                exact absurd (middle opened).1 closed

structure UpdateCall where
  poll : PollResult
  recvs : List RecvResult
  sends : List SendResult

def updateStep (c : Client) (call : UpdateCall) : Option Client :=
  (c.chatClientUpdate call.poll call.recvs call.sends).map Prod.snd

theorem updates_closed {calls : List UpdateCall} (closed : c.socket = none)
    (run : Run.exec updateStep c calls = some c') : c'.socket = none := by
  refine Run.exec_invariant (fun c => c.socket = none) (fun c call next closed taken => ?_)
    closed run
  rw [updateStep, chatClientUpdate, closed] at taken
  cases taken
  exact closed

theorem updates_reads {calls : List UpdateCall} (free : newline ∉ c.inputBuffer)
    (run : Run.exec updateStep c calls = some c') (opened : c'.socket ≠ none) :
    ∃ bytes, c.Reads c' bytes := by
  induction calls generalizing c with
  | nil =>
      cases run
      exact ⟨[], reads_refl free⟩
  | cons call calls ih =>
      obtain ⟨next, taken, finished⟩ := (Run.exec_cons _ _ _ _).mp run
      have between : next.socket ≠ none := fun closed => opened (updates_closed closed finished)
      rw [updateStep, Option.map_eq_some_iff] at taken
      obtain ⟨⟨code, next'⟩, done, rfl⟩ := taken
      obtain ⟨bytes, first⟩ := update_reads free done between
      obtain ⟨bytes', later⟩ := ih first.free finished
      exact ⟨bytes ++ bytes', first.trans later⟩

-- The two ends of a line agree unless the name holds the separator itself.
theorem line_codec {bytes name msg : Text} (reads : c.Reads c' bytes) (fresh : c.inputBuffer = [])
    (author : Line name) (data : Line msg)
    (line : c'.receivedBytes = c.receivedBytes ++ messageLine name msg) :
    c'.messages = c.messages ++ [{ author := name, data := msg }] ↔
      ¬ [colon, blank] <:+: name := by
  have same : bytes = name ++ [colon, blank] ++ msg ++ [newline] := by
    rw [reads.received] at line
    exact List.append_cancel_left line
  have free : newline ∉ name ++ [colon, blank] ++ msg := by
    simp only [List.mem_append, not_or]
    exact ⟨⟨author.free, by decide⟩, data.free⟩
  have trimmed := trimmed_messageLine author data
  have nonempty : name ++ [colon, blank] ++ msg ≠ [] := by simp
  rw [reads.messages, fresh, same, List.nil_append, frames_line free, trimmed,
    if_neg nonempty, frames_of_free (by simp), List.append_cancel_left_eq, List.map_singleton,
    List.singleton_inj, parseMessage_iff]

theorem codec_iff {calls : List UpdateCall} {p : Peer} {msg : Text}
    (run : Run.exec updateStep c calls = some c') (opened : c'.socket ≠ none)
    (fresh : c.inputBuffer = []) (named : p.nameReceived = true) (name : Line p.name)
    (data : Line msg) :
    (c'.receivedBytes = c.receivedBytes ++ Server.fullMsg p msg →
      (c'.messages = c.messages ++ [{ author := p.name, data := msg }] ↔
        ¬ [colon, blank] <:+: p.name)) ∧
    (c'.receivedBytes = c.receivedBytes ++ messageLine serverName msg →
      c'.messages = c.messages ++ [{ author := serverName, data := msg }]) := by
  obtain ⟨bytes, reads⟩ := updates_reads (by simp [fresh]) run opened
  constructor
  · intro line
    rw [Server.fullMsg, if_pos ⟨named, name.nonempty⟩] at line
    exact line_codec reads fresh name data line
  · intro line
    exact (line_codec reads fresh serverName_line data line).mpr (by decide)

def connected : Client := (chatClientConnect (chatClientNew []) [colon] .connected).2

def reading (pieces : List Text) : List UpdateCall :=
  pieces.map fun piece =>
    { poll := .ready false true false, recvs := [.received piece, .wouldBlock], sends := [] }

def peerNamed (name : Text) : Peer := { Peer.new 0 0 with name := name, nameReceived := true }

theorem codec_pieces :
    (∃ c', Run.exec updateStep connected (reading [[97, 110], [110, 58, 32, 104], [105, 10]]) =
        some c' ∧
      c'.messages = connected.messages ++ [{ author := [97, 110, 110], data := [104, 105] }]) ∧
    ∃ c', Run.exec updateStep connected (reading [serverName ++ [58], [32, 104, 105, 10]]) =
        some c' ∧
      c'.messages = connected.messages ++ [{ author := serverName, data := [104, 105] }] := by
  have text : Line [104, 105] := by decide
  have ann : Line [97, 110, 110] := by decide
  constructor
  · refine ⟨_, rfl, ?_⟩
    have codec := @codec_iff connected _ (reading [[97, 110], [110, 58, 32, 104], [105, 10]])
      (peerNamed [97, 110, 110]) [104, 105] rfl (by decide) rfl rfl ann text
    exact (codec.1 rfl).mpr (by decide)
  · refine ⟨_, rfl, ?_⟩
    have codec := @codec_iff connected _ (reading [serverName ++ [58], [32, 104, 105, 10]])
      (peerNamed [97, 110, 110]) [104, 105] rfl (by decide) rfl rfl ann text
    exact codec.2 rfl

theorem codec_separatorInName :
    Line [97, 58, 32, 98] ∧ Line [120] ∧ ∃ c',
      Run.exec updateStep connected
        (reading [Server.fullMsg (peerNamed [97, 58, 32, 98]) [120]]) = some c' ∧
      c'.socket ≠ none ∧
      c'.receivedBytes =
        connected.receivedBytes ++ Server.fullMsg (peerNamed [97, 58, 32, 98]) [120] ∧
      c'.messages = [{ author := [97], data := [98, 58, 32, 120] }] ∧
      c'.messages ≠ connected.messages ++ [{ author := [97, 58, 32, 98], data := [120] }] :=
  ⟨by decide, by decide, _, rfl, by decide, rfl, rfl, by decide⟩

end Client

end SystemProg.Chat

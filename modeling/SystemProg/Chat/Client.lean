import SystemProg.Chat.Sockets

set_option autoImplicit false

namespace SystemProg.Chat

namespace Client

def sentBytes (c : Client) : Text := (c.socket.map Connection.sent).getD []

def receivedBytes (c : Client) : Text := (c.socket.map Connection.received).getD []

-- What the connection has taken and what it is still going to be given.
def stream (c : Client) : Text := c.sentBytes ++ c.output.unsent

def header (name fed : Text) : Text := if fed = [] ∨ name = [] then [] else name ++ [newline]

structure Sound (c : Client) : Prop where
  bounded : c.output.Bounded
  idle : c.socket = none → c.output = .empty ∧ c.inputBuffer = [] ∧ c.fed = [] ∧
    c.messages = [] ∧ c.popped = []
  named : c.nameSent = true ↔ c.fed ≠ [] ∧ c.name ≠ []
  stream : c.stream = header c.name c.fed ++ c.fed
  pending : c.inputBuffer = Lines.pending newline c.receivedBytes
  messages : c.popped ++ c.messages = (frames c.receivedBytes).map parseMessage

variable {c c' : Client}

theorem sound_new (name : Text) : (chatClientNew name).Sound where
  bounded := Output.empty_bounded
  idle := fun _ => ⟨rfl, rfl, rfl, rfl, rfl⟩
  named := by simp [chatClientNew]
  stream := rfl
  pending := rfl
  messages := rfl

theorem Sound.connect (sound : c.Sound) (addr : Text) (result : ConnectResult) :
    (c.chatClientConnect addr result).2.Sound := by
  unfold chatClientConnect
  split
  · exact sound
  · next closed =>
      split
      · exact sound
      · cases result with
        | connected =>
            have none : c.socket = none := by simpa using closed
            obtain ⟨output, input, fed, messages, popped⟩ := sound.idle none
            refine ⟨sound.bounded, by simp, sound.named, ?_, input, ?_⟩
            · simp [Client.stream, sentBytes, output, fed, header, Connection.new,
                Output.empty_unsent]
            · rw [messages, popped]
              rfl
        | _ => exact sound

theorem Sound.pop (sound : c.Sound) : c.chatClientPopNext.2.Sound := by
  unfold chatClientPopNext
  split
  · exact sound
  · next message rest queue =>
      refine ⟨sound.bounded, fun closed => ?_, sound.named, sound.stream, sound.pending, ?_⟩
      · rw [(sound.idle closed).2.2.2.1] at queue
        cases queue
      · rw [List.append_assoc, List.singleton_append, ← queue]
        exact sound.messages

structure Flushes (c c' : Client) : Prop where
  same : ∃ output socket, c' = { c with output := output, socket := socket }
  bounded : c'.output.Bounded
  stream : c'.stream = c.stream
  received : c'.receivedBytes = c.receivedBytes
  closed : c'.socket = none ↔ c.socket = none

theorem flushes_refl (bounded : c.output.Bounded) : c.Flushes c :=
  ⟨⟨c.output, c.socket, rfl⟩, bounded, rfl, rfl, Iff.rfl⟩

theorem Flushes.trans {c'' : Client} (first : c.Flushes c') (second : c'.Flushes c'') :
    c.Flushes c'' := by
  obtain ⟨output, socket, same⟩ := first.same
  obtain ⟨output', socket', same'⟩ := second.same
  refine ⟨⟨output', socket', ?_⟩, second.bounded, second.stream.trans first.stream,
    second.received.trans first.received, second.closed.trans first.closed⟩
  rw [same', same]

theorem flushOutput_flushes {sends rest : List SendResult} (bounded : c.output.Bounded)
    (healthy : ∀ result ∈ sends, result.healthy)
    (done : c.flushOutput sends = some (c', rest)) : c.Flushes c' ∧ rest <:+ sends := by
  obtain ⟨output, socket, rfl, moves⟩ := flushOutput_moves done
  obtain ⟨closed, suffix⟩ := moves.healthy bounded healthy
  refine ⟨?_, suffix⟩
  by_cases there : socket = none
  · cases moves with
    | closed => exact flushes_refl bounded
    | broken found => exact absurd (closed.mp rfl) (by simp [found])
    | settled => cases there
  · obtain ⟨bounded', stream⟩ := moves.stream bounded there
    exact ⟨⟨_, _, rfl⟩, bounded', stream, moves.received there, closed⟩

theorem Sound.flushes (sound : c.Sound) (flushes : c.Flushes c')
    (opened : c.socket ≠ none) : c'.Sound := by
  obtain ⟨⟨output, socket, same⟩, bounded, stream, received, closed⟩ := flushes
  refine ⟨bounded, fun none => absurd (closed.mp none) opened, ?_, ?_, ?_, ?_⟩
  · rw [same]
    exact sound.named
  · rw [stream, sound.stream, same]
  · rw [received, ← sound.pending, same]
  · rw [received, ← sound.messages, same]

theorem flushTwice_cases {sends : List SendResult} {output : Bool}
    (done : c.flushTwice output sends = some c') : ∃ first rest,
      (output = true ∧ c.flushOutput sends = some (first, rest) ∨
        output = false ∧ first = c ∧ rest = sends) ∧
      ((first.socket.isSome ∧ first.output.buffer ≠ []) ∧
          (∃ rest', first.flushOutput rest = some (c', rest')) ∨
        ¬(first.socket.isSome ∧ first.output.buffer ≠ []) ∧ c' = first) := by
  unfold flushTwice at done
  rw [Option.bind_eq_some_iff] at done
  obtain ⟨⟨first, rest⟩, flushed, done⟩ := done
  refine ⟨first, rest, ?_, ?_⟩
  · cases output with
    | true => exact Or.inl ⟨rfl, flushed⟩
    | false =>
        cases flushed
        exact Or.inr ⟨rfl, rfl, rfl⟩
  · dsimp only at done
    split at done
    · next more =>
        rw [Option.map_eq_some_iff] at done
        obtain ⟨⟨second, rest'⟩, flushed', rfl⟩ := done
        exact Or.inl ⟨more, rest', flushed'⟩
    · next nothing =>
        cases done
        exact Or.inr ⟨nothing, rfl⟩

theorem flushTwice_flushes {sends : List SendResult} {output : Bool} (bounded : c.output.Bounded)
    (healthy : ∀ result ∈ sends, result.healthy) (done : c.flushTwice output sends = some c') :
    c.Flushes c' := by
  obtain ⟨first, rest, once, twice⟩ := flushTwice_cases done
  have before : c.Flushes first ∧ rest <:+ sends := by
    rcases once with ⟨-, flushed⟩ | ⟨-, rfl, rfl⟩
    · exact flushOutput_flushes bounded healthy flushed
    · exact ⟨flushes_refl bounded, List.suffix_refl _⟩
  rcases twice with ⟨-, rest', flushed⟩ | ⟨-, rfl⟩
  · exact before.1.trans (flushOutput_flushes before.1.bounded
      (fun result mem => healthy result (before.2.subset mem)) flushed).1
  · exact before.1

theorem Sound.sendName (sound : c.Sound) : ∃ output nameSent,
    c.sendName = { c with output := output, nameSent := nameSent } ∧ output.Bounded ∧
      output.unsent = c.output.unsent ++
        (if c.fed = [] ∧ c.name ≠ [] then c.name ++ [newline] else []) ∧
      (nameSent = true ↔ c.name ≠ []) := by
  have named := sound.named
  unfold Client.sendName
  split
  · next unsaid =>
      obtain ⟨more, bounded⟩ := Output.append_unsent sound.bounded (c.name ++ [newline])
      have first : c.fed = [] := by
        by_contra fed
        rw [unsaid.1] at named
        exact absurd (named.mpr ⟨fed, unsaid.2⟩) (by decide)
      refine ⟨_, true, rfl, bounded, ?_, by simp [unsaid.2]⟩
      rw [more, if_pos ⟨first, unsaid.2⟩]
  · next said =>
      refine ⟨c.output, c.nameSent, rfl, sound.bounded, ?_, ?_⟩
      · rw [if_neg, List.append_nil]
        rintro ⟨first, name⟩
        have sent : c.nameSent = true := by
          cases flag : c.nameSent with
          | true => rfl
          | false => exact absurd ⟨flag, name⟩ said
        exact (named.mp sent).1 first
      · constructor
        · exact fun sent => (named.mp sent).2
        · intro name
          cases flag : c.nameSent with
          | true => rfl
          | false => exact absurd ⟨flag, name⟩ said

theorem Sound.feed {msg : Text} {sends : List SendResult} {code : Errcode} (sound : c.Sound)
    (healthy : ∀ result ∈ sends, result.healthy)
    (done : c.chatClientFeed msg sends = some (code, c')) : c'.Sound := by
  unfold chatClientFeed at done
  split at done
  · cases done
    exact sound
  · next opened =>
      split at done
      · cases done
        exact sound
      · next nonempty =>
          dsimp only at done
          rw [Option.map_eq_some_iff] at done
          obtain ⟨⟨flushed, rest⟩, flushing, done⟩ := done
          cases done
          obtain ⟨output, nameSent, same, bounded, unsent, sent⟩ := sound.sendName
          rw [same] at flushing
          obtain ⟨more, bounded'⟩ := Output.append_unsent bounded msg
          refine Sound.flushes ?_ (flushOutput_flushes bounded' healthy flushing).1 opened
          refine ⟨bounded', fun none => absurd none opened, ?_, ?_, sound.pending, sound.messages⟩
          · simp [sent, nonempty]
          · have before := sound.stream
            simp only [Client.stream, sentBytes] at before ⊢
            rw [more, unsent, ← List.append_assoc, ← List.append_assoc, before]
            by_cases first : c.fed = [] <;> by_cases nameless : c.name = [] <;>
              simp [header, first, nameless, nonempty]

theorem takeMessages_eq {fuel : Nat} (enough : c.inputBuffer.length ≤ fuel) :
    takeMessages fuel c =
      { c with
        inputBuffer := Lines.pending newline c.inputBuffer
        messages := c.messages ++ (frames c.inputBuffer).map parseMessage } := by
  induction fuel generalizing c with
  | zero =>
      have empty : c.inputBuffer = [] := List.eq_nil_of_length_eq_zero (Nat.le_zero.mp enough)
      have free : newline ∉ c.inputBuffer := by simp [empty]
      rw [takeMessages, Lines.pending_of_free free, frames_of_free free]
      simp
  | succ fuel ih =>
      rcases line_or_free c.inputBuffer with free | ⟨line, rest, same, free⟩
      · rw [takeMessages, extractMessage_none free, Lines.pending_of_free free,
          frames_of_free free]
        simp
      · rw [takeMessages, same, extractMessage_line free, Lines.pending_line free,
          frames_line free]
        rw [same, List.length_append, List.length_cons] at enough
        have less : rest.length ≤ fuel := by omega
        dsimp only
        split
        · rw [ih less]
        · rw [ih less]
          simp

theorem receivedBytes_some {c : Client} {conn : Connection} (there : c.socket = some conn) :
    c.receivedBytes = conn.received := by
  rw [receivedBytes, there]
  rfl

theorem Sound.receive {conn : Connection} {recvs : List RecvResult} {goesOn : Bool}
    (sound : c.Sound) (there : c.socket = some conn)
    (healthy : ∀ result ∈ recvs, result.healthy)
    (done : c.receive conn recvs = some (goesOn, c')) :
    c'.Sound ∧ c'.socket ≠ none ∧ goesOn = true := by
  rw [Client.receive, Option.map_eq_some_iff] at done
  obtain ⟨⟨received, buffer, conn'⟩, all, done⟩ := done
  obtain ⟨bytes, buffer_eq, received_eq, sent_eq, drained⟩ := recvAll_spec all
  rw [drained healthy] at done
  dsimp only at done
  have taken := @takeMessages_eq { c with inputBuffer := buffer, socket := some conn' }
    buffer.length (Nat.le_refl _)
  rw [taken] at done
  cases done
  have before := receivedBytes_some there
  refine ⟨⟨sound.bounded, by simp, sound.named, ?_, ?_, ?_⟩, by simp, rfl⟩
  · have stream := sound.stream
    simp only [Client.stream, sentBytes, there, Option.map_some, Option.getD_some] at stream ⊢
    rw [sent_eq]
    exact stream
  · simp only [receivedBytes, Option.map_some, Option.getD_some]
    rw [received_eq, buffer_eq, sound.pending, before, ← Lines.pending_append]
  · simp only [receivedBytes, Option.map_some, Option.getD_some]
    rw [received_eq, ← before, frames_append c.receivedBytes bytes, List.map_append,
      ← sound.messages, buffer_eq, sound.pending, List.append_assoc]

def PollResult.healthy : PollResult → Prop
  | .ready broken _ _ => broken = false
  | _ => True

instance (poll : PollResult) : Decidable poll.healthy := by
  cases poll <;> unfold PollResult.healthy <;> infer_instance

theorem Sound.update {poll : PollResult} {recvs : List RecvResult} {sends : List SendResult}
    {code : Errcode} (sound : c.Sound) (whole : poll.healthy)
    (receiving : ∀ result ∈ recvs, result.healthy) (sending : ∀ result ∈ sends, result.healthy)
    (done : c.chatClientUpdate poll recvs sends = some (code, c')) : c'.Sound := by
  unfold chatClientUpdate at done
  split at done
  · cases done
    exact sound
  · next conn there =>
      cases poll with
      | failed =>
          cases done
          exact sound
      | timedOut =>
          cases done
          exact sound
      | ready broken input output =>
          have unbroken : broken = false := whole
          subst unbroken
          simp only [Bool.false_eq_true, if_false, Option.bind_eq_some_iff] at done
          obtain ⟨⟨goesOn, read⟩, reading, done⟩ := done
          have middle : read.Sound ∧ read.socket ≠ none ∧ goesOn = true := by
            split at reading
            · exact sound.receive there receiving reading
            · cases reading
              exact ⟨sound, by simp [there], rfl⟩
          obtain ⟨soundRead, opened, rfl⟩ := middle
          simp only [if_true, Option.map_eq_some_iff] at done
          obtain ⟨flushed, flushing, done⟩ := done
          cases done
          exact soundRead.flushes (flushTwice_flushes soundRead.bounded sending flushing) opened

end Client

end SystemProg.Chat

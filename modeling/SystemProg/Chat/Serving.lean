import SystemProg.Chat.Server

set_option autoImplicit false

namespace SystemProg.Chat

namespace Server

variable {s s' : Server} {k : Nat} {p p' : Peer}

def inputs (s : Server) : List Text := s.peers.map Peer.inputBuffer

def Ready (s : Server) (k : Nat) : Prop := ∀ buffer ∈ s.inputs[k]?, newline ∉ buffer

theorem sound_new : chatServerNew.Sound where
  peers := by simp [chatServerNew]
  known := by simp [chatServerNew]
  lines := by simp [chatServerNew]
  fed := by simp [chatServerNew]
  queued := rfl

theorem Sound.listen (sound : s.Sound) (result : ListenResult) :
    (s.chatServerListen result).2.Sound := by
  unfold chatServerListen
  split
  · exact sound
  · cases result with
    | listening => exact ⟨sound.peers, sound.known, sound.lines, sound.fed, sound.queued⟩
    | _ => exact sound

theorem Sound.pop (sound : s.Sound) : s.chatServerPopNext.2.Sound := by
  unfold chatServerPopNext
  split
  · exact sound
  · next message rest queue =>
      refine ⟨sound.peers, sound.known, sound.lines, sound.fed, ?_⟩
      rw [List.append_assoc, List.singleton_append, ← queue]
      exact sound.queued

theorem Ready.listen (ready : s.Ready k) (result : ListenResult) :
    (s.chatServerListen result).2.Ready k := by
  unfold chatServerListen
  split
  · exact ready
  · cases result <;> exact ready

theorem Ready.pop (ready : s.Ready k) : s.chatServerPopNext.2.Ready k := by
  unfold chatServerPopNext
  split <;> exact ready

theorem Sound.setPeer (sound : s.Sound) (good : PeerSound s.log k p') :
    (s.setPeer k p').Sound := by
  refine ⟨fun i p there => ?_, fun entry mem i source => ?_, sound.lines, sound.fed, sound.queued⟩
  · rw [Server.setPeer, List.getElem?_set] at there
    split at there
    · next same =>
        split at there
        · cases there
          rw [← same]
          exact good
        · cases there
    · exact sound.peers i p there
  · rw [Server.setPeer, List.length_set]
    exact sound.known entry mem i source

theorem setPeer_inputs (s : Server) (k : Nat) (p : Peer) :
    (s.setPeer k p).inputs = s.inputs.set k p.inputBuffer := by
  rw [inputs, Server.setPeer, List.map_set, inputs]

theorem Sound.queue {source : Option Nat} {message : Message} {peers : List Peer}
    (sound : s.Sound) (known : ∀ k, source = some k → k < s.peers.length)
    (lines : Line message.author ∧ Line message.data)
    (fed : source = none → message.author = serverName)
    (length : peers.length = s.peers.length)
    (each : ∀ (i : Nat) (p : Peer), peers[i]? = some p →
      PeerSound (s.log ++ [(source, message)]) i p) :
    Sound { s.queue source message with peers := peers } := by
  refine ⟨each, fun entry mem i from' => ?_, fun entry mem => ?_, fun entry mem => ?_, ?_⟩
  · dsimp only
    rw [length]
    rcases List.mem_append.mp mem with earlier | last
    · exact sound.known entry earlier i from'
    · rw [List.mem_singleton.mp last] at from'
      exact known i from'
  · rcases List.mem_append.mp mem with earlier | last
    · exact sound.lines entry earlier
    · rw [List.mem_singleton.mp last]
      exact lines
  · rcases List.mem_append.mp mem with earlier | last
    · exact sound.fed entry earlier
    · rw [List.mem_singleton.mp last]
      exact fed
  · simp only [Server.queue, ← List.append_assoc, sound.queued, List.map_append]
    rfl

theorem broadcast_inputs {source : Option Nat} {line : Text} {n : Nat} {peers peers' : List Peer}
    {sends rest : List SendResult}
    (done : broadcast source line n peers sends = some (peers', rest)) :
    peers'.map Peer.inputBuffer = peers.map Peer.inputBuffer := by
  obtain ⟨length, each⟩ := broadcast_writes done
  refine List.ext_getElem? fun i => ?_
  rw [List.getElem?_map, List.getElem?_map]
  cases there : peers'[i]? with
  | none =>
      rw [List.getElem?_eq_none_iff, length, ← List.getElem?_eq_none_iff] at there
      rw [there]
  | some p' =>
      obtain ⟨p, before, ⟨output, socket, same⟩, -, -⟩ := each i p' there
      rw [before, same]
      rfl

theorem Sound.accept {accepts : List AcceptResult} {code : Errcode} (sound : s.Sound)
    (done : s.acceptPendingClients accepts = some (code, s')) :
    s'.Sound ∧ ∀ j, s.Ready j → s'.Ready j := by
  induction accepts generalizing s with
  | nil => cases done
  | cons result accepts ih =>
      cases result with
      | accepted client =>
          have sound' : Sound { s with
              peers := s.peers ++ [Peer.new client s.log.length] } := by
            refine ⟨fun i p there => ?_, fun entry mem i source => ?_, sound.lines, sound.fed,
              sound.queued⟩
            · rw [List.getElem?_append] at there
              split at there
              · exact sound.peers i p there
              · next beyond =>
                  rw [List.getElem?_singleton] at there
                  split at there
                  · cases there
                    have nothing : messagesFrom i s.log = [] := by
                      rw [messagesFrom, List.map_eq_nil_iff, List.filter_eq_nil_iff]
                      intro entry mem source
                      exact beyond (sound.known entry mem i (by simpa using source))
                    refine ⟨Nat.le_refl _, by simp [Peer.new], fun _ => ⟨[], ?_⟩⟩
                    refine ⟨Output.empty_bounded, ?_, rfl, rfl, rfl, nothing⟩
                    simp [Peer.new, Peer.stream, Peer.sentBytes, Connection.new, linesFor,
                      Output.empty_unsent]
                  · cases there
            · rw [List.length_append]
              exact Nat.lt_add_right _ (sound.known entry mem i source)
          obtain ⟨soundLast, ready⟩ := ih sound' done
          refine ⟨soundLast, fun j before => ready j fun buffer mem => ?_⟩
          rw [inputs, List.map_append, List.getElem?_append] at mem
          split at mem
          · exact before buffer mem
          · rw [List.map_singleton, List.getElem?_singleton] at mem
            split at mem
            · cases mem
              simp [Peer.new]
            · cases mem
      | interrupted => exact ih sound done
      | wouldBlock =>
          cases done
          exact ⟨sound, fun _ ready => ready⟩
      | failed =>
          cases done
          exact ⟨sound, fun _ ready => ready⟩
      | unset =>
          cases done
          exact ⟨sound, fun _ ready => ready⟩
      | unwatched =>
          cases done
          exact ⟨sound, fun _ ready => ready⟩

theorem PeerSound.taken {log : List (Option Nat × Message)} {line rest : Text}
    (sound : PeerSound log k p) (buffer : p.inputBuffer = line ++ newline :: rest)
    (free : newline ∉ line) (nonempty : trim line ≠ []) (named : p.nameReceived = true) :
    PeerSound (log ++ [(some k, { author := p.name, data := trim line })]) k
      { p with inputBuffer := rest } := by
  refine ⟨?_, sound.named, fun opened => ?_⟩
  · rw [List.length_append]
    exact Nat.le_add_right_of_le sound.since
  · obtain ⟨heard, hears⟩ := sound.hears opened
    exact ⟨_, hears.message sound.since buffer free nonempty named⟩

theorem Sound.said {line rest : Text} {sends sends' : List SendResult} {peers : List Peer}
    (sound : s.Sound) (there : s.peers[k]? = some p)
    (buffer : p.inputBuffer = line ++ newline :: rest) (free : newline ∉ line)
    (nonempty : trim line ≠ []) (named : p.nameReceived = true)
    (done : broadcast (some k) (messageLine p.name (trim line)) 0
      (s.peers.set k { p with inputBuffer := rest }) sends = some (peers, sends')) :
    Sound { s.queue (some k) { author := p.name, data := trim line } with peers := peers } := by
  have within : k < s.peers.length := (List.getElem?_eq_some_iff.mp there).1
  have peer := sound.peers k p there
  obtain ⟨length, each⟩ := broadcast_writes done
  refine sound.queue (fun i same => ?_) ⟨peer.named named, line_trim free nonempty⟩ (by simp)
    (by rw [length, List.length_set]) fun i p' after => ?_
  · cases same
    exact within
  · obtain ⟨before, found, wrote⟩ := each i p' after
    rw [Nat.zero_add] at wrote
    rw [List.getElem?_set] at found
    split at found
    · next same =>
        subst same
        cases found
        rw [if_pos rfl] at wrote
        exact (peer.taken buffer free nonempty named).writes wrote (Nat.le_refl _)
          (List.append_nil _).symm rfl
    · next other =>
        have source : some k ≠ some i := by simpa using other
        rw [if_neg source] at wrote
        exact (sound.peers i before found).other source wrote

theorem inputs_set (there : s.peers[k]? = some p) : s.inputs.set k p.inputBuffer = s.inputs := by
  obtain ⟨within, same⟩ := List.getElem?_eq_some_iff.mp there
  rw [inputs, ← List.map_set, ← same, List.set_getElem_self]

-- What is left of the peer's buffer is the line in progress, and the others are not touched.
theorem takeLines_inputs {fuel : Nat} {sends sends' : List SendResult}
    {progress progress' : Bool} (there : s.peers[k]? = some p)
    (enough : p.inputBuffer.length ≤ fuel)
    (done : takeLines k fuel s sends progress = some (s', sends', progress')) :
    s'.inputs = s.inputs.set k (Lines.pending newline p.inputBuffer) := by
  induction fuel generalizing s p sends progress with
  | zero =>
      have empty : p.inputBuffer = [] := List.eq_nil_of_length_eq_zero (Nat.le_zero.mp enough)
      cases done
      rw [Lines.pending_of_free (by simp [empty])]
      exact (inputs_set there).symm
  | succ fuel ih =>
      rw [takeLines, there] at done
      dsimp only at done
      rcases line_or_free p.inputBuffer with free | ⟨line, rest, same, free⟩
      · rw [extractMessage_none free] at done
        cases done
        rw [Lines.pending_of_free free]
        exact (inputs_set there).symm
      · rw [same, extractMessage_line free] at done
        rw [same, List.length_append, List.length_cons] at enough
        have less : rest.length ≤ fuel := by omega
        have within : k < s.peers.length := (List.getElem?_eq_some_iff.mp there).1
        rw [same, Lines.pending_line free]
        dsimp only at done
        -- The loop goes on with what is left of the buffer.
        have goesOn {s₁ : Server} {sends₁ : List SendResult} {progress₁ : Bool}
            (inputs₁ : s₁.inputs = s.inputs.set k rest)
            (done₁ : takeLines k fuel s₁ sends₁ progress₁ = some (s', sends', progress')) :
            s'.inputs = s.inputs.set k (Lines.pending newline rest) := by
          have left : s₁.inputs[k]? = some rest := by
            rw [inputs₁, List.getElem?_set_self (by rw [inputs, List.length_map]; exact within)]
          rw [inputs, List.getElem?_map, Option.map_eq_some_iff] at left
          obtain ⟨p₁, there₁, kept⟩ := left
          rw [ih there₁ (by rw [kept]; exact less) done₁, inputs₁, List.set_set, kept]
        split at done
        · exact goesOn (setPeer_inputs ..) done
        · split at done
          · exact goesOn (setPeer_inputs ..) done
          · rw [Option.bind_eq_some_iff] at done
            obtain ⟨⟨peers, sends₁⟩, sent, done⟩ := done
            refine goesOn ?_ done
            rw [inputs, broadcast_inputs sent]
            exact setPeer_inputs ..

theorem takeLines_sound {fuel : Nat} {sends sends' : List SendResult} {progress progress' : Bool}
    (sound : s.Sound) (done : takeLines k fuel s sends progress = some (s', sends', progress')) :
    s'.Sound := by
  induction fuel generalizing s sends progress with
  | zero =>
      cases done
      exact sound
  | succ fuel ih =>
      rw [takeLines] at done
      split at done
      · cases done
      · next p there =>
          have peer := sound.peers k p there
          rcases line_or_free p.inputBuffer with free | ⟨line, rest, same, free⟩
          · rw [extractMessage_none free] at done
            cases done
            exact sound
          · rw [same, extractMessage_line free] at done
            dsimp only at done
            split at done
            · next empty =>
                have blank : PeerSound s.log k { p with inputBuffer := rest } :=
                  ⟨peer.since, peer.named, fun opened =>
                    (peer.hears opened).imp fun _ hears => hears.blank same free empty⟩
                exact ih (sound.setPeer blank) done
            · next nonempty =>
                split at done
                · next unnamed =>
                    have name : PeerSound s.log k
                        { p with inputBuffer := rest, name := trim line, nameReceived := true } :=
                      ⟨peer.since, fun _ => line_trim free nonempty, fun opened =>
                        (peer.hears opened).elim fun _ hears =>
                          ⟨_, hears.name same free nonempty unnamed⟩⟩
                    exact ih (sound.setPeer name) done
                · next named =>
                    have named : p.nameReceived = true := by simpa using named
                    rw [Option.bind_eq_some_iff] at done
                    obtain ⟨⟨peers, sends₁⟩, sent, done⟩ := done
                    have full : fullMsg { p with inputBuffer := rest } (trim line) =
                        messageLine p.name (trim line) :=
                      if_pos ⟨named, (peer.named named).nonempty⟩
                    rw [full] at sent
                    exact ih (sound.said there same free nonempty named sent) done

theorem Hears.receive {log : List (Option Nat × Message)} {heard : List Text} {bytes : Text}
    {conn conn' : Connection} (hears : Hears log k p heard) (there : p.socket = some conn)
    (received : conn'.received = conn.received ++ bytes) (sent : conn'.sent = conn.sent) :
    Hears log k { p with inputBuffer := p.inputBuffer ++ bytes, socket := some conn' } heard := by
  have before : p.receivedBytes = conn.received := by
    rw [Peer.receivedBytes, there]
    rfl
  have lines := hears.lines
  have rest := hears.rest
  rw [before] at lines rest
  refine ⟨hears.bounded, ?_, ?_, ?_, hears.named, hears.queued⟩
  · have stream := hears.stream
    rw [Peer.stream, Peer.sentBytes, there] at stream
    rw [Peer.stream, Peer.sentBytes, ← stream]
    exact congrArg (· ++ p.output.unsent) sent
  · simp only [Peer.receivedBytes, Option.map_some, Option.getD_some, received]
    rw [frames_append, frames_append conn.received, ← List.append_assoc, lines, rest]
  · simp only [Peer.receivedBytes, Option.map_some, Option.getD_some, received]
    rw [Lines.pending_append, rest, ← Lines.pending_append]

theorem peerInput_inputs {conn : Connection} {recvs : List RecvResult}
    {sends sends' : List SendResult} {goesOn progress progress' : Bool}
    (there : s.peers[k]? = some p)
    (done : s.peerInput k p conn recvs sends progress = some (goesOn, s', sends', progress')) :
    (∀ j, j ≠ k → s'.inputs[j]? = s.inputs[j]?) ∧ (goesOn = true → s'.Ready k) ∧
      ∃ received buffer conn', recvAll p.inputBuffer conn recvs = some (received, buffer, conn') ∧
        (goesOn = true ↔ received ≠ .failed) := by
  rw [peerInput, Option.bind_eq_some_iff] at done
  obtain ⟨⟨received, buffer, conn'⟩, all, done⟩ := done
  have within : k < s.peers.length := (List.getElem?_eq_some_iff.mp there).1
  have takes (p₁ : Peer) {progress₁ : Bool}
      (taken : takeLines k p₁.inputBuffer.length (s.setPeer k p₁) sends progress₁ =
        some (s', sends', progress')) :
      (∀ j, j ≠ k → s'.inputs[j]? = s.inputs[j]?) ∧ s'.Ready k := by
    have inputs' := takeLines_inputs (List.getElem?_set_self within) (Nat.le_refl _) taken
    rw [setPeer_inputs, List.set_set] at inputs'
    refine ⟨fun j other => ?_, fun left mem => ?_⟩
    · rw [inputs', List.getElem?_set_ne (Ne.symm other)]
    · rw [inputs', List.getElem?_set_self (by rw [inputs, List.length_map]; exact within)] at mem
      cases mem
      exact Lines.pending_free _
  cases received with
  | failed =>
      cases done
      refine ⟨fun j other => ?_, by simp, .failed, buffer, conn', all, by simp⟩
      rw [setPeer_inputs, List.getElem?_set_ne (Ne.symm other)]
  | ended =>
      rw [Option.map_eq_some_iff] at done
      obtain ⟨taken, takes', same⟩ := done
      cases same
      obtain ⟨others, ready⟩ := takes { p with inputBuffer := buffer, socket := none } takes'
      exact ⟨others, fun _ => ready, .ended, buffer, conn', all, by simp⟩
  | drained =>
      rw [Option.map_eq_some_iff] at done
      obtain ⟨taken, takes', same⟩ := done
      cases same
      obtain ⟨others, ready⟩ := takes { p with inputBuffer := buffer, socket := some conn' } takes'
      exact ⟨others, fun _ => ready, .drained, buffer, conn', all, by simp⟩

theorem peerInput_sound {conn : Connection} {recvs : List RecvResult}
    {sends sends' : List SendResult} {goesOn progress progress' : Bool} (sound : s.Sound)
    (there : s.peers[k]? = some p) (socket : p.socket = some conn)
    (done : s.peerInput k p conn recvs sends progress = some (goesOn, s', sends', progress')) :
    s'.Sound := by
  rw [peerInput, Option.bind_eq_some_iff] at done
  obtain ⟨⟨received, buffer, conn'⟩, all, done⟩ := done
  obtain ⟨bytes, buffer_eq, received_eq, sent_eq, -⟩ := recvAll_spec all
  have peer := sound.peers k p there
  have read : PeerSound s.log k { p with inputBuffer := buffer, socket := some conn' } := by
    refine ⟨peer.since, peer.named, fun _ => ?_⟩
    obtain ⟨heard, hears⟩ := peer.hears (by simp [socket])
    rw [buffer_eq]
    exact ⟨heard, hears.receive socket received_eq sent_eq⟩
  cases received with
  | failed =>
      cases done
      exact sound.setPeer read
  | ended =>
      rw [Option.map_eq_some_iff] at done
      obtain ⟨taken, takes, same⟩ := done
      cases same
      have closed : PeerSound s.log k { p with inputBuffer := buffer, socket := none } :=
        ⟨peer.since, peer.named, fun opened => absurd rfl opened⟩
      exact takeLines_sound (sound.setPeer closed) takes
  | drained =>
      rw [Option.map_eq_some_iff] at done
      obtain ⟨taken, takes, same⟩ := done
      cases same
      exact takeLines_sound (sound.setPeer read) takes

theorem peerOutput_spec {sends sends' : List SendResult} {progress progress' : Bool}
    (sound : s.Sound) (done : s.peerOutput k sends progress = some (s', sends', progress')) :
    s'.Sound ∧ s'.inputs = s.inputs := by
  unfold peerOutput at done
  split at done
  · cases done
  · next peer there =>
      split at done
      · rw [Option.map_eq_some_iff] at done
        obtain ⟨⟨flushed, rest⟩, flushing, same⟩ := done
        cases same
        have wrote := Peer.flushPeerOutput_writes flushing
        refine ⟨sound.setPeer ((sound.peers k peer there).writes wrote (Nat.le_refl _)
          (List.append_nil _).symm rfl), ?_⟩
        obtain ⟨output, socket, same⟩ := wrote.same
        rw [setPeer_inputs, same]
        exact @inputs_set s k peer there
      · cases done
        exact ⟨sound, rfl⟩

def Event.healthy (k : Nat) : Event → Prop
  | .listening _ => True
  | .peer j _ _ _ recvs => j = k → ∀ result ∈ recvs, result.healthy

instance (k : Nat) (event : Event) : Decidable (event.healthy k) := by
  cases event <;> unfold Event.healthy <;> infer_instance

theorem peerEvent_spec {j : Nat} {broken input output goesOn progress progress' : Bool}
    {recvs : List RecvResult} {sends sends' : List SendResult} (sound : s.Sound)
    (done : s.peerEvent j broken input output recvs sends progress =
      some (goesOn, s', sends', progress')) :
    s'.Sound ∧ ∀ k, (j = k → ∀ result ∈ recvs, result.healthy) → s.Ready k → s'.Ready k := by
  unfold peerEvent at done
  split at done
  · cases done
  · next peer there =>
      split at done
      · cases done
        exact ⟨sound, fun _ _ ready => ready⟩
      · next conn socket =>
          have good := sound.peers j peer there
          split at done
          · cases done
            refine ⟨sound.setPeer ⟨good.since, good.named, fun opened => absurd rfl opened⟩,
              fun k _ ready => ?_⟩
            rw [Ready, setPeer_inputs]
            exact (inputs_set there).symm ▸ ready
          · rw [Option.bind_eq_some_iff] at done
            obtain ⟨⟨goesOn₁, s₁, sends₁, progress₁⟩, reading, done⟩ := done
            have read : s₁.Sound ∧ ∀ k, (j = k → ∀ result ∈ recvs, result.healthy) →
                s.Ready k → s₁.Ready k := by
              split at reading
              · obtain ⟨others, own, received, buffer, conn', all, failed⟩ :=
                  peerInput_inputs there reading
                refine ⟨peerInput_sound sound there socket reading, fun k healthy ready => ?_⟩
                by_cases same : j = k
                · subst same
                  obtain ⟨-, -, -, -, drained⟩ := recvAll_spec all
                  exact own (failed.mpr (by rw [drained (healthy rfl)]; decide))
                · rw [Ready, others k (Ne.symm same)]
                  exact ready
              · cases reading
                exact ⟨sound, fun _ _ ready => ready⟩
            dsimp only at done
            split at done
            · rw [Option.map_eq_some_iff] at done
              obtain ⟨⟨s₂, sends₂, progress₂⟩, flushing, done⟩ := done
              cases done
              obtain ⟨sound', inputs'⟩ := peerOutput_spec read.1 flushing
              refine ⟨sound', fun k healthy ready => ?_⟩
              rw [Ready, inputs']
              exact read.2 k healthy ready
            · cases done
              exact read

theorem handleEvents_spec {events : List Event} {sends : List SendResult} {progress : Bool}
    {code : Errcode} (sound : s.Sound)
    (done : handleEvents events s sends progress = some (code, s')) :
    s'.Sound ∧ ∀ k, (∀ event ∈ events, event.healthy k) → s.Ready k → s'.Ready k := by
  induction events generalizing s sends progress with
  | nil =>
      cases done
      exact ⟨sound, fun _ _ ready => ready⟩
  | cons event events ih =>
      cases event with
      | listening accepts =>
          rw [handleEvents, Option.bind_eq_some_iff] at done
          obtain ⟨⟨code₁, s₁⟩, accepting, done⟩ := done
          obtain ⟨sound₁, ready₁⟩ := sound.accept accepting
          split at done
          · obtain ⟨sound', ready'⟩ := ih sound₁ done
            exact ⟨sound', fun k healthy ready =>
              ready' k (fun e mem => healthy e (List.mem_cons_of_mem _ mem)) (ready₁ k ready)⟩
          · cases done
            exact ⟨sound₁, fun k _ => ready₁ k⟩
      | peer j broken input output recvs =>
          rw [handleEvents, Option.bind_eq_some_iff] at done
          obtain ⟨⟨goesOn, s₁, sends₁, progress₁⟩, one, done⟩ := done
          obtain ⟨sound₁, ready₁⟩ := peerEvent_spec sound one
          have first (k : Nat) (healthy : ∀ e ∈ Event.peer j broken input output recvs :: events,
              e.healthy k) (ready : s.Ready k) : s₁.Ready k :=
            ready₁ k (healthy _ (List.mem_cons_self ..)) ready
          dsimp only at done
          split at done
          · obtain ⟨sound', ready'⟩ := ih sound₁ done
            exact ⟨sound', fun k healthy ready =>
              ready' k (fun e mem => healthy e (List.mem_cons_of_mem _ mem))
                (first k healthy ready)⟩
          · cases done
            exact ⟨sound₁, first⟩

def EpollResult.healthy (k : Nat) : EpollResult → Prop
  | .ready events => ∀ event ∈ events, event.healthy k
  | _ => True

instance (k : Nat) (epoll : EpollResult) : Decidable (epoll.healthy k) := by
  cases epoll <;> unfold EpollResult.healthy <;> infer_instance

theorem Sound.update {epoll : EpollResult} {sends : List SendResult} {code : Errcode}
    (sound : s.Sound) (done : s.chatServerUpdate epoll sends = some (code, s')) :
    s'.Sound ∧ ∀ k, epoll.healthy k → s.Ready k → s'.Ready k := by
  unfold chatServerUpdate at done
  split at done
  · cases done
    exact ⟨sound, fun _ _ ready => ready⟩
  · cases epoll with
    | failed =>
        cases done
        exact ⟨sound, fun _ _ ready => ready⟩
    | timedOut =>
        cases done
        exact ⟨sound, fun _ _ ready => ready⟩
    | ready events =>
        dsimp only at done
        split at done
        · exact handleEvents_spec sound done
        · cases done

theorem Sound.buffer (sound : s.Sound) (text : Text) : Sound { s with inputBuffer := text } :=
  ⟨sound.peers, sound.known, sound.lines, sound.fed, sound.queued⟩

theorem feedLines_spec {fuel : Nat} {sends : List SendResult} (sound : s.Sound)
    (done : feedLines fuel s sends = some s') : s'.Sound ∧ s'.inputs = s.inputs := by
  induction fuel generalizing s sends with
  | zero =>
      cases done
      exact ⟨sound, rfl⟩
  | succ fuel ih =>
      rw [feedLines] at done
      rcases line_or_free s.inputBuffer with free | ⟨line, rest, same, free⟩
      · rw [extractMessage_none free] at done
        cases done
        exact ⟨sound, rfl⟩
      · rw [same, extractMessage_line free] at done
        dsimp only at done
        split at done
        · have later := ih (sound.buffer rest) done
          exact later
        · next nonempty =>
            rw [Option.bind_eq_some_iff] at done
            obtain ⟨⟨peers, sends₁⟩, sent, done⟩ := done
            obtain ⟨length, each⟩ := broadcast_writes sent
            have reached : ∀ (i : Nat) (p' : Peer), peers[i]? = some p' → PeerSound
                (s.log ++ [(none, { author := serverName, data := trim line })]) i p' := by
              intro i p' after
              obtain ⟨p, before, wrote⟩ := each i p' after
              rw [if_neg (by simp)] at wrote
              exact (sound.peers i p before).other (by simp) wrote
            have sound₁ := (sound.buffer rest).queue (by simp)
              ⟨serverName_line, line_trim free nonempty⟩ (fun _ => rfl) length reached
            obtain ⟨sound', inputs'⟩ := ih sound₁ done
            exact ⟨sound', inputs'.trans (broadcast_inputs sent)⟩

theorem Sound.feed {msg : Text} {accepts : List AcceptResult} {sends : List SendResult}
    {code : Errcode} (sound : s.Sound)
    (done : s.chatServerFeed msg accepts sends = some (code, s')) :
    s'.Sound ∧ ∀ k, s.Ready k → s'.Ready k := by
  unfold chatServerFeed at done
  split at done
  · cases done
    exact ⟨sound, fun _ ready => ready⟩
  · split at done
    · cases done
      exact ⟨sound, fun _ ready => ready⟩
    · rw [Option.bind_eq_some_iff] at done
      obtain ⟨⟨code₁, s₁⟩, accepting, done⟩ := done
      obtain ⟨sound₁, ready₁⟩ := sound.accept accepting
      split at done
      · rw [Option.map_eq_some_iff] at done
        obtain ⟨s₂, feeding, done⟩ := done
        cases done
        obtain ⟨sound', inputs'⟩ := feedLines_spec (sound₁.buffer _) feeding
        refine ⟨sound', fun k ready => ?_⟩
        rw [Ready, inputs']
        exact ready₁ k ready
      · cases done
        exact ⟨sound₁, ready₁⟩

end Server

end SystemProg.Chat

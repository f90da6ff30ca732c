import SystemProg.Chat.Serving

set_option autoImplicit false

-- The events are edges: what is not used up when the function returns is not reported again.

namespace SystemProg.Chat

-- The answers that end the loop around `recv`, and the one around `accept`.
def RecvResult.final : RecvResult → Bool
  | .received _ | .interrupted => false
  | _ => true

def Server.AcceptResult.final : Server.AcceptResult → Bool
  | .accepted _ | .interrupted => false
  | _ => true

def Received.answer : Received → RecvResult
  | .drained => .wouldBlock
  | .ended => .ended
  | .failed => .failed

theorem recvAll_last {results : List RecvResult} {buffer buffer' : Text}
    {conn conn' : Connection} {received : Received}
    (done : recvAll buffer conn results = some (received, buffer', conn')) :
    results.find? RecvResult.final = some received.answer := by
  fun_induction recvAll buffer conn results with
  | case1 => cases done
  | case2 buffer conn bytes rest within ih => exact ih done
  | case3 => cases done
  | case4 buffer conn rest ih => exact ih done
  | _ =>
      cases done
      rfl

namespace Server

theorem accept_last {s s' : Server} {accepts : List AcceptResult} {code : Errcode}
    (done : s.acceptPendingClients accepts = some (code, s')) :
    code = .ok ↔ accepts.find? AcceptResult.final = some .wouldBlock := by
  fun_induction acceptPendingClients s accepts with
  | case1 => cases done
  | case2 s client rest ih => exact ih done
  | case3 s rest ih => exact ih done
  | _ =>
      cases done
      simp [AcceptResult.final]

structure Visit where
  event : Event
  before : Server
  -- After EPOLLIN, and after the event.
  read : Server × List SendResult
  after : Server × List SendResult

def visits : List Event → Server → List SendResult → Bool → List Visit
  | [], _, _, _ => []
  | .listening accepts :: rest, server, sends, _ =>
      match server.acceptPendingClients accepts with
      | none => []
      | some (code, next) =>
          { event := .listening accepts
            before := server
            read := (next, sends)
            after := (next, sends) } :: if code = .ok then visits rest next sends true else []
  | .peer k broken input output recvs :: rest, server, sends, progress =>
      match server.peerEvent k broken input false recvs sends progress,
        server.peerEvent k broken input output recvs sends progress with
      | some read, some done =>
          { event := .peer k broken input output recvs
            before := server
            read := (read.2.1, read.2.2.1)
            after := (done.2.1, done.2.2.1) } ::
              if done.1 then visits rest done.2.1 done.2.2.1 done.2.2.2 else []
      | _, _ => []

-- Nothing is left of the event: the loops have run until there is nothing more, the complete
-- lines have been taken, and what is unsent has been tried to be sent.
def Visit.UsedUp (v : Visit) : Prop :=
  match v.event with
  | .listening accepts => accepts.find? AcceptResult.final = some .wouldBlock
  | .peer k broken input output recvs =>
      ∀ p, v.before.peers[k]? = some p → p.socket ≠ none →
        if broken then ∃ p', v.after.1.peers[k]? = some p' ∧ p'.socket = none
        else
          (input = true → (recvs.find? RecvResult.final = some .wouldBlock ∨
            recvs.find? RecvResult.final = some .ended) ∧ v.read.1.Ready k) ∧
          (output = true → ∀ p', v.read.1.peers[k]? = some p' →
            p'.output.sent < p'.output.buffer.length →
              ∃ p'', flushPeerOutput p' v.read.2 = some (p'', v.after.2) ∧
                v.after.1.peers[k]? = some p'')

def Visit.Unfailed (v : Visit) : Prop :=
  match v.event with
  | .listening accepts =>
      ∀ last ∈ accepts.find? AcceptResult.final,
        last ≠ .failed ∧ last ≠ .unset ∧ last ≠ .unwatched
  | .peer k broken input _ recvs =>
      ∀ p, v.before.peers[k]? = some p → p.socket ≠ none → broken = false → input = true →
        recvs.find? RecvResult.final ≠ some .failed

theorem accept_unfailed {s s' : Server} {accepts : List AcceptResult} {code : Errcode}
    (done : s.acceptPendingClients accepts = some (code, s')) :
    code = .ok ↔ ∀ last ∈ accepts.find? AcceptResult.final,
      last ≠ .failed ∧ last ≠ .unset ∧ last ≠ .unwatched := by
  fun_induction acceptPendingClients s accepts with
  | case1 => cases done
  | case2 s client rest ih => exact ih done
  | case3 s rest ih => exact ih done
  | _ =>
      cases done
      simp [AcceptResult.final]

variable {s s' : Server} {k : Nat} {broken input output goesOn progress progress' : Bool}
  {recvs : List RecvResult} {sends sends' : List SendResult}

theorem peerInput_last {peer : Peer} {conn : Connection} (there : s.peers[k]? = some peer)
    (done : s.peerInput k peer conn recvs sends progress = some (goesOn, s', sends', progress')) :
    ((recvs.find? RecvResult.final = some .wouldBlock ∨
        recvs.find? RecvResult.final = some .ended) ∧ s'.Ready k ↔ goesOn = true) ∧
      (recvs.find? RecvResult.final ≠ some .failed ↔ goesOn = true) := by
  obtain ⟨-, ready, received, buffer, conn', all, failed⟩ := peerInput_inputs there done
  rw [recvAll_last all]
  cases received with
  | drained =>
      have on : goesOn = true := failed.mpr (by decide)
      simp [Received.answer, on, ready on]
  | ended =>
      have on : goesOn = true := failed.mpr (by decide)
      simp [Received.answer, on, ready on]
  | failed =>
      have off : goesOn ≠ true := fun on => failed.mp on rfl
      simp [Received.answer, off]

theorem peerOutput_flushes (done : s.peerOutput k sends progress = some (s', sends', progress'))
    {p : Peer} (there : s.peers[k]? = some p) (unsent : p.output.sent < p.output.buffer.length) :
    ∃ p', flushPeerOutput p sends = some (p', sends') ∧ s'.peers[k]? = some p' := by
  have within : k < s.peers.length := (List.getElem?_eq_some_iff.mp there).1
  rw [peerOutput, there] at done
  dsimp only at done
  rw [if_pos unsent, Option.map_eq_some_iff] at done
  obtain ⟨⟨p', rest⟩, flushed, same⟩ := done
  cases same
  exact ⟨p', flushed, List.getElem?_set_self within⟩

theorem peerEvent_used
    (done : s.peerEvent k broken input output recvs sends progress =
      some (goesOn, s', sends', progress')) :
    ∃ read, s.peerEvent k broken input false recvs sends progress = some read ∧
      let v : Visit :=
        { event := .peer k broken input output recvs
          before := s
          read := (read.2.1, read.2.2.1)
          after := (s', sends') }
      (v.UsedUp ↔ goesOn = true) ∧ (v.Unfailed ↔ goesOn = true) := by
  unfold peerEvent at done ⊢
  split at done
  · cases done
  · next peer there =>
      split at done
      · next closed =>
          cases done
          refine ⟨_, rfl, ?_, ?_⟩
          · simp [Visit.UsedUp, there, closed]
          · simp [Visit.Unfailed, there, closed]
      · next conn opened =>
          have within : k < s.peers.length := (List.getElem?_eq_some_iff.mp there).1
          split at done
          · next isBroken =>
              cases done
              rw [if_pos isBroken]
              refine ⟨_, rfl, ?_, ?_⟩
              · simp [Visit.UsedUp, isBroken, Server.setPeer, within]
              · simp [Visit.Unfailed, isBroken]
          · next whole =>
              rw [Option.bind_eq_some_iff] at done
              obtain ⟨⟨on, s₁, sends₁, progress₁⟩, reading, done⟩ := done
              rw [if_neg whole, reading]
              refine ⟨(on, s₁, sends₁, progress₁), by simp, ?_⟩
              have same : goesOn = on := by
                split at done
                · next both =>
                    rw [Option.map_eq_some_iff] at done
                    obtain ⟨flushed, -, same⟩ := done
                    cases same
                    exact both.1.symm
                · cases done
                  rfl
              have read : ((input = true → (recvs.find? RecvResult.final = some .wouldBlock ∨
                    recvs.find? RecvResult.final = some .ended) ∧ s₁.Ready k) ↔ on = true) ∧
                  ((input = true → recvs.find? RecvResult.final ≠ some .failed) ↔ on = true) := by
                split at reading
                · next input =>
                    obtain ⟨last, failed⟩ := peerInput_last there reading
                    simp [input, last, failed]
                · next input =>
                    cases reading
                    simp [input]
              have flushes (both : on = true ∧ output = true) (p' : Peer)
                  (there' : s₁.peers[k]? = some p')
                  (unsent : p'.output.sent < p'.output.buffer.length) :
                  ∃ p'', flushPeerOutput p' sends₁ = some (p'', sends') ∧
                    s'.peers[k]? = some p'' := by
                rw [if_pos both, Option.map_eq_some_iff] at done
                obtain ⟨flushed, flushing, same⟩ := done
                cases same
                exact peerOutput_flushes flushing there' unsent
              rw [same]
              constructor
              · constructor
                · intro used
                  have all := used peer there (by simp [opened])
                  rw [if_neg whole] at all
                  exact read.1.mp all.1
                · intro isOn p found _
                  rw [there] at found
                  cases found
                  rw [if_neg whole]
                  exact ⟨read.1.mpr isOn, fun isOutput => flushes ⟨isOn, isOutput⟩⟩
              · constructor
                · intro unfailed
                  exact read.2.mp (unfailed peer there (by simp [opened]) (by simpa using whole))
                · intro isOn p found _ _
                  exact read.2.mpr isOn

theorem handleEvents_used {events : List Event} {code : Errcode}
    (done : handleEvents events s sends progress = some (code, s')) :
    ((visits events s sends progress).map Visit.event = events ∧
        ∀ v ∈ visits events s sends progress, v.UsedUp) ↔
      ∀ v ∈ visits events s sends progress, v.Unfailed := by
  induction events generalizing s sends progress with
  | nil => simp [visits]
  | cons event events ih =>
      cases event with
      | listening accepts =>
          rw [handleEvents, Option.bind_eq_some_iff] at done
          obtain ⟨⟨code₁, s₁⟩, accepting, done⟩ := done
          have used := accept_last accepting
          have unfailed := accept_unfailed accepting
          rw [visits, accepting]
          dsimp only at done ⊢
          by_cases on : code₁ = .ok
          · rw [if_pos on] at done ⊢
            have later := ih done
            simp only [List.map_cons, List.cons.injEq, true_and, List.forall_mem_cons]
            rw [and_left_comm, later]
            exact and_congr_left' (used.symm.trans unfailed)
          · rw [if_neg on]
            have left : accepts.find? AcceptResult.final ≠ some .wouldBlock := fun last =>
              on (used.mpr last)
            constructor
            · rintro ⟨-, all⟩
              exact absurd (all _ (List.mem_singleton.mpr rfl)) left
            · intro all
              exact absurd (unfailed.mpr (all _ (List.mem_singleton.mpr rfl))) on
      | peer k broken input output recvs =>
          rw [handleEvents, Option.bind_eq_some_iff] at done
          obtain ⟨⟨goesOn, s₁, sends₁, progress₁⟩, one, done⟩ := done
          obtain ⟨read, reading, used, unfailed⟩ := peerEvent_used one
          rw [visits, reading, one]
          dsimp only at done ⊢
          by_cases on : goesOn = true
          · rw [if_pos on] at done ⊢
            have later := ih done
            simp only [List.map_cons, List.cons.injEq, true_and, List.forall_mem_cons]
            rw [and_left_comm, later]
            exact and_congr_left' (used.trans unfailed.symm)
          · rw [if_neg on]
            constructor
            · rintro ⟨-, all⟩
              exact absurd (used.mp (all _ (List.mem_singleton.mpr rfl))) on
            · intro all
              exact absurd (unfailed.mp (all _ (List.mem_singleton.mpr rfl))) on

theorem batch_used_iff {events : List Event} {code : Errcode} (listening : s.listening = true)
    (done : s.chatServerUpdate (.ready events) sends = some (code, s')) :
    ((visits events s sends false).map Visit.event = events ∧
        ∀ v ∈ visits events s sends false, v.UsedUp) ↔
      ∀ v ∈ visits events s sends false, v.Unfailed := by
  have started : ¬ s.listening = false := by simp [listening]
  rw [chatServerUpdate, if_neg started] at done
  split at done
  · exact handleEvents_used done
  · cases done

def twoPeers : Server :=
  { (chatServerListen chatServerNew .listening).2 with peers := [Peer.new 0 0, Peer.new 1 0] }

def bothRead (first : List RecvResult) : List Event :=
  [.peer 0 false true false first, .peer 1 false true false [.received [104, 10], .wouldBlock]]

theorem batch_used_both : ∃ s', twoPeers.chatServerUpdate
      (.ready (bothRead [.interrupted, .received [97, 10], .wouldBlock])) [] = some (.ok, s') ∧
    (visits (bothRead [.interrupted, .received [97, 10], .wouldBlock]) twoPeers [] false).map
        Visit.event = bothRead [.interrupted, .received [97, 10], .wouldBlock] ∧
    ∀ v ∈ visits (bothRead [.interrupted, .received [97, 10], .wouldBlock]) twoPeers [] false,
      v.UsedUp := by
  refine ⟨_, rfl, ?_⟩
  refine (@batch_used_iff twoPeers _ _ (bothRead [.interrupted, .received [97, 10], .wouldBlock])
    .ok rfl rfl).mpr fun v mem => ?_
  rcases List.mem_cons.mp mem with rfl | later
  · intro p _ _ _ _
    decide
  · rcases List.mem_cons.mp later with rfl | none
    · intro p _ _ _ _
      decide
    · cases none

theorem batch_dropped :
    (∃ accepted, (chatServerListen chatServerNew .listening).2.chatServerUpdate
        (.ready [.listening [.accepted 0, .accepted 1, .wouldBlock]]) [] = some (.ok, accepted) ∧
      accepted = twoPeers) ∧
    ∃ s', twoPeers.chatServerUpdate (.ready (bothRead [.failed])) [] = some (.sys, s') ∧
      (visits (bothRead [.failed]) twoPeers [] false).map Visit.event ≠ bothRead [.failed] ∧
      ∃ p, s'.peers[1]? = some p ∧ p.socket ≠ none ∧ p.receivedBytes = [] :=
  ⟨⟨_, rfl, rfl⟩, _, rfl, by decide, _, rfl, by decide, rfl⟩

end Server

end SystemProg.Chat

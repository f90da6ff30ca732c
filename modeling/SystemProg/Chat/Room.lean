import Mathlib.Data.List.Infix
import SystemProg.Lib.Run
import SystemProg.Chat.Client
import SystemProg.Chat.Serving

set_option autoImplicit false

namespace SystemProg.Chat

-- Nothing goes wrong with the connection of the client `i`, which is the server's peer `k`.
def Action.healthy (i k : Nat) : Action → Prop
  | .clientFeed j _ sends => j = i → ∀ result ∈ sends, result.healthy
  | .clientUpdate j poll recvs sends =>
      j = i → poll.healthy ∧ (∀ result ∈ recvs, result.healthy) ∧ ∀ result ∈ sends, result.healthy
  | .serverUpdate epoll _ => epoll.healthy k
  | _ => True

instance (i k : Nat) (action : Action) : Decidable (action.healthy i k) := by
  cases action <;> unfold Action.healthy <;> infer_instance

def Action.clientHealthy (i : Nat) : Action → Prop
  | .clientFeed j _ sends => j = i → ∀ result ∈ sends, result.healthy
  | .clientUpdate j poll recvs sends =>
      j = i → poll.healthy ∧ (∀ result ∈ recvs, result.healthy) ∧ ∀ result ∈ sends, result.healthy
  | _ => True

def Action.peerHealthy (k : Nat) : Action → Prop
  | .serverUpdate epoll _ => epoll.healthy k
  | _ => True

instance (i : Nat) (action : Action) : Decidable (action.clientHealthy i) := by
  cases action <;> unfold Action.clientHealthy <;> infer_instance

instance (k : Nat) (action : Action) : Decidable (action.peerHealthy k) := by
  cases action <;> unfold Action.peerHealthy <;> infer_instance

theorem healthy_iff (i k : Nat) (action : Action) :
    action.healthy i k ↔ action.clientHealthy i ∧ action.peerHealthy k := by
  cases action <;> simp [Action.healthy, Action.clientHealthy, Action.peerHealthy]

namespace Room

variable {s s' : Room} {i k : Nat} {c c' : Client} {p : Peer}

def ClientSound (s : Room) (i : Nat) : Prop := ∀ c, s.clients[i]? = some c → c.Sound

structure Sound (s : Room) (i k : Nat) : Prop where
  client : ∀ c, s.clients[i]? = some c → c.Sound
  server : s.server.Sound
  ready : s.server.Ready k

theorem clientSound_init (i : Nat) : init.ClientSound i := by
  intro c there
  simp [init] at there

theorem ready_init (k : Nat) : init.server.Ready k := by
  simp [init, Server.chatServerNew, Server.Ready, Server.inputs]

theorem ClientSound.setClient {j : Nat} (sound : s.ClientSound i) (good : j = i → c'.Sound) :
    (s.setClient j c').ClientSound i := by
  intro c there
  rw [Room.setClient, List.getElem?_set] at there
  split at there
  · next same =>
      split at there
      · cases there
        exact good same
      · cases there
  · exact sound c there

theorem step_clientSound {action : Action} (sound : s.ClientSound i)
    (healthy : action.clientHealthy i) (taken : s.step action = some s') : s'.ClientSound i := by
  cases action with
  | clientNew name =>
      cases taken
      intro c there
      rw [List.getElem?_append] at there
      split at there
      · exact sound c there
      · rw [List.getElem?_singleton] at there
        split at there
        · cases there
          exact Client.sound_new name
        · cases there
  | connect j addr result =>
      rw [step, Option.map_eq_some_iff] at taken
      obtain ⟨c, there, rfl⟩ := taken
      refine sound.setClient fun same => ?_
      subst same
      exact (sound c there).connect addr result
  | clientFeed j msg sends =>
      rw [step, Option.bind_eq_some_iff] at taken
      obtain ⟨c, there, taken⟩ := taken
      rw [Option.map_eq_some_iff] at taken
      obtain ⟨⟨code, c'⟩, done, rfl⟩ := taken
      refine sound.setClient fun same => ?_
      subst same
      exact (sound c there).feed (healthy rfl) done
  | clientUpdate j poll recvs sends =>
      rw [step, Option.bind_eq_some_iff] at taken
      obtain ⟨c, there, taken⟩ := taken
      rw [Option.map_eq_some_iff] at taken
      obtain ⟨⟨code, c'⟩, done, rfl⟩ := taken
      refine sound.setClient fun same => ?_
      subst same
      obtain ⟨whole, receiving, sending⟩ := healthy rfl
      exact (sound c there).update whole receiving sending done
  | clientPop j =>
      rw [step, Option.map_eq_some_iff] at taken
      obtain ⟨c, there, rfl⟩ := taken
      refine sound.setClient fun same => ?_
      subst same
      exact (sound c there).pop
  | listen result =>
      cases taken
      exact sound
  | serverUpdate epoll sends =>
      rw [step, Option.map_eq_some_iff] at taken
      obtain ⟨done, -, rfl⟩ := taken
      exact sound
  | serverFeed msg accepts sends =>
      rw [step, Option.map_eq_some_iff] at taken
      obtain ⟨done, -, rfl⟩ := taken
      exact sound
  | serverPop =>
      cases taken
      exact sound

theorem step_cases {action : Action} (taken : s.step action = some s') :
    (s'.server = s.server ∧ ∀ msg accepts sends, action ≠ .serverFeed msg accepts sends) ∨
    (∃ result, action = .listen result ∧ s'.server = (s.server.chatServerListen result).2) ∨
    (∃ epoll sends code, action = .serverUpdate epoll sends ∧
      s.server.chatServerUpdate epoll sends = some (code, s'.server)) ∨
    (∃ msg accepts sends code, action = .serverFeed msg accepts sends ∧
      s.server.chatServerFeed msg accepts sends = some (code, s'.server)) ∨
    action = .serverPop ∧ s'.server = s.server.chatServerPopNext.2 := by
  cases action with
  | clientNew name =>
      cases taken
      exact Or.inl ⟨rfl, by simp⟩
  | connect j addr result =>
      rw [step, Option.map_eq_some_iff] at taken
      obtain ⟨c, -, rfl⟩ := taken
      exact Or.inl ⟨rfl, by simp⟩
  | clientFeed j msg sends =>
      rw [step, Option.bind_eq_some_iff] at taken
      obtain ⟨c, -, taken⟩ := taken
      rw [Option.map_eq_some_iff] at taken
      obtain ⟨done, -, rfl⟩ := taken
      exact Or.inl ⟨rfl, by simp⟩
  | clientUpdate j poll recvs sends =>
      rw [step, Option.bind_eq_some_iff] at taken
      obtain ⟨c, -, taken⟩ := taken
      rw [Option.map_eq_some_iff] at taken
      obtain ⟨done, -, rfl⟩ := taken
      exact Or.inl ⟨rfl, by simp⟩
  | clientPop j =>
      rw [step, Option.map_eq_some_iff] at taken
      obtain ⟨c, -, rfl⟩ := taken
      exact Or.inl ⟨rfl, by simp⟩
  | listen result =>
      cases taken
      exact Or.inr (Or.inl ⟨result, rfl, rfl⟩)
  | serverUpdate epoll sends =>
      rw [step, Option.map_eq_some_iff] at taken
      obtain ⟨⟨code, server⟩, done, rfl⟩ := taken
      exact Or.inr (Or.inr (Or.inl ⟨epoll, sends, code, rfl, done⟩))
  | serverFeed msg accepts sends =>
      rw [step, Option.map_eq_some_iff] at taken
      obtain ⟨⟨code, server⟩, done, rfl⟩ := taken
      exact Or.inr (Or.inr (Or.inr (Or.inl ⟨msg, accepts, sends, code, rfl, done⟩)))
  | serverPop =>
      cases taken
      exact Or.inr (Or.inr (Or.inr (Or.inr ⟨rfl, rfl⟩)))

theorem step_server {action : Action} (sound : s.server.Sound)
    (taken : s.step action = some s') :
    s'.server.Sound ∧ ∀ k, action.peerHealthy k → s.server.Ready k → s'.server.Ready k := by
  rcases step_cases taken with ⟨same, -⟩ | ⟨result, -, same⟩ | ⟨epoll, sends, code, rfl, done⟩ |
    ⟨msg, accepts, sends, code, -, done⟩ | ⟨-, same⟩
  · rw [same]
    exact ⟨sound, fun _ _ ready => ready⟩
  · rw [same]
    exact ⟨sound.listen result, fun k _ ready => ready.listen result⟩
  · exact sound.update done
  · obtain ⟨good, ready⟩ := sound.feed done
    exact ⟨good, fun k _ => ready k⟩
  · rw [same]
    exact ⟨sound.pop, fun k _ ready => ready.pop⟩

theorem run_clientSound {actions : List Action}
    (healthy : ∀ action ∈ actions, action.clientHealthy i)
    (run : Run.exec step init actions = some s) : s.ClientSound i :=
  Run.exec_invariant_of_forall (fun _ _ _ sound => step_clientSound sound) (clientSound_init i)
    healthy run

theorem run_serverSound {actions : List Action} (run : Run.exec step init actions = some s) :
    s.server.Sound :=
  Run.exec_invariant (fun s => s.server.Sound) (fun _ _ _ sound taken => (step_server sound taken).1)
    Server.sound_new run

theorem run_ready {actions : List Action} (healthy : ∀ action ∈ actions, action.peerHealthy k)
    (run : Run.exec step init actions = some s) : s.server.Ready k := by
  let Both (s : Room) : Prop := s.server.Sound ∧ s.server.Ready k
  have both : Both s := by
    refine Run.exec_invariant_of_forall (fun s action s' before healthy taken => ?_)
      ⟨Server.sound_new, ready_init k⟩ healthy run
    obtain ⟨sound, ready⟩ := step_server before.1 taken
    exact ⟨sound, ready k healthy before.2⟩
  exact both.2

theorem run_sound {actions : List Action} (healthy : ∀ action ∈ actions, action.healthy i k)
    (run : Run.exec step init actions = some s) : s.Sound i k where
  client := run_clientSound (fun a mem => ((healthy_iff i k a).mp (healthy a mem)).1) run
  server := run_serverSound run
  ready := run_ready (fun a mem => ((healthy_iff i k a).mp (healthy a mem)).2) run

-- Of what has arrived at the server: what belongs to the name that the client sends first ...
def namePart (c : Client) (p : Peer) : Text :=
  p.receivedBytes.take (Client.header c.name c.fed).length

-- ... and what has been fed.
def fedPart (c : Client) (p : Peer) : Text :=
  p.receivedBytes.drop (Client.header c.name c.fed).length

theorem header_ended (name fed : Text) :
    Client.header name fed = [] ∨ Client.header name fed = name ++ [newline] := by
  unfold Client.header
  split
  · exact Or.inl rfl
  · exact Or.inr rfl

theorem arrived_parts (sound : c.Sound) (reliable : p.receivedBytes <+: c.sentBytes) :
    namePart c p <+: Client.header c.name c.fed ∧ fedPart c p <+: c.fed ∧
      (fedPart c p ≠ [] → namePart c p = Client.header c.name c.fed) := by
  have all : p.receivedBytes <+: Client.header c.name c.fed ++ c.fed := by
    rw [← sound.stream]
    exact reliable.trans (List.prefix_append _ _)
  refine ⟨?_, ?_, fun nonempty => ?_⟩
  · have front := List.IsPrefix.take all (Client.header c.name c.fed).length
    rwa [List.take_left] at front
  · have rest := List.IsPrefix.drop all (Client.header c.name c.fed).length
    rwa [List.drop_left] at rest
  · have longer : (Client.header c.name c.fed).length ≤ p.receivedBytes.length := by
      by_contra short
      exact nonempty (List.drop_eq_nil_of_le (Nat.le_of_not_le short))
    have front := List.IsPrefix.take all (Client.header c.name c.fed).length
    rw [List.take_left] at front
    exact front.eq_of_length (List.length_take_of_le longer)

-- The name ends with its own line, so that no line is made of both parts.
theorem frames_parts (sound : c.Sound) (reliable : p.receivedBytes <+: c.sentBytes) :
    frames p.receivedBytes = frames (namePart c p) ++ frames (fedPart c p) := by
  have split : p.receivedBytes = namePart c p ++ fedPart c p :=
    (List.take_append_drop _ _).symm
  rw [split, frames_append]
  by_cases nonempty : fedPart c p = []
  · rw [nonempty, List.append_nil, frames_of_free (Lines.pending_free _)]
    rfl
  · rw [(arrived_parts sound reliable).2.2 nonempty]
    rcases header_ended c.name c.fed with empty | ended
    · rw [empty]
      rfl
    · rw [ended, Lines.pending_ended, List.nil_append]

theorem Sound.queued {i : Nat} (sound : s.Sound i k) (there : s.server.peers[k]? = some p)
    (opened : p.socket ≠ none) :
    (∀ first ∈ (frames p.receivedBytes).head?, p.name = first) ∧
      Server.messagesFrom k s.server.log =
        (frames p.receivedBytes).tail.map fun line => { author := p.name, data := line } := by
  obtain ⟨heard, hears⟩ := (sound.server.peers k p there).hears opened
  have free : newline ∉ p.inputBuffer :=
    sound.ready p.inputBuffer (by rw [Server.inputs, List.getElem?_map, there]; rfl)
  have lines := hears.lines
  rw [frames_of_free free, List.append_nil] at lines
  rw [← lines]
  refine ⟨fun first mem => ?_, hears.queued⟩
  have named := hears.named
  split at named
  · rw [named] at mem
    exact Option.some_inj.mp mem
  · rw [named] at mem
    cases mem

end Room

end SystemProg.Chat

import SystemProg.Chat.Naming

set_option autoImplicit false

namespace SystemProg.Chat

theorem frames_messageLines {messages : List Message}
    (lines : ∀ m ∈ messages, Line m.author ∧ Line m.data)
    (clean : ∀ m ∈ messages, ¬ [colon, blank] <:+: m.author) :
    (frames (messages.flatMap fun m => messageLine m.author m.data)).map parseMessage =
      messages := by
  induction messages with
  | nil => rfl
  | cons m messages ih =>
      obtain ⟨author, data⟩ := lines m (List.mem_cons_self ..)
      have later := ih (fun m mem => lines m (List.mem_cons_of_mem _ mem))
        (fun m mem => clean m (List.mem_cons_of_mem _ mem))
      have free : newline ∉ m.author ++ [colon, blank] ++ m.data := by
        simp only [List.mem_append, not_or]
        exact ⟨⟨author.free, by decide⟩, data.free⟩
      have nonempty : m.author ++ [colon, blank] ++ m.data ≠ [] := by simp
      have parsed := (parseMessage_iff m.author m.data).mpr (clean m (List.mem_cons_self ..))
      rw [List.flatMap_cons, messageLine, List.append_assoc _ [newline], List.singleton_append,
        frames_line free, trimmed_messageLine author data, if_neg nonempty, List.map_cons, parsed,
        later]

namespace Room

variable {s : Room} {j k : Nat} {c d : Client} {p q : Peer}

-- The connection is open at both ends and loses, repeats and reorders nothing.
structure Linked (c : Client) (p : Peer) : Prop where
  opened : p.socket ≠ none
  up : p.receivedBytes <+: c.sentBytes
  down : c.receivedBytes <+: p.sentBytes

instance (c : Client) (p : Peer) : Decidable (Linked c p) :=
  decidable_of_iff (p.socket ≠ none ∧ p.receivedBytes <+: c.sentBytes ∧
      c.receivedBytes <+: p.sentBytes)
    ⟨fun ⟨opened, up, down⟩ => ⟨opened, up, down⟩, fun ⟨opened, up, down⟩ => ⟨opened, up, down⟩⟩

-- What the client has not read as messages yet: its buffer, the connection, the server's buffer.
def inTransit (d : Client) (q : Peer) : Text :=
  d.inputBuffer ++ q.sentBytes.drop d.receivedBytes.length ++ q.output.unsent

-- The messages that are meant for the peer: those queued since it is there, but for its own.
def announced (j : Nat) (q : Peer) (log : List (Option Nat × Message)) :
    List (Option Nat × Message) :=
  (log.drop q.since).filter (·.1 ≠ some j)

-- How many messages of the peer `k` were queued before `q` was accepted.
def before (k : Nat) (q : Peer) (log : List (Option Nat × Message)) : Nat :=
  (Server.messagesFrom k (log.take q.since)).length

structure Delivered (s : Room) : Prop where
  queued : s.server.popped ++ s.server.messages = s.server.log.map Prod.snd
  once : ∀ (k : Nat) (p : Peer) (c : Client), s.server.peers[k]? = some p →
    s.clients[p.client]? = some c → Server.messagesFrom k s.server.log =
      (frames (fedPart c p)).map fun line => { author := c.name, data := line }
  arrived : ∀ (j : Nat) (q : Peer) (d : Client), s.server.peers[j]? = some q →
    s.clients[q.client]? = some d →
      d.popped ++ d.messages ++ (frames (inTransit d q)).map parseMessage =
        (announced j q s.server.log).map Prod.snd
  others : ∀ (j k : Nat) (q p : Peer) (c : Client), j ≠ k → s.server.peers[j]? = some q →
    s.server.peers[k]? = some p → s.clients[p.client]? = some c →
      Server.messagesFrom k (announced j q s.server.log) =
        ((frames (fedPart c p)).drop (before k q s.server.log)).map fun line =>
          { author := c.name, data := line }
  own : ∀ (j : Nat) (q : Peer), Server.messagesFrom j (announced j q s.server.log) = []

theorem messagesFrom_append (k : Nat) (front rest : List (Option Nat × Message)) :
    Server.messagesFrom k (front ++ rest) =
      Server.messagesFrom k front ++ Server.messagesFrom k rest := by
  rw [Server.messagesFrom, List.filter_append, List.map_append]
  rfl

theorem messagesFrom_announced (j k : Nat) (q : Peer) (log : List (Option Nat × Message)) :
    Server.messagesFrom k (announced j q log) =
      if j = k then [] else Server.messagesFrom k (log.drop q.since) := by
  rw [Server.messagesFrom, announced, List.filter_filter, Server.messagesFrom]
  split
  · next same =>
      rw [List.map_eq_nil_iff, List.filter_eq_nil_iff]
      rintro entry - both
      simp [same] at both
  · next other =>
      congr 1
      refine List.filter_congr fun entry _ => ?_
      by_cases own : entry.1 = some k <;> simp [own, Ne.symm other]

theorem namePart_frames (sound : c.Sound) (reliable : p.receivedBytes <+: c.sentBytes)
    (name : Line c.name) :
    (frames (namePart c p)).length = 1 ∨ frames (namePart c p) = [] ∧ frames (fedPart c p) = [] := by
  obtain ⟨front, fed, full⟩ := arrived_parts sound reliable
  by_cases whole : namePart c p = Client.header c.name c.fed
  · rw [whole]
    unfold Client.header
    split
    · next nothing =>
        rw [nothing.resolve_right name.nonempty, List.prefix_nil] at fed
        rw [fed]
        exact Or.inr ⟨rfl, rfl⟩
    · rw [frames_line name.free, trim_of_trimmed name.trimmed, if_neg name.nonempty]
      exact Or.inl rfl
  · have nothing : fedPart c p = [] := by
      by_contra arrived
      exact whole (full arrived)
    rw [nothing]
    refine Or.inr ⟨?_, rfl⟩
    rcases header_ended c.name c.fed with empty | ended
    · rw [empty, List.prefix_nil] at front
      rw [front]
      rfl
    · rw [ended, List.prefix_concat_iff, ← ended] at front
      exact frames_of_free fun inside => name.free ((front.resolve_left whole).subset inside)

theorem Sound.once (sound : s.Sound p.client k) (there : s.server.peers[k]? = some p)
    (client : s.clients[p.client]? = some c) (linked : Linked c p) (name : Line c.name) :
    Server.messagesFrom k s.server.log =
      (frames (fedPart c p)).map fun line => { author := c.name, data := line } := by
  have good := sound.client c client
  rcases namePart_frames good linked.up name with one | ⟨unnamed, nothing⟩
  · have queued := sound.fedLines_of_name there linked.opened client linked.up one
    rw [trim_of_trimmed name.trimmed] at queued
    exact queued
  · obtain ⟨-, queued⟩ := sound.queued there linked.opened
    rw [queued, frames_parts good linked.up, unnamed, nothing]
    rfl

theorem Sound.arrived {i : Nat} (sound : s.Sound q.client i) (there : s.server.peers[j]? = some q)
    (client : s.clients[q.client]? = some d) (linked : Linked d q)
    (clean : ∀ entry ∈ s.server.log, ¬ [colon, blank] <:+: entry.2.author) :
    d.popped ++ d.messages ++ (frames (inTransit d q)).map parseMessage =
      (announced j q s.server.log).map Prod.snd := by
  have good := sound.client d client
  obtain ⟨heard, hears⟩ := (sound.server.peers j q there).hears linked.opened
  obtain ⟨rest, sent⟩ := linked.down
  have left : q.sentBytes.drop d.receivedBytes.length = rest := by
    rw [← sent, List.drop_left]
  have read : d.popped ++ d.messages ++ (frames (inTransit d q)).map parseMessage =
      (frames q.stream).map parseMessage := by
    rw [Peer.stream, ← sent, List.append_assoc d.receivedBytes, frames_append d.receivedBytes,
      List.map_append, ← good.messages, inTransit, good.pending, left, List.append_assoc _ rest]
  have inLog (m : Message) (mem : m ∈ (announced j q s.server.log).map Prod.snd) :
      ∃ entry ∈ s.server.log, entry.2 = m := by
    obtain ⟨entry, within, rfl⟩ := List.mem_map.mp mem
    exact ⟨entry, List.mem_of_mem_drop (List.mem_of_mem_filter within), rfl⟩
  rw [read, hears.stream, Server.linesFor]
  have written := @frames_messageLines ((announced j q s.server.log).map Prod.snd)
    (fun m mem => by
      obtain ⟨entry, logged, rfl⟩ := inLog m mem
      exact sound.server.lines entry logged)
    (fun m mem => by
      obtain ⟨entry, logged, rfl⟩ := inLog m mem
      exact clean entry logged)
  rw [List.flatMap_map] at written
  exact written

-- Over every run in which no connection fails or closes: what is fed reaches the server once, and
-- each of the other clients once, in order and under the name of the client it is from.
theorem run_delivered {actions : List Action} (run : Run.exec step init actions = some s)
    (healthy : ∀ i k, ∀ action ∈ actions, action.healthy i k)
    (names : ∀ c ∈ s.clients, Line c.name ∧ ¬ [colon, blank] <:+: c.name)
    (linked : ∀ p ∈ s.server.peers, ∃ c ∈ s.clients[p.client]?, Linked c p) :
    s.Delivered := by
  have sound (i k : Nat) : s.Sound i k := run_sound (healthy i k) run
  have link {k : Nat} {p : Peer} {c : Client} (there : s.server.peers[k]? = some p)
      (client : s.clients[p.client]? = some c) : Linked c p := by
    obtain ⟨c', client', linked⟩ := linked p (List.mem_of_getElem? there)
    rw [client] at client'
    cases client'
    exact linked
  have once {k : Nat} {p : Peer} {c : Client} (there : s.server.peers[k]? = some p)
      (client : s.clients[p.client]? = some c) :=
    (sound p.client k).once there client (link there client)
      (names c (List.mem_of_getElem? client)).1
  have clean (entry : Option Nat × Message) (mem : entry ∈ s.server.log) :
      ¬ [colon, blank] <:+: entry.2.author := by
    cases source : entry.1 with
    | none =>
        rw [(sound 0 0).server.fed entry mem source]
        decide
    | some k =>
        have within := (sound 0 0).server.known entry mem k source
        obtain ⟨c, client, -⟩ := linked _ (List.getElem_mem within)
        have own : entry.2 ∈ Server.messagesFrom k s.server.log :=
          List.mem_map_of_mem (List.mem_filter.mpr ⟨mem, by simp [source]⟩)
        rw [once (List.getElem?_eq_getElem within) client] at own
        obtain ⟨line, -, same⟩ := List.mem_map.mp own
        rw [← same]
        exact (names c (List.mem_of_getElem? client)).2
  refine ⟨(sound 0 0).server.queued, fun k p c there client => once there client,
    fun j q d there client => (sound q.client j).arrived there client (link there client) clean,
    fun j k q p c other _ there client => ?_, fun j q => ?_⟩
  · have parts := messagesFrom_append k (s.server.log.take q.since) (s.server.log.drop q.since)
    rw [List.take_append_drop] at parts
    rw [messagesFrom_announced, if_neg other, List.map_drop, ← once there client, parts, before,
      List.drop_left]
  · rw [messagesFrom_announced, if_pos rfl]

def pair : List Action :=
  [.clientNew [97, 110, 110], .clientNew [98, 111, 98], .listen .listening,
    .connect 0 [colon] .connected, .connect 1 [colon] .connected,
    .serverUpdate (.ready [.listening [.accepted 0, .interrupted, .accepted 1, .wouldBlock]]) [],
    .clientFeed 0 [104, 105, 10, 121, 111] [.sent 5, .interrupted, .sent 2, .wouldBlock],
    .serverUpdate
      (.ready [.peer 0 false true true [.received [97, 110], .received [110, 10, 104, 105, 10],
        .wouldBlock]])
      [.sent 3, .wouldBlock],
    .clientUpdate 1 (.ready false true false) [.received [97, 110], .wouldBlock] []]

theorem run_delivered_pair : ∃ s, Run.exec step init pair = some s ∧
    s.server.messages = [{ author := [97, 110, 110], data := [104, 105] }] ∧
    (s.clients[1]?.map Client.inputBuffer) = some [97, 110] ∧ s.Delivered :=
  ⟨_, rfl, by decide, by decide, @run_delivered _ pair rfl
    (by simp [pair, Action.healthy, SendResult.healthy, RecvResult.healthy,
      Client.PollResult.healthy, Server.EpollResult.healthy, Server.Event.healthy])
    (by decide) (by decide)⟩

end Room

end SystemProg.Chat

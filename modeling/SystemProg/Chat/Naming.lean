import SystemProg.Chat.Room

set_option autoImplicit false

namespace SystemProg.Chat

-- A name with its newline makes no line, or one that is the trimmed name, or it holds newlines.
theorem frames_ended (name : Text) :
    (frames (name ++ [newline]) = [] → trim name = []) ∧
      ∀ line, frames (name ++ [newline]) = [line] → line = trim name := by
  induction length : name.length using Nat.strong_induction_on generalizing name with
  | _ n ih =>
      rcases line_or_free name with free | ⟨front, rest, same, free⟩
      · rw [frames_line free, frames_of_free (by simp)]
        split
        · next empty => simp [empty]
        · simp
      · have shorter : rest.length < n := by
          rw [← length, same, List.length_append, List.length_cons]
          omega
        obtain ⟨blank, single⟩ := ih rest.length shorter rest rfl
        have behind (spaces : trim rest = []) : trim name = trim front := by
          rw [same]
          refine trim_append_space (fun b mem => ?_) front
          rcases List.mem_cons.mp mem with rfl | inside
          · rfl
          · exact trim_eq_nil.mp spaces b inside
        rw [same, List.append_assoc, List.cons_append, frames_line free, ← same]
        split
        · next empty =>
            have before : trim name = trim rest := by
              rw [same, List.append_cons]
              refine trim_space_append (fun b mem => ?_) rest
              rcases List.mem_append.mp mem with inside | last
              · exact trim_eq_nil.mp empty b inside
              · rw [List.mem_singleton.mp last]
                rfl
            rw [before]
            exact ⟨blank, single⟩
        · refine ⟨by simp, fun line only => ?_⟩
          rw [List.cons.injEq] at only
          rw [← only.1, behind (blank only.2)]

namespace Room

variable {s : Room} {i k : Nat} {c : Client} {p : Peer}

theorem Sound.fedLines_of_name (sound : s.Sound p.client k)
    (there : s.server.peers[k]? = some p) (opened : p.socket ≠ none)
    (client : s.clients[p.client]? = some c) (reliable : p.receivedBytes <+: c.sentBytes)
    (one : (frames (namePart c p)).length = 1) :
    Server.messagesFrom k s.server.log =
      (frames (fedPart c p)).map fun line => { author := trim c.name, data := line } := by
  have good := sound.client c client
  obtain ⟨first, queued⟩ := sound.queued there opened
  rw [frames_parts good reliable] at first queued
  obtain ⟨line, name⟩ := List.length_eq_one_iff.mp one
  rw [name] at first queued
  rw [queued]
  refine List.map_congr_left fun fed mem => ?_
  have arrived : fedPart c p ≠ [] := by
    rintro empty
    rw [empty] at mem
    cases mem
  have header := (arrived_parts good reliable).2.2 arrived
  rcases header_ended c.name c.fed with empty | ended
  · rw [header, empty] at name
    cases name
  · rw [header, ended] at name
    rw [first line rfl, (frames_ended c.name).2 line name]

theorem fedLines_queued_iff {actions : List Action}
    (run : Run.exec step init actions = some s) (there : s.server.peers[k]? = some p)
    (opened : p.socket ≠ none) (client : s.clients[p.client]? = some c)
    (healthy : ∀ action ∈ actions, action.healthy p.client k)
    (reliable : p.receivedBytes <+: c.sentBytes) :
    s.server.popped ++ s.server.messages = s.server.log.map Prod.snd ∧
      (Server.messagesFrom k s.server.log =
          (frames (fedPart c p)).map (fun line => { author := trim c.name, data := line }) ↔
        (frames (namePart c p)).length = 1 ∨
          frames (namePart c p) = [] ∧ frames (fedPart c p) = []) := by
  have sound := run_sound healthy run
  have good := sound.client c client
  refine ⟨sound.server.queued, ?_⟩
  obtain ⟨-, queued⟩ := sound.queued there opened
  rw [frames_parts good reliable] at queued
  constructor
  · intro same
    rw [queued] at same
    have count := congrArg List.length same
    rw [List.length_map, List.length_map, List.length_tail, List.length_append] at count
    rcases Nat.eq_zero_or_pos (frames (namePart c p)).length with none | some
    · refine Or.inr ⟨List.eq_nil_of_length_eq_zero none, List.eq_nil_of_length_eq_zero ?_⟩
      omega
    · exact Or.inl (by omega)
  · rintro (one | ⟨unnamed, nothing⟩)
    · exact sound.fedLines_of_name there opened client reliable one
    · rw [queued, unnamed, nothing]
      rfl

def talk (name fed : Text) (pieces : List Text) : List Action :=
  [.clientNew name, .listen .listening, .connect 0 [colon] .connected,
    .clientFeed 0 fed [.sent (Client.header name fed ++ fed).length],
    .serverUpdate (.ready [.listening [.accepted 0, .wouldBlock]]) []] ++
  pieces.map fun piece =>
    .serverUpdate (.ready [.peer 0 false true false [.received piece, .wouldBlock]]) []

theorem fedLines_queued_ann : ∃ s p c,
    Run.exec step init
        (talk [32, 97, 110, 110, 32] [104, 105, 10] [[32, 97], [110, 110, 32, 10, 104], [105, 10]]) =
      some s ∧
    s.server.peers[0]? = some p ∧ s.clients[0]? = some c ∧
    p.receivedBytes = c.stream ∧
    Server.messagesFrom 0 s.server.log =
      (frames (fedPart c p)).map fun line => { author := trim c.name, data := line } :=
  ⟨_, _, _, rfl, rfl, rfl, by decide,
    (@fedLines_queued_iff _ 0 _ _
      (talk [32, 97, 110, 110, 32] [104, 105, 10] [[32, 97], [110, 110, 32, 10, 104], [105, 10]])
      rfl rfl (by decide) rfl (by decide) (by decide)).2.mpr (Or.inl (by decide))⟩

theorem fedLines_unnamed : ∃ s p c,
    Run.exec step init (talk [] [104, 105, 10, 120, 10] [[104, 105, 10, 120, 10]]) = some s ∧
    s.server.peers[0]? = some p ∧ s.clients[0]? = some c ∧ p.socket ≠ none ∧
    p.receivedBytes = c.stream ∧ c.fed = [104, 105, 10, 120, 10] ∧
    s.server.messages = [{ author := [104, 105], data := [120] }] ∧
    s.server.messages ≠ (frames c.fed).map fun line => { author := trim c.name, data := line } :=
  ⟨_, _, _, rfl, rfl, rfl, by decide, by decide, by decide, by decide, by decide⟩

end Room

end SystemProg.Chat

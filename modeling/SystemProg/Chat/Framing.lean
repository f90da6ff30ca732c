import SystemProg.Chat.Room

set_option autoImplicit false

namespace SystemProg.Chat

-- The whole stream at once: split at every newline, the last piece is unfinished.
def linesOf (stream : Text) : List Text :=
  ((stream.splitOn newline).dropLast.map trim).filter (· ≠ [])

def tailOf (stream : Text) : Text := (stream.splitOn newline).getLastD []

theorem frames_eq (stream : Text) : frames stream = linesOf stream := by
  rw [frames, linesOf, Lines.complete_eq]

namespace Server

-- What is fed to the server and has not been taken as a line, and the lines that have been.
def own (s : Server) : Text × List Text :=
  (s.inputBuffer, (s.log.filter (·.1 = none)).map (·.2.data))

variable {s s' : Server} {k : Nat}

theorem own_listen (s : Server) (result : ListenResult) :
    (s.chatServerListen result).2.own = s.own := by
  unfold chatServerListen
  split
  · rfl
  · cases result <;> rfl

theorem own_pop (s : Server) : s.chatServerPopNext.2.own = s.own := by
  unfold chatServerPopNext
  split <;> rfl

theorem own_setPeer (s : Server) (k : Nat) (p : Peer) : (s.setPeer k p).own = s.own := rfl

theorem own_queue (s : Server) (message : Message) (peers : List Peer) :
    own { s.queue (some k) message with peers := peers } = s.own := by
  simp [own, Server.queue]

theorem own_accept {accepts : List AcceptResult} {code : Errcode}
    (done : s.acceptPendingClients accepts = some (code, s')) : s'.own = s.own := by
  fun_induction acceptPendingClients s accepts with
  | case1 => cases done
  | case2 s client rest ih => exact ih done
  | case3 s rest ih => exact ih done
  | _ =>
      cases done
      rfl

theorem own_takeLines {fuel : Nat} {sends sends' : List SendResult} {progress progress' : Bool}
    (done : takeLines k fuel s sends progress = some (s', sends', progress')) :
    s'.own = s.own := by
  induction fuel generalizing s sends progress with
  | zero =>
      cases done
      rfl
  | succ fuel ih =>
      rw [takeLines] at done
      split at done
      · cases done
      · split at done
        · cases done
          rfl
        · dsimp only at done
          split at done
          · exact (ih done).trans (own_setPeer ..)
          · split at done
            · exact (ih done).trans (own_setPeer ..)
            · rw [Option.bind_eq_some_iff] at done
              obtain ⟨⟨peers, sends₁⟩, -, done⟩ := done
              exact (ih done).trans (own_queue ..)

theorem own_peerEvent {broken input output goesOn progress progress' : Bool}
    {recvs : List RecvResult} {sends sends' : List SendResult}
    (done : s.peerEvent k broken input output recvs sends progress =
      some (goesOn, s', sends', progress')) : s'.own = s.own := by
  unfold peerEvent at done
  split at done
  · cases done
  · next peer there =>
      split at done
      · cases done
        rfl
      · next conn opened =>
          split at done
          · cases done
            rfl
          · rw [Option.bind_eq_some_iff] at done
            obtain ⟨⟨on, s₁, sends₁, progress₁⟩, reading, done⟩ := done
            have read : s₁.own = s.own := by
              split at reading
              · rw [peerInput, Option.bind_eq_some_iff] at reading
                obtain ⟨⟨received, buffer, conn'⟩, -, reading⟩ := reading
                cases received with
                | failed =>
                    cases reading
                    rfl
                | ended =>
                    rw [Option.map_eq_some_iff] at reading
                    obtain ⟨taken, takes, same⟩ := reading
                    cases same
                    exact (own_takeLines takes).trans (own_setPeer ..)
                | drained =>
                    rw [Option.map_eq_some_iff] at reading
                    obtain ⟨taken, takes, same⟩ := reading
                    cases same
                    exact (own_takeLines takes).trans (own_setPeer ..)
              · cases reading
                rfl
            dsimp only at done
            split at done
            · rw [Option.map_eq_some_iff] at done
              obtain ⟨⟨s₂, sends₂, progress₂⟩, flushing, same⟩ := done
              cases same
              rw [← read]
              unfold peerOutput at flushing
              split at flushing
              · cases flushing
              · split at flushing
                · rw [Option.map_eq_some_iff] at flushing
                  obtain ⟨flushed, -, same⟩ := flushing
                  cases same
                  rfl
                · cases flushing
                  rfl
            · cases done
              exact read

theorem own_update {epoll : EpollResult} {sends : List SendResult} {code : Errcode}
    (done : s.chatServerUpdate epoll sends = some (code, s')) : s'.own = s.own := by
  have batch {events : List Event} {s : Server} {sends : List SendResult} {progress : Bool}
      (done : handleEvents events s sends progress = some (code, s')) : s'.own = s.own := by
    induction events generalizing s sends progress with
    | nil =>
        cases done
        rfl
    | cons event events ih =>
        cases event with
        | listening accepts =>
            rw [handleEvents, Option.bind_eq_some_iff] at done
            obtain ⟨⟨code₁, s₁⟩, accepting, done⟩ := done
            rw [← own_accept accepting]
            split at done
            · exact ih done
            · cases done
              rfl
        | peer j broken input output recvs =>
            rw [handleEvents, Option.bind_eq_some_iff] at done
            obtain ⟨⟨goesOn, s₁, sends₁, progress₁⟩, one, done⟩ := done
            rw [← own_peerEvent one]
            dsimp only at done
            split at done
            · exact ih done
            · cases done
              rfl
  unfold chatServerUpdate at done
  split at done
  · cases done
    rfl
  · cases epoll with
    | failed =>
        cases done
        rfl
    | timedOut =>
        cases done
        rfl
    | ready events =>
        dsimp only at done
        split at done
        · exact batch done
        · cases done

theorem own_feedLines {fuel : Nat} {sends : List SendResult}
    (enough : s.inputBuffer.length ≤ fuel) (done : feedLines fuel s sends = some s') :
    s'.own = (Lines.pending newline s.inputBuffer, s.own.2 ++ frames s.inputBuffer) := by
  induction fuel generalizing s sends with
  | zero =>
      have empty : s.inputBuffer = [] := List.eq_nil_of_length_eq_zero (Nat.le_zero.mp enough)
      have free : newline ∉ s.inputBuffer := by simp [empty]
      cases done
      rw [Lines.pending_of_free free, frames_of_free free, List.append_nil]
      rfl
  | succ fuel ih =>
      rw [feedLines] at done
      rcases line_or_free s.inputBuffer with free | ⟨line, rest, same, free⟩
      · rw [extractMessage_none free] at done
        cases done
        rw [Lines.pending_of_free free, frames_of_free free, List.append_nil]
        rfl
      · rw [same, extractMessage_line free] at done
        rw [same, List.length_append, List.length_cons] at enough
        have less : rest.length ≤ fuel := by omega
        rw [same, Lines.pending_line free, frames_line free]
        dsimp only at done
        split at done
        · next empty =>
            rw [if_pos empty]
            have later := ih less done
            exact later
        · next nonempty =>
            rw [if_neg nonempty]
            rw [Option.bind_eq_some_iff] at done
            obtain ⟨⟨peers, sends₁⟩, sent, done⟩ := done
            have later := ih less done
            rw [later]
            simp [own, Server.queue]

def fedBy (s : Server) (msg : Text) (accepts : List AcceptResult) : Text :=
  if s.listening ∧ (s.acceptPendingClients accepts).map Prod.fst = some .ok then msg else []

theorem own_feed {msg : Text} {accepts : List AcceptResult} {sends : List SendResult}
    {code : Errcode} (free : newline ∉ s.inputBuffer)
    (done : s.chatServerFeed msg accepts sends = some (code, s')) :
    s'.own = (Lines.pending newline (s.inputBuffer ++ s.fedBy msg accepts),
      s.own.2 ++ frames (s.inputBuffer ++ s.fedBy msg accepts)) := by
  have unchanged (nothing : s.fedBy msg accepts = []) :
      s.own = (Lines.pending newline (s.inputBuffer ++ s.fedBy msg accepts),
        s.own.2 ++ frames (s.inputBuffer ++ s.fedBy msg accepts)) := by
    rw [nothing, List.append_nil, Lines.pending_of_free free, frames_of_free free, List.append_nil]
    rfl
  unfold chatServerFeed at done
  split at done
  · next deaf =>
      cases done
      exact unchanged (if_neg (by simp [deaf]))
  · next listening =>
      split at done
      · next empty =>
          cases done
          exact unchanged (by simp [fedBy, empty])
      · rw [Option.bind_eq_some_iff] at done
        obtain ⟨⟨code₁, s₁⟩, accepting, done⟩ := done
        have same := own_accept accepting
        dsimp only at done
        split at done
        · next ok =>
            have fed : s.fedBy msg accepts = msg :=
              if_pos ⟨by simpa using listening, by rw [accepting, ← ok]; rfl⟩
            rw [Option.map_eq_some_iff] at done
            obtain ⟨s₂, feeding, done⟩ := done
            cases done
            have taken := @own_feedLines { s₁ with inputBuffer := s₁.inputBuffer ++ msg } s' _ sends
              (Nat.le_refl _) feeding
            have buffer : s₁.inputBuffer = s.inputBuffer := congrArg Prod.fst same
            rw [taken, fed, ← same, ← buffer]
            rfl
        · next notOk =>
            cases done
            rw [same]
            refine unchanged (if_neg ?_)
            rw [accepting]
            simpa using fun _ => notOk

end Server

def Action.fedTo (s : Server) : Action → Text
  | .serverFeed msg accepts _ => s.fedBy msg accepts
  | _ => []

namespace Room

variable {s s' : Room}

def serverFed : Room → List Action → Text
  | _, [] => []
  | s, action :: rest =>
      action.fedTo s.server ++ ((s.step action).map fun next => serverFed next rest).getD []

def OwnFramed (s : Server) (fed : Text) : Prop :=
  s.own = (Lines.pending newline fed, frames fed)

theorem step_own {action : Action} {fed : Text} (before : OwnFramed s.server fed)
    (taken : s.step action = some s') :
    OwnFramed s'.server (fed ++ action.fedTo s.server) := by
  rcases step_cases taken with ⟨same, other⟩ | ⟨result, rfl, same⟩ |
    ⟨epoll, sends, code, rfl, done⟩ | ⟨msg, accepts, sends, code, rfl, done⟩ | ⟨rfl, same⟩
  · have nothing : action.fedTo s.server = [] := by
      unfold Action.fedTo
      split
      · exact absurd rfl (other _ _ _)
      · rfl
    rw [nothing, List.append_nil, same]
    exact before
  · have kept : s'.server.own = s.server.own := by rw [same, Server.own_listen]
    simpa only [OwnFramed, kept, Action.fedTo, List.append_nil] using before
  · have kept : s'.server.own = s.server.own := Server.own_update done
    simpa only [OwnFramed, kept, Action.fedTo, List.append_nil] using before
  · have buffer : s.server.inputBuffer = Lines.pending newline fed := congrArg Prod.fst before
    have lines : s.server.own.2 = frames fed := congrArg Prod.snd before
    have free : newline ∉ s.server.inputBuffer := by
      rw [buffer]
      exact Lines.pending_free fed
    rw [Action.fedTo, OwnFramed, Server.own_feed free done, buffer, lines, frames_append fed,
      ← Lines.pending_append]
  · have kept : s'.server.own = s.server.own := by rw [same, Server.own_pop]
    simpa only [OwnFramed, kept, Action.fedTo, List.append_nil] using before

theorem run_own {actions : List Action} {fed : Text} (before : OwnFramed s.server fed)
    (run : Run.exec step s actions = some s') :
    OwnFramed s'.server (fed ++ serverFed s actions) := by
  induction actions generalizing s fed with
  | nil =>
      cases run
      rw [serverFed, List.append_nil]
      exact before
  | cons action actions ih =>
      obtain ⟨next, taken, finished⟩ := (Run.exec_cons _ _ _ _).mp run
      have later := ih (step_own before taken) finished
      rw [serverFed, taken, ← List.append_assoc]
      exact later

def cut (pieces : List Text) : List Action :=
  pieces.map fun piece =>
    .serverUpdate (.ready [.peer 0 false true false [.received piece, .wouldBlock]]) []

def threeStreams : List Action :=
  [.clientNew [97, 110, 110], .listen .listening, .connect 0 [colon] .connected,
    .serverUpdate (.ready [.listening [.accepted 0, .wouldBlock]]) []] ++
  cut [[97, 110], [110, 10, 32, 10], [32, 104], [105, 10, 120]] ++
  [.serverFeed [97] [.wouldBlock] [], .serverFeed [98, 10, 99] [.wouldBlock] [.sent 11],
    .clientUpdate 0 (.ready false true false) [.received (serverName ++ [58, 32]), .wouldBlock] [],
    .clientUpdate 0 (.ready false true false) [.received [97, 98, 10, 115], .wouldBlock] []]

end Room

end SystemProg.Chat

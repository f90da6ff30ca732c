import SystemProg.Chat.Model

set_option autoImplicit false

namespace SystemProg.Chat

def SendResult.healthy : SendResult → Prop
  | .sent count => count ≠ 0
  | .failed => False
  | _ => True

def RecvResult.healthy : RecvResult → Prop
  | .ended | .failed => False
  | _ => True

instance (result : SendResult) : Decidable result.healthy := by
  cases result <;> unfold SendResult.healthy <;> infer_instance

instance (result : RecvResult) : Decidable result.healthy := by
  cases result <;> unfold RecvResult.healthy <;> infer_instance

namespace Output

def Bounded (output : Output) : Prop := output.sent ≤ output.buffer.length

instance (output : Output) : Decidable output.Bounded :=
  inferInstanceAs (Decidable (output.sent ≤ output.buffer.length))

theorem empty_bounded : empty.Bounded := Nat.le_refl 0

theorem empty_unsent : empty.unsent = [] := rfl

theorem settle_unsent {output : Output} (bounded : output.Bounded) :
    output.settle.unsent = output.unsent ∧ output.settle.Bounded := by
  unfold settle
  split
  · next all =>
      refine ⟨?_, empty_bounded⟩
      rw [empty_unsent, unsent, all, List.drop_length]
  · exact ⟨rfl, bounded⟩

theorem append_unsent {output : Output} (bounded : output.Bounded) (text : Text) :
    (output.append text).unsent = output.unsent ++ text ∧ (output.append text).Bounded := by
  refine ⟨List.drop_append_of_le_length bounded, ?_⟩
  rw [Bounded, append, List.length_append]
  exact Nat.le_add_right_of_le bounded

end Output

structure Moved (output : Output) (conn : Connection) (output' : Output) (conn' : Connection) :
    Prop where
  bytes : conn'.sent ++ output'.unsent = conn.sent ++ output.unsent
  received : conn'.received = conn.received
  bounded : output'.Bounded

theorem sendAll_spec {results rest : List SendResult} {output output' : Output}
    {conn conn' : Connection} {flushed : Flushed} (bounded : output.Bounded)
    (done : sendAll output conn results = some (flushed, output', conn', rest)) :
    Moved output conn output' conn' ∧ rest <:+ results ∧
      ((∀ result ∈ results, result.healthy) → flushed ≠ .broken) := by
  induction results generalizing output conn with
  | nil =>
      rw [sendAll] at done
      split at done
      · cases done
        exact ⟨⟨rfl, rfl, bounded⟩, List.suffix_refl _, by simp⟩
      · cases done
  | cons result results ih =>
      unfold sendAll at done
      split at done
      · cases done
        exact ⟨⟨rfl, rfl, bounded⟩, List.suffix_refl _, by simp⟩
      · cases result with
        | sent count =>
            dsimp only at done
            split at done
            · next nothing =>
                cases done
                exact ⟨⟨rfl, rfl, bounded⟩, List.suffix_cons _ _, fun healthy =>
                  absurd nothing (healthy _ (List.mem_cons_self ..))⟩
            · split at done
              · next within =>
                  have bounded' : ({ output with sent := output.sent + count } : Output).Bounded := by
                    rw [Output.unsent, List.length_drop] at within
                    rw [Output.Bounded] at bounded ⊢
                    dsimp only
                    omega
                  obtain ⟨moved, suffix, unbroken⟩ := ih bounded' done
                  refine ⟨⟨?_, moved.received, moved.bounded⟩, suffix.trans (List.suffix_cons _ _),
                    fun healthy => unbroken fun r mem => healthy r (List.mem_cons_of_mem _ mem)⟩
                  rw [moved.bytes, List.append_assoc]
                  congr 1
                  rw [Output.unsent, Output.unsent, ← List.drop_drop]
                  exact List.take_append_drop _ _
              · cases done
        | interrupted =>
            obtain ⟨moved, suffix, unbroken⟩ := ih bounded done
            exact ⟨moved, suffix.trans (List.suffix_cons _ _), fun healthy =>
              unbroken fun r mem => healthy r (List.mem_cons_of_mem _ mem)⟩
        | wouldBlock =>
            cases done
            exact ⟨⟨rfl, rfl, bounded⟩, List.suffix_cons _ _, by simp⟩
        | failed =>
            cases done
            exact ⟨⟨rfl, rfl, bounded⟩, List.suffix_cons _ _, fun healthy =>
              absurd (healthy _ (List.mem_cons_self ..)) id⟩

theorem sendAll_received {results rest : List SendResult} {output output' : Output}
    {conn conn' : Connection} {flushed : Flushed}
    (done : sendAll output conn results = some (flushed, output', conn', rest)) :
    conn'.received = conn.received := by
  fun_induction sendAll output conn results with
  | case5 output conn rest unsent count some' within ih => exact ih done
  | case7 output conn rest unsent ih => exact ih done
  | _ => cases done <;> rfl

-- What a flush makes of the output buffer and the socket: without a socket nothing happens, and a
-- broken connection is given up.
inductive FlushMoves (output : Output) (socket : Option Connection) (sends : List SendResult) :
    Output → Option Connection → List SendResult → Prop where
  | closed (none : socket = none) : FlushMoves output socket sends output socket sends
  | broken {conn conn' : Connection} {output' : Output} {rest : List SendResult}
      (there : socket = some conn)
      (all : sendAll output conn sends = some (.broken, output', conn', rest)) :
      FlushMoves output socket sends output' none rest
  | settled {conn conn' : Connection} {flushed : Flushed} {output' : Output}
      {rest : List SendResult} (there : socket = some conn) (unbroken : flushed ≠ .broken)
      (all : sendAll output conn sends = some (flushed, output', conn', rest)) :
      FlushMoves output socket sends output'.settle (some conn') rest

theorem Client.flushOutput_moves {c c' : Client} {sends rest : List SendResult}
    (done : c.flushOutput sends = some (c', rest)) : ∃ output socket,
      c' = { c with output := output, socket := socket } ∧
        FlushMoves c.output c.socket sends output socket rest := by
  unfold flushOutput at done
  split at done
  · next none =>
      cases done
      exact ⟨_, _, rfl, .closed none⟩
  · next conn there =>
      rw [Option.map_eq_some_iff] at done
      obtain ⟨⟨flushed, output, conn', rest'⟩, all, done⟩ := done
      dsimp only at done
      split at done
      · cases done
        exact ⟨_, _, rfl, .broken there all⟩
      · next unbroken =>
          cases done
          exact ⟨_, _, rfl, .settled there unbroken all⟩

theorem flushPeerOutput_moves {p p' : Peer} {sends rest : List SendResult}
    (done : flushPeerOutput p sends = some (p', rest)) : ∃ output socket,
      p' = { p with output := output, socket := socket } ∧
        FlushMoves p.output p.socket sends output socket rest := by
  unfold flushPeerOutput at done
  split at done
  · next none =>
      cases done
      exact ⟨_, _, rfl, .closed none⟩
  · next conn there =>
      rw [Option.map_eq_some_iff] at done
      obtain ⟨⟨flushed, output, conn', rest'⟩, all, done⟩ := done
      dsimp only at done
      split at done
      · cases done
        exact ⟨_, _, rfl, .broken there all⟩
      · next unbroken =>
          cases done
          exact ⟨_, _, rfl, .settled there unbroken all⟩

namespace FlushMoves

variable {output output' : Output} {socket socket' : Option Connection}
  {sends rest : List SendResult}

theorem opened (moves : FlushMoves output socket sends output' socket' rest)
    (there : socket' ≠ none) : socket ≠ none := by
  cases moves with
  | closed => exact there
  | broken => exact absurd rfl there
  | settled found => simp [found]

theorem received (moves : FlushMoves output socket sends output' socket' rest)
    (there : socket' ≠ none) : (socket'.map Connection.received).getD [] =
      (socket.map Connection.received).getD [] := by
  cases moves with
  | closed => rfl
  | broken => exact absurd rfl there
  | settled found unbroken all =>
      rw [found]
      exact sendAll_received all

theorem stream (moves : FlushMoves output socket sends output' socket' rest)
    (bounded : output.Bounded) (there : socket' ≠ none) : output'.Bounded ∧
      (socket'.map Connection.sent).getD [] ++ output'.unsent =
        (socket.map Connection.sent).getD [] ++ output.unsent := by
  cases moves with
  | closed => exact ⟨bounded, rfl⟩
  | broken => exact absurd rfl there
  | settled found unbroken all =>
      obtain ⟨moved, -, -⟩ := sendAll_spec bounded all
      obtain ⟨unsent, settled⟩ := Output.settle_unsent moved.bounded
      rw [found, unsent]
      exact ⟨settled, moved.bytes⟩

theorem healthy (moves : FlushMoves output socket sends output' socket' rest)
    (bounded : output.Bounded) (goesOn : ∀ result ∈ sends, result.healthy) :
    (socket' = none ↔ socket = none) ∧ rest <:+ sends := by
  cases moves with
  | closed => exact ⟨Iff.rfl, List.suffix_refl _⟩
  | broken there all => exact absurd rfl ((sendAll_spec bounded all).2.2 goesOn)
  | settled there unbroken all => exact ⟨by simp [there], (sendAll_spec bounded all).2.1⟩

end FlushMoves

theorem recvAll_spec {results : List RecvResult} {buffer buffer' : Text}
    {conn conn' : Connection} {received : Received}
    (done : recvAll buffer conn results = some (received, buffer', conn')) :
    ∃ bytes, buffer' = buffer ++ bytes ∧ conn'.received = conn.received ++ bytes ∧
      conn'.sent = conn.sent ∧ ((∀ result ∈ results, result.healthy) → received = .drained) := by
  induction results generalizing buffer conn with
  | nil => cases done
  | cons result results ih =>
      cases result with
      | received bytes =>
          rw [recvAll] at done
          split at done
          · obtain ⟨more, buffer_eq, received_eq, sent_eq, drained⟩ := ih done
            refine ⟨bytes ++ more, ?_, ?_, sent_eq, fun healthy =>
              drained fun r mem => healthy r (List.mem_cons_of_mem _ mem)⟩
            · rw [buffer_eq, List.append_assoc]
            · rw [received_eq, List.append_assoc]
          · cases done
      | interrupted =>
          obtain ⟨more, buffer_eq, received_eq, sent_eq, drained⟩ := ih done
          exact ⟨more, buffer_eq, received_eq, sent_eq, fun healthy =>
            drained fun r mem => healthy r (List.mem_cons_of_mem _ mem)⟩
      | wouldBlock =>
          cases done
          exact ⟨[], by simp, by simp, rfl, fun _ => rfl⟩
      | ended =>
          cases done
          exact ⟨[], by simp, by simp, rfl, fun healthy =>
            absurd (healthy _ (List.mem_cons_self ..)) id⟩
      | failed =>
          cases done
          exact ⟨[], by simp, by simp, rfl, fun healthy =>
            absurd (healthy _ (List.mem_cons_self ..)) id⟩

end SystemProg.Chat

import SystemProg.Lib.Run
import SystemProg.Chat.Client
import SystemProg.Chat.Edges

set_option autoImplicit false

-- A connection that is lost takes its bytes with it in the model, so what the system calls of one
-- call have moved is said by functions of their own.

namespace SystemProg.Chat

def gives : List RecvResult → Text
  | .received bytes :: rest => bytes ++ gives rest
  | .interrupted :: rest => gives rest
  | _ => []

def takes (output : Output) : List SendResult → Text
  | [] => []
  | result :: rest =>
      if output.unsent = [] then []
      else
        match result with
        | .sent count =>
            if count = 0 then []
            else if count ≤ output.unsent.length then
              output.unsent.take count ++ takes { output with sent := output.sent + count } rest
            else []
        | .interrupted => takes output rest
        | _ => []

theorem recvAll_gives {results : List RecvResult} {buffer buffer' : Text}
    {conn conn' : Connection} {received : Received}
    (done : recvAll buffer conn results = some (received, buffer', conn')) :
    buffer' = buffer ++ gives results := by
  fun_induction recvAll buffer conn results with
  | case1 => cases done
  | case2 buffer conn bytes rest within ih => rw [ih done, gives, List.append_assoc]
  | case3 => cases done
  | case4 buffer conn rest ih => rw [ih done, gives]
  | _ =>
      cases done
      simp [gives]

theorem sendAll_takes {results rest : List SendResult} {output output' : Output}
    {conn conn' : Connection} {flushed : Flushed}
    (done : sendAll output conn results = some (flushed, output', conn', rest)) :
    conn'.sent = conn.sent ++ takes output results := by
  fun_induction sendAll output conn results with
  | case1 output conn nothing =>
      cases done
      simp [takes]
  | case2 => cases done
  | case3 output conn result rest nothing =>
      cases done
      simp [takes, nothing]
  | case4 output conn rest unsent =>
      cases done
      simp [takes, unsent]
  | case5 output conn rest unsent count some' within ih =>
      rw [ih done, takes, if_neg unsent]
      simp [some', within]
  | case6 => cases done
  | case7 output conn rest unsent ih =>
      rw [ih done, takes, if_neg unsent]
  | case8 output conn rest unsent =>
      cases done
      simp [takes, unsent]
  | case9 output conn rest unsent =>
      cases done
      simp [takes, unsent]

namespace Client

inductive Call where
  | connect (addr : Text) (result : ConnectResult)
  | feed (msg : Text) (sends : List SendResult)
  | update (poll : PollResult) (recvs : List RecvResult) (sends : List SendResult)
  | pop
deriving DecidableEq

def callStep (c : Client) : Call → Option Client
  | .connect addr result => some (c.chatClientConnect addr result).2
  | .feed msg sends => (c.chatClientFeed msg sends).map Prod.snd
  | .update poll recvs sends => (c.chatClientUpdate poll recvs sends).map Prod.snd
  | .pop => some c.chatClientPopNext.2

def flushSent (c : Client) (sends : List SendResult) : Text :=
  if c.socket = none then [] else takes c.output sends

def flushTwiceSent (c : Client) (output : Bool) (sends : List SendResult) : Text :=
  match (if output then c.flushOutput sends else some (c, sends)) with
  | none => []
  | some (first, rest) =>
      (if output then c.flushSent sends else []) ++
        if first.socket.isSome ∧ first.output.buffer ≠ [] then first.flushSent rest else []

-- The client when `chat_client_feed` has filled its buffer.
def fill (c : Client) (msg : Text) : Client :=
  let named := c.sendName
  { named with output := named.output.append msg, fed := named.fed ++ msg }

namespace Call

def received (c : Client) : Call → Text
  | .update (.ready false true _) recvs _ => if c.socket = none then [] else gives recvs
  | _ => []

-- The loop around `recv` ends with the end of the stream or an error.
def EndsStream (c : Client) : Call → Prop
  | .update (.ready false true _) recvs _ =>
      c.socket ≠ none ∧ recvs.find? RecvResult.final ≠ some .wouldBlock
  | _ => False

instance (c : Client) (call : Call) : Decidable (call.EndsStream c) := by
  unfold EndsStream
  split <;> infer_instance

-- The loop around `recv` ends with EAGAIN, and the loop around `extract_message` runs.
def TakesLines (c : Client) : Call → Prop
  | .update (.ready false true _) recvs _ =>
      c.socket ≠ none ∧ recvs.find? RecvResult.final = some .wouldBlock
  | _ => False

instance (c : Client) (call : Call) : Decidable (call.TakesLines c) := by
  unfold TakesLines
  split <;> infer_instance

def sent (c : Client) : Call → Text
  | .feed msg sends => if c.socket = none ∨ msg = [] then [] else (c.fill msg).flushSent sends
  | .update (.ready false input output) recvs sends =>
      match c.socket with
      | none => []
      | some conn =>
          match (if input then c.receive conn recvs else some (true, c)) with
          | some (true, read) => read.flushTwiceSent output sends
          | _ => []
  | _ => []

def fed (c : Client) : Call → Text
  | .feed msg _ => if c.socket = none then [] else msg
  | _ => []

def Opens (c : Client) : Call → Prop
  | .connect addr result => (c.chatClientConnect addr result).1 = .ok
  | _ => False

instance (c : Client) (call : Call) : Decidable (call.Opens c) := by
  unfold Opens
  split <;> infer_instance

end Call

def gathered (text : Client → Call → Text) : Client → List Call → Text
  | _, [] => []
  | c, call :: calls =>
      text c call ++ ((c.callStep call).map fun next => gathered text next calls).getD []

theorem gathered_cons {text : Client → Call → Text} {c next : Client} {call : Call}
    (taken : c.callStep call = some next) (calls : List Call) :
    gathered text c (call :: calls) = text c call ++ gathered text next calls := by
  rw [gathered, taken]
  rfl

variable {c c' : Client}

structure Sends (c c' : Client) (bytes : Text) : Prop where
  same : ∃ output socket, c' = { c with output := output, socket := socket }
  opened : c'.socket ≠ none → c.socket ≠ none
  stream : c.output.Bounded → c'.output.Bounded ∧ bytes ++ c'.output.unsent = c.output.unsent

theorem sends_refl (c : Client) : c.Sends c [] :=
  ⟨⟨c.output, c.socket, rfl⟩, id, fun bounded => ⟨bounded, rfl⟩⟩

theorem Sends.trans {c'' : Client} {bytes bytes' : Text} (first : c.Sends c' bytes)
    (second : c'.Sends c'' bytes') : c.Sends c'' (bytes ++ bytes') := by
  obtain ⟨output, socket, same⟩ := first.same
  obtain ⟨output', socket', same'⟩ := second.same
  refine ⟨⟨output', socket', by rw [same', same]⟩,
    fun opened => first.opened (second.opened opened), fun bounded => ?_⟩
  obtain ⟨bounded', stream⟩ := first.stream bounded
  obtain ⟨bounded'', stream'⟩ := second.stream bounded'
  exact ⟨bounded'', by rw [List.append_assoc, stream', stream]⟩

theorem sendAll_takes_unsent {results rest : List SendResult} {output output' : Output}
    {conn conn' : Connection} {flushed : Flushed}
    (all : sendAll output conn results = some (flushed, output', conn', rest))
    (bounded : output.Bounded) :
    output'.Bounded ∧ takes output results ++ output'.unsent = output.unsent := by
  obtain ⟨moved, -, -⟩ := sendAll_spec bounded all
  have both := moved.bytes
  rw [sendAll_takes all, List.append_assoc] at both
  exact ⟨moved.bounded, List.append_cancel_left both⟩

theorem flushOutput_sends {sends rest : List SendResult}
    (done : c.flushOutput sends = some (c', rest)) : c.Sends c' (c.flushSent sends) := by
  obtain ⟨output, socket, rfl, moves⟩ := flushOutput_moves done
  cases moves with
  | closed none =>
      rw [flushSent, if_pos none]
      exact sends_refl c
  | broken there all =>
      have opened : c.socket ≠ none := by simp [there]
      rw [flushSent, if_neg opened]
      exact ⟨⟨_, _, rfl⟩, fun _ => opened, sendAll_takes_unsent all⟩
  | settled there unbroken all =>
      have opened : c.socket ≠ none := by simp [there]
      rw [flushSent, if_neg opened]
      refine ⟨⟨_, _, rfl⟩, fun _ => opened, fun bounded => ?_⟩
      obtain ⟨bounded', bytes⟩ := sendAll_takes_unsent all bounded
      obtain ⟨unsent, settled⟩ := Output.settle_unsent bounded'
      exact ⟨settled, by rw [unsent]; exact bytes⟩

theorem flushTwice_sends {sends : List SendResult} {output : Bool}
    (done : c.flushTwice output sends = some c') :
    c.Sends c' (c.flushTwiceSent output sends) := by
  obtain ⟨first, rest, once, twice⟩ := flushTwice_cases done
  have before : (if output then c.flushOutput sends else some (c, sends)) = some (first, rest) ∧
      c.Sends first (if output then c.flushSent sends else []) := by
    rcases once with ⟨rfl, flushed⟩ | ⟨rfl, rfl, rfl⟩
    · exact ⟨flushed, flushOutput_sends flushed⟩
    · exact ⟨rfl, sends_refl first⟩
  unfold flushTwiceSent
  rw [before.1]
  dsimp only
  rcases twice with ⟨more, rest', flushed⟩ | ⟨nothing, rfl⟩
  · rw [if_pos more]
    exact before.2.trans (flushOutput_sends flushed)
  · rw [if_neg nothing]
    exact before.2.trans (sends_refl c')

-- What `chat_client_pop_next` has returned and is going to return.
def handed (c : Client) : List Message := c.popped ++ c.messages

-- Nothing is read, or what is read completes lines and the last one waits.
inductive Reading (c c' : Client) (bytes : Text) (takes : Prop) : Prop where
  | idle (stays : ¬takes) (nothing : bytes = []) (buffer : c'.inputBuffer = c.inputBuffer)
      (messages : c'.handed = c.handed)
  | reads (taken : takes) (buffer : c'.inputBuffer = Lines.pending newline (c.inputBuffer ++ bytes))
      (messages : c'.handed = c.handed ++ (frames (c.inputBuffer ++ bytes)).map parseMessage)

theorem Sends.reading {c'' : Client} {bytes sent : Text} {takes : Prop}
    (sends : c'.Sends c'' sent) (reading : c.Reading c' bytes takes) :
    c.Reading c'' bytes takes := by
  obtain ⟨output, socket, same⟩ := sends.same
  have buffer : c''.inputBuffer = c'.inputBuffer := by rw [same]
  have messages : c''.handed = c'.handed := by rw [same]; rfl
  cases reading with
  | idle stays nothing buffer' messages' =>
      exact .idle stays nothing (buffer.trans buffer') (messages.trans messages')
  | reads taken buffer' messages' =>
      exact .reads taken (buffer.trans buffer') (messages.trans messages')

theorem receive_reading {conn : Connection} {recvs : List RecvResult} {goesOn : Bool}
    (done : c.receive conn recvs = some (goesOn, c')) :
    (∃ inputBuffer messages socket, c' =
      { c with inputBuffer := inputBuffer, messages := messages, socket := socket }) ∧
    (goesOn = true ∧ recvs.find? RecvResult.final = some .wouldBlock ∧ c'.socket ≠ none ∧
        c.Reading c' (gives recvs) True ∨
      goesOn = false ∧ recvs.find? RecvResult.final ≠ some .wouldBlock ∧ c'.socket = none ∧
        c'.inputBuffer = c.inputBuffer ++ gives recvs ∧ c'.handed = c.handed) := by
  rw [Client.receive, Option.map_eq_some_iff] at done
  obtain ⟨⟨received, buffer, conn'⟩, all, done⟩ := done
  have last := recvAll_last all
  have bytes := recvAll_gives all
  cases received with
  | drained =>
      have taken := @takeMessages_eq { c with inputBuffer := buffer, socket := some conn' }
        buffer.length (Nat.le_refl _)
      dsimp only at done
      rw [taken] at done
      cases done
      refine ⟨⟨_, _, _, rfl⟩, Or.inl ⟨rfl, last, by simp, .reads trivial ?_ ?_⟩⟩
      · rw [← bytes]
      · rw [← bytes]
        simp [handed]
  | ended | failed =>
      cases done
      refine ⟨⟨_, _, _, rfl⟩, Or.inr ⟨rfl, ?_, rfl, bytes, rfl⟩⟩
      rw [last]
      simp [Received.answer]

def Call.adds (c : Client) (call : Call) : Text :=
  if call.fed c = [] then []
  else (if c.nameSent = false ∧ c.name ≠ [] then c.name ++ [newline] else []) ++ call.fed c

structure Calls (c : Client) (call : Call) (c' : Client) : Prop where
  name : c'.name = c.name
  closed : ¬call.Opens c → c.socket = none →
    c'.socket = none ∧ c'.inputBuffer = c.inputBuffer ∧ c'.handed = c.handed
  reading : ¬call.EndsStream c → c.Reading c' (call.received c) (call.TakesLines c)
  lost : call.EndsStream c → c'.socket = none ∧
    c'.inputBuffer = c.inputBuffer ++ call.received c ∧ c'.handed = c.handed
  named : c'.nameSent = true ↔ c.nameSent = true ∨ call.fed c ≠ [] ∧ c.name ≠ []
  stream : c.output.Bounded →
    c'.output.Bounded ∧ call.sent c ++ c'.output.unsent = c.output.unsent ++ call.adds c

theorem adds_nothing {call : Call} (nothing : call.fed c = []) : call.adds c = [] := if_pos nothing

theorem takesLines_opened {call : Call} (takes : call.TakesLines c) : c.socket ≠ none := by
  unfold Call.TakesLines at takes
  split at takes
  · exact takes.1
  · exact takes.elim

theorem takesLines_goes {call : Call} (takes : call.TakesLines c) : ¬call.EndsStream c := by
  unfold Call.TakesLines at takes
  split at takes
  · exact fun ends => ends.2 takes.2
  · exact takes.elim

theorem silent (closed : c.socket = none) (call : Call) : call.received c = [] ∧
    ¬call.EndsStream c ∧ call.fed c = [] ∧ call.sent c = [] := by
  cases call with
  | connect | pop => exact ⟨rfl, id, rfl, rfl⟩
  | feed msg sends => exact ⟨rfl, id, if_pos closed, if_pos (Or.inl closed)⟩
  | update poll recvs sends =>
      cases poll with
      | failed | timedOut => exact ⟨rfl, id, rfl, rfl⟩
      | ready broken input output =>
          cases broken <;> cases input <;>
            simp [Call.received, Call.EndsStream, Call.fed, Call.sent, closed]

theorem connect_eq (c : Client) (addr : Text) (result : ConnectResult) :
    if (c.chatClientConnect addr result).1 = .ok then
      c.socket = none ∧ (c.chatClientConnect addr result).2 = { c with socket := some .new }
    else (c.chatClientConnect addr result).2 = c := by
  unfold chatClientConnect
  split
  · simp
  · next closed =>
      have none : c.socket = none := by simpa using closed
      split
      · simp
      · cases result <;> simp [none]

theorem connect_calls (c : Client) (addr : Text) (result : ConnectResult) :
    c.Calls (.connect addr result) (c.chatClientConnect addr result).2 := by
  have effect := c.connect_eq addr result
  have other : ∃ socket, (c.chatClientConnect addr result).2 = { c with socket := socket } := by
    split at effect
    · exact ⟨_, effect.2⟩
    · exact ⟨c.socket, effect⟩
  have closed : ¬Call.Opens c (.connect addr result) → c.socket = none →
      (c.chatClientConnect addr result).2.socket = none := by
    intro stays none
    have refused : ¬(c.chatClientConnect addr result).1 = .ok := stays
    rw [if_neg refused] at effect
    rw [effect]
    exact none
  obtain ⟨socket, same⟩ := other
  rw [same] at closed ⊢
  refine ⟨rfl, fun stays none => ⟨closed stays none, rfl, rfl⟩, fun _ => .idle id rfl rfl rfl,
    fun ends => ends.elim, ?_, fun bounded => ⟨bounded, ?_⟩⟩
  · simp [Call.fed]
  · rw [adds_nothing rfl, List.append_nil]
    rfl

theorem pop_calls (c : Client) : c.Calls .pop c.chatClientPopNext.2 := by
  have handed : c.chatClientPopNext.2.handed = c.handed := by
    unfold chatClientPopNext
    split
    · rfl
    · next message rest queue => simp [Client.handed, queue]
  have other : ∃ messages popped, c.chatClientPopNext.2 =
      { c with messages := messages, popped := popped } := by
    unfold chatClientPopNext
    split <;> exact ⟨_, _, rfl⟩
  obtain ⟨messages, popped, same⟩ := other
  rw [same] at handed ⊢
  refine ⟨rfl, fun _ closed => ⟨closed, rfl, handed⟩, fun _ => .idle id rfl rfl handed,
    fun ends => ends.elim, ?_, fun bounded => ⟨bounded, ?_⟩⟩
  · simp [Call.fed]
  · rw [adds_nothing rfl, List.append_nil]
    rfl

theorem idle_calls {call : Call} (received : call.received c = []) (ends : ¬call.EndsStream c)
    (takes : ¬call.TakesLines c) (fed : call.fed c = []) (sent : call.sent c = []) :
    c.Calls call c := by
  refine ⟨rfl, fun _ closed => ⟨closed, rfl, rfl⟩, fun _ => .idle takes received rfl rfl,
    fun ends' => absurd ends' ends, ?_, fun bounded => ⟨bounded, ?_⟩⟩
  · simp [fed]
  · rw [adds_nothing fed, sent, List.nil_append, List.append_nil]

theorem fill_eq (c : Client) (msg : Text) : ∃ output nameSent,
    c.fill msg = { c with output := output, nameSent := nameSent, fed := c.fed ++ msg } ∧
      (nameSent = true ↔ c.nameSent = true ∨ c.name ≠ []) ∧
      (c.output.Bounded → output.Bounded ∧ output.unsent = c.output.unsent ++
        ((if c.nameSent = false ∧ c.name ≠ [] then c.name ++ [newline] else []) ++ msg)) := by
  unfold fill sendName
  split
  · next unsaid =>
      refine ⟨_, true, rfl, by simp [unsaid.2], fun bounded => ?_⟩
      obtain ⟨named, bounded'⟩ := Output.append_unsent bounded (c.name ++ [newline])
      obtain ⟨more, bounded''⟩ := Output.append_unsent bounded' msg
      exact ⟨bounded'', by rw [more, named, List.append_assoc]⟩
  · next said =>
      refine ⟨_, c.nameSent, rfl, ?_, fun bounded => ?_⟩
      · constructor
        · exact Or.inl
        · rintro (sent | name)
          · exact sent
          · simpa [name] using said
      · obtain ⟨more, bounded'⟩ := Output.append_unsent bounded msg
        exact ⟨bounded', by rw [more, List.nil_append]⟩

theorem feed_calls {msg : Text} {sends : List SendResult} {code : Errcode}
    (done : c.chatClientFeed msg sends = some (code, c')) : c.Calls (.feed msg sends) c' := by
  unfold chatClientFeed at done
  split at done
  · next closed =>
      cases done
      exact idle_calls rfl id id (if_pos closed) (if_pos (Or.inl closed))
  · next opened =>
      split at done
      · next empty =>
          cases done
          exact idle_calls rfl id id (by rw [Call.fed, if_neg opened, empty])
            (if_pos (Or.inr empty))
      · next nonempty =>
          have filled : ((c.fill msg).flushOutput sends).map (fun done =>
              (if done.1.socket = none then Errcode.sys else .ok, done.1)) = some (code, c') := done
          rw [Option.map_eq_some_iff] at filled
          obtain ⟨⟨flushed, rest⟩, flushing, same⟩ := filled
          cases same
          obtain ⟨output, nameSent, fill, named, stream⟩ := c.fill_eq msg
          have fed : Call.fed c (.feed msg sends) = msg := if_neg opened
          have sent : Call.sent c (.feed msg sends) = (c.fill msg).flushSent sends :=
            if_neg (by simp [opened, nonempty])
          have flush := flushOutput_sends flushing
          obtain ⟨output', socket', same⟩ := flush.same
          have kept : flushed.name = c.name ∧ flushed.inputBuffer = c.inputBuffer ∧
              flushed.handed = c.handed ∧ flushed.nameSent = nameSent := by
            rw [same, fill]
            exact ⟨rfl, rfl, rfl, rfl⟩
          obtain ⟨name, buffer, handed, flag⟩ := kept
          refine ⟨name, fun _ closed => absurd closed opened, fun _ => .idle id rfl buffer handed,
            fun ends => ends.elim, ?_, fun bounded => ?_⟩
          · rw [flag, named, fed]
            simp [nonempty]
          · obtain ⟨bounded', unsent⟩ := stream bounded
            have filled : (c.fill msg).output = output := by rw [fill]
            rw [← filled] at bounded' unsent
            obtain ⟨bounded'', bytes⟩ := flush.stream bounded'
            have adds : Call.adds c (.feed msg sends) =
                (if c.nameSent = false ∧ c.name ≠ [] then c.name ++ [newline] else []) ++ msg := by
              rw [Call.adds, fed, if_neg nonempty]
            exact ⟨bounded'', by rw [sent, bytes, unsent, adds]⟩

theorem update_calls {poll : PollResult} {recvs : List RecvResult} {sends : List SendResult}
    {code : Errcode} (done : c.chatClientUpdate poll recvs sends = some (code, c')) :
    c.Calls (.update poll recvs sends) c' := by
  unfold chatClientUpdate at done
  split at done
  · next closed =>
      cases done
      obtain ⟨received, ends, fed, sent⟩ := silent closed (.update poll recvs sends)
      exact idle_calls received ends (fun takes => takesLines_opened takes closed) fed sent
  · next conn there =>
      have opened : c.socket ≠ none := by simp [there]
      cases poll with
      | failed | timedOut =>
          cases done
          exact idle_calls rfl id id rfl rfl
      | ready broken input output =>
          dsimp only at done
          split at done
          · next isBroken =>
              cases done
              subst isBroken
              refine ⟨rfl, fun _ closed => absurd closed opened, fun _ => .idle id rfl rfl rfl,
                fun ends => ends.elim, ?_, fun bounded => ⟨bounded, ?_⟩⟩
              · simp [Call.fed]
              · rw [adds_nothing rfl, List.append_nil]
                rfl
          · next whole =>
              have unbroken : broken = false := by simpa using whole
              subst unbroken
              rw [Option.bind_eq_some_iff] at done
              obtain ⟨⟨goesOn, read⟩, reading, done⟩ := done
              have sent : Call.sent c (.update (.ready false input output) recvs sends) =
                  if goesOn then read.flushTwiceSent output sends else [] := by
                rw [Call.sent, there]
                dsimp only
                rw [reading]
                cases goesOn <;> rfl
              have adds : Call.adds c (.update (.ready false input output) recvs sends) = [] :=
                adds_nothing rfl
              obtain ⟨⟨inputBuffer, messages, socket, same⟩, rest⟩ :
                  (∃ inputBuffer messages socket, read = { c with
                    inputBuffer := inputBuffer, messages := messages, socket := socket }) ∧
                  (goesOn = true ∧
                      ¬Call.EndsStream c (.update (.ready false input output) recvs sends) ∧
                      c.Reading read
                        (Call.received c (.update (.ready false input output) recvs sends))
                        (Call.TakesLines c (.update (.ready false input output) recvs sends)) ∨
                    goesOn = false ∧ read.socket = none ∧
                      Call.EndsStream c (.update (.ready false input output) recvs sends) ∧
                      read.inputBuffer = c.inputBuffer ++
                        Call.received c (.update (.ready false input output) recvs sends) ∧
                      read.handed = c.handed) := by
                cases input with
                | false =>
                    cases reading
                    exact ⟨⟨_, _, _, rfl⟩, Or.inl ⟨rfl, id, .idle id rfl rfl rfl⟩⟩
                | true =>
                    have received : Call.received c (.update (.ready false true output) recvs sends)
                        = gives recvs := if_neg opened
                    rw [received]
                    obtain ⟨shape, ⟨goesOn, last, -, reads⟩ | ⟨stops, last, closed, lost⟩⟩ :=
                      receive_reading reading
                    · have takes : Call.TakesLines c
                          (.update (.ready false true output) recvs sends) := ⟨opened, last⟩
                      rw [eq_true takes]
                      exact ⟨shape, Or.inl ⟨goesOn, fun ends => ends.2 last, reads⟩⟩
                    · exact ⟨shape, Or.inr ⟨stops, closed, ⟨opened, last⟩, lost⟩⟩
              rcases rest with ⟨rfl, goes, reads⟩ | ⟨rfl, closed, ends, lost⟩
              · simp only [if_true, Option.map_eq_some_iff] at done sent
                obtain ⟨flushed, flushing, done⟩ := done
                cases done
                have flush := flushTwice_sends flushing
                obtain ⟨output', socket', same'⟩ := flush.same
                refine ⟨by rw [same', same], fun _ closed => absurd closed opened,
                  fun _ => flush.reading reads, fun ends => absurd ends goes, ?_, fun bounded => ?_⟩
                · rw [same', same]
                  simp [Call.fed]
                · have kept : read.output = c.output := by rw [same]
                  rw [← kept] at bounded ⊢
                  obtain ⟨bounded', bytes⟩ := flush.stream bounded
                  exact ⟨bounded', by rw [sent, bytes, adds, List.append_nil]⟩
              · simp only [Bool.false_eq_true, if_false, Option.some.injEq] at done sent
                cases done
                refine ⟨by rw [same], fun _ closed => absurd closed opened,
                  fun goes => absurd ends goes, fun _ => ⟨closed, lost⟩, ?_, fun bounded => ?_⟩
                · rw [same]
                  simp [Call.fed]
                · have kept : c'.output = c.output := by rw [same]
                  rw [sent, adds, kept, List.append_nil]
                  exact ⟨bounded, rfl⟩

theorem callStep_calls {call : Call} (taken : c.callStep call = some c') : c.Calls call c' := by
  cases call with
  | connect addr result =>
      cases taken
      exact connect_calls c addr result
  | pop =>
      cases taken
      exact pop_calls c
  | feed msg sends =>
      rw [callStep, Option.map_eq_some_iff] at taken
      obtain ⟨⟨code, next⟩, done, rfl⟩ := taken
      exact feed_calls done
  | update poll recvs sends =>
      rw [callStep, Option.map_eq_some_iff] at taken
      obtain ⟨⟨code, next⟩, done, rfl⟩ := taken
      exact update_calls done

end Client

end SystemProg.Chat

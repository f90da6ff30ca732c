import SystemProg.Chat.Connections

set_option autoImplicit false

-- The buffers, `output_sent` and `name_sent` belong to the client and not to a connection.

namespace SystemProg.Chat

def EndsLine (text : Text) : Prop := ∀ b ∈ text.getLast?, b = newline

instance (text : Text) : Decidable (EndsLine text) :=
  Option.decidableForallMem text.getLast?

theorem EndsLine.pending {text : Text} (ends : EndsLine text) :
    Lines.pending newline text = [] := by
  rcases text.eq_nil_or_concat with rfl | ⟨front, last, rfl⟩
  · rfl
  · rw [List.concat_eq_append] at ends ⊢
    cases ends last (by simp)
    exact Lines.pending_ended front

theorem EndsLine.frames {text : Text} (ends : EndsLine text) (rest : Text) :
    frames (text ++ rest) = frames text ++ frames rest := by
  rw [frames_append, ends.pending, List.nil_append]

namespace Client

variable {c c' : Client}

-- The call makes no connection, or one that nothing of an earlier one can get into.
def Fresh (c : Client) (call : Call) : Prop :=
  call.Opens c → c.nameSent = false ∧ EndsLine c.inputBuffer

instance (c : Client) (call : Call) : Decidable (c.Fresh call) := by
  unfold Fresh
  infer_instance

-- What is sent on a connection is the client's name and what is fed from then on, and the lines
-- read on it are whole lines of what was left in the buffer or of what is received on it.
structure Separate (before : Client) (calls : List Call) (c : Client) : Prop where
  sent : gathered Call.sent before calls <+:
    before.name ++ [newline] ++ gathered Call.fed before calls
  received : c.handed = before.handed ∨
    ∃ read, read <+: gathered Call.received before calls ∧
      c.handed = before.handed ++ (frames before.inputBuffer ++ frames read).map parseMessage

structure Unsaid (c : Client) (name : Text) : Prop where
  name : c.name = name
  bounded : c.output.Bounded
  nothing : c.nameSent = false → c.output.unsent = []

theorem unsaid_new (name : Text) : (chatClientNew name).Unsaid name :=
  ⟨rfl, Output.empty_bounded, fun _ => rfl⟩

theorem Unsaid.step {name : Text} (unsaid : c.Unsaid name) (nonempty : name ≠ []) {call : Call}
    (taken : c.callStep call = some c') : c'.Unsaid name := by
  have calls := callStep_calls taken
  obtain ⟨bounded, stream⟩ := calls.stream unsaid.bounded
  refine ⟨calls.name.trans unsaid.name, bounded, fun silent => ?_⟩
  have named := calls.named
  rw [silent, unsaid.name] at named
  have before : c.nameSent = false ∧ call.fed c = [] := by
    simpa [nonempty] using named
  rw [unsaid.nothing before.1, adds_nothing before.2] at stream
  exact (List.append_eq_nil_iff.mp stream).2

structure Tells (c : Client) (name sent fed : Text) : Prop where
  own : c.name = name
  bounded : c.output.Bounded
  named : c.nameSent = true ↔ fed ≠ []
  stream : sent ++ c.output.unsent = header name fed ++ fed

theorem Tells.step {name sent fed : Text} (told : c.Tells name sent fed) (nonempty : name ≠ [])
    {call : Call} (taken : c.callStep call = some c') :
    c'.Tells name (sent ++ call.sent c) (fed ++ call.fed c) := by
  have calls := callStep_calls taken
  obtain ⟨bounded, stream⟩ := calls.stream told.bounded
  refine ⟨calls.name.trans told.own, bounded, ?_, ?_⟩
  · rw [calls.named, told.named, told.own]
    simp [nonempty, List.append_eq_nil_iff, imp_iff_not_or]
  · rw [List.append_assoc, stream, ← List.append_assoc, told.stream, Call.adds, told.own]
    have named := told.named
    by_cases first : fed = [] <;> by_cases nothing : call.fed c = [] <;>
      cases flag : c.nameSent <;> simp_all [header]

theorem Tells.run {name sent fed : Text} {calls : List Call} (told : c.Tells name sent fed)
    (nonempty : name ≠ []) (run : Run.exec callStep c calls = some c') :
    c'.Tells name (sent ++ gathered Call.sent c calls) (fed ++ gathered Call.fed c calls) := by
  induction calls generalizing c sent fed with
  | nil =>
      cases run
      rw [gathered, gathered, List.append_nil, List.append_nil]
      exact told
  | cons call calls ih =>
      obtain ⟨next, taken, finished⟩ := (Run.exec_cons _ _ _ _).mp run
      have later := ih (told.step nonempty taken) finished
      rw [gathered_cons taken, gathered_cons taken, ← List.append_assoc, ← List.append_assoc]
      exact later

theorem Tells.within {name sent fed : Text} (told : c.Tells name sent fed) (nonempty : name ≠ []) :
    sent <+: name ++ [newline] ++ fed := by
  have front : sent <+: header name fed ++ fed := ⟨_, told.stream⟩
  unfold header at front
  split at front
  · next silent =>
      rw [silent.resolve_right nonempty] at front
      exact (List.prefix_nil.mp front) ▸ List.nil_prefix
  · exact front

structure Hears (before : Client) (received : Text) (c : Client) : Prop where
  handed : c.handed = before.handed ∨ ∃ read, read <+: received ∧
    c.handed = before.handed ++ (frames (before.inputBuffer ++ read)).map parseMessage
  opened : c.socket ≠ none →
    received = [] ∧ c.inputBuffer = before.inputBuffer ∧ c.handed = before.handed ∨
      c.inputBuffer = Lines.pending newline (before.inputBuffer ++ received) ∧
        c.handed = before.handed ++
          (frames (before.inputBuffer ++ received)).map parseMessage

theorem Hears.step {before : Client} {received : Text} (hears : Hears before received c)
    {call : Call} (stays : ¬call.Opens c) (taken : c.callStep call = some c') :
    Hears before (received ++ call.received c) c' := by
  have calls := callStep_calls taken
  by_cases closed : c.socket = none
  · obtain ⟨closed', -, handed⟩ := calls.closed stays closed
    refine ⟨?_, fun opened => absurd closed' opened⟩
    rw [handed, (silent closed call).1, List.append_nil]
    exact hears.handed
  · have whole : c'.handed = before.handed ++
        (frames (before.inputBuffer ++ (received ++ call.received c))).map parseMessage →
          c'.inputBuffer =
            Lines.pending newline (before.inputBuffer ++ (received ++ call.received c)) →
          Hears before (received ++ call.received c) c' := fun handed buffer =>
      ⟨Or.inr ⟨_, List.prefix_refl _, handed⟩, fun _ => Or.inr ⟨buffer, handed⟩⟩
    by_cases ends : call.EndsStream c
    · obtain ⟨closed', -, handed⟩ := calls.lost ends
      refine ⟨?_, fun opened => absurd closed' opened⟩
      rw [handed]
      rcases hears.handed with none | ⟨read, within, some⟩
      · exact Or.inl none
      · exact Or.inr ⟨read, within.trans (List.prefix_append _ _), some⟩
    · cases calls.reading ends with
      | idle stays nothing buffer handed =>
          rw [nothing, List.append_nil]
          refine ⟨by rw [handed]; exact hears.handed, fun _ => ?_⟩
          rw [buffer, handed]
          exact hears.opened closed
      | reads taken buffer handed =>
          rcases hears.opened closed with ⟨nothing, buffer', handed'⟩ | ⟨buffer', handed'⟩
          · refine whole ?_ ?_
            · rw [handed, handed', buffer', nothing, List.nil_append]
            · rw [buffer, buffer', nothing, List.nil_append]
          · refine whole ?_ ?_
            · rw [handed, handed', buffer', ← List.append_assoc before.inputBuffer,
                frames_append (before.inputBuffer ++ received), List.map_append, List.append_assoc]
            · rw [buffer, buffer', ← Lines.pending_append, List.append_assoc]

theorem Hears.run {before : Client} {received : Text} {calls : List Call}
    (hears : Hears before received c)
    (stays : Run.EachStep callStep (fun c call => ¬call.Opens c) c calls)
    (run : Run.exec callStep c calls = some c') :
    Hears before (received ++ gathered Call.received c calls) c' := by
  induction calls generalizing c received with
  | nil =>
      cases run
      rw [gathered, List.append_nil]
      exact hears
  | cons call calls ih =>
      obtain ⟨next, taken, finished⟩ := (Run.exec_cons _ _ _ _).mp run
      obtain ⟨stay, later⟩ := stays next taken
      rw [gathered_cons taken, ← List.append_assoc]
      exact ih (hears.step stay taken) later finished

theorem unsaid_run {name : Text} {calls : List Call} (nonempty : name ≠ [])
    (run : Run.exec callStep (chatClientNew name) calls = some c) : c.Unsaid name :=
  Run.exec_invariant (fun c => c.Unsaid name) (fun _ _ _ unsaid => unsaid.step nonempty)
    (unsaid_new name) run

theorem connections_separate {name : Text} {front calls : List Call} {call : Call}
    {before : Client} (nonempty : name ≠ [])
    (met : Run.EachStep callStep Fresh (chatClientNew name) (front ++ call :: calls))
    (reached : Run.exec callStep (chatClientNew name) front = some before)
    (opens : call.Opens before)
    (stays : ∀ next, before.callStep call = some next →
      Run.EachStep callStep (fun c call => ¬call.Opens c) next calls)
    (run : Run.exec callStep before (call :: calls) = some c) :
    before.Separate (call :: calls) c := by
  have unsaid := unsaid_run nonempty reached
  obtain ⟨next, taken, finished⟩ := (Run.exec_cons _ _ _ _).mp run
  obtain ⟨silent, ends⟩ := ((met.reached reached) next taken).1 opens
  cases call with
  | feed | update | pop => exact opens.elim
  | connect addr result =>
      have effect := before.connect_eq addr result
      have ok : (before.chatClientConnect addr result).1 = .ok := opens
      rw [if_pos ok] at effect
      have opened : next = { before with socket := some .new } :=
        (Option.some.inj taken).symm.trans effect.2
      have told : next.Tells name [] [] := by
        rw [opened]
        exact ⟨unsaid.name, unsaid.bounded, by simp [silent], unsaid.nothing silent⟩
      have hears : Hears before [] next := by
        rw [opened]
        exact ⟨Or.inl rfl, fun _ => Or.inl ⟨rfl, rfl, rfl⟩⟩
      have told' := (told.run nonempty finished).within nonempty
      have hears' := (hears.run (stays next taken) finished).handed
      refine ⟨?_, ?_⟩
      · rw [gathered_cons taken, gathered_cons taken, unsaid.name]
        exact told'
      · rw [gathered_cons taken]
        refine hears'.imp_right ?_
        rintro ⟨read, within, handed⟩
        exact ⟨read, within, by rw [handed, ends.frames]⟩

def secondTry : List Call :=
  [.connect [colon] .connected, .update (.ready true false false) [] [],
    .connect [colon] .connected, .feed [104, 105, 10] [.sent 2, .wouldBlock],
    .update (.ready false true true) [.received [120, 10, 121], .wouldBlock] [.sent 3, .failed]]

theorem connections_separate_secondTry : ∃ before c,
    Run.exec callStep (chatClientNew [97, 110, 110]) (secondTry.take 2) = some before ∧
    Run.exec callStep before (secondTry.drop 2) = some c ∧
      before.Separate (secondTry.drop 2) c :=
  ⟨_, _, rfl, rfl, @connections_separate _ [97, 110, 110] (secondTry.take 2) (secondTry.drop 3)
    (.connect [colon] .connected) _ (by decide) (by decide) rfl (by decide)
    (fun next taken => by cases taken; decide) rfl⟩

def reconnects : List Call :=
  [.connect [colon] .connected, .feed [104, 105, 10] [.sent 7],
    .update (.ready true false false) [] [], .connect [colon] .connected,
    .feed [121, 111, 10] [.sent 3]]

theorem connections_nameless : ∃ before c,
    Run.exec callStep (chatClientNew [97, 110, 110]) (reconnects.take 3) = some before ∧
    Run.exec callStep before (reconnects.drop 3) = some c ∧
    gathered Call.sent before (reconnects.drop 3) = [121, 111, 10] ∧
    ¬before.Separate (reconnects.drop 3) c := by
  refine ⟨_, _, rfl, rfl, by decide, fun separate => ?_⟩
  exact absurd separate.sent (by decide)

end Client

end SystemProg.Chat

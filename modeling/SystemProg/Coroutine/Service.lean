import SystemProg.Coroutine.FirstCome

set_option autoImplicit false

-- The senders that wait before a full channel put their messages into it in the order of its queue.
-- The receivers that wait before an empty one get the messages in the order in which they are sent.

namespace SystemProg.Coroutine

def BusCall.message (call : BusCall) : Option Message :=
  match call.op with
  | .send data => some data
  | .recv => none

-- The call is neither on this side of a channel nor one that wakes those who wait there.
def Action.elsewhere (side : Side) : Action → Bool
  | .close _ _ | .wakeup _ => false
  | action => action.busCall.all fun call => call.side ≠ side

def Event.receipt (id : ChanId) : Event → Option ((Option CoroRef × BusCall) × Option Message)
  | .received who call id' data => if id' = id then some ((who, call), data) else none
  | _ => none

theorem Event.sentTo_mover (id : ChanId) (event : Event) :
    event.sentTo id = (event.mover id .send).bind fun mover => mover.2.message := by
  cases event with
  | sent who call id' =>
      by_cases same : id' = id
      · simp only [Event.sentTo, Event.mover, same, and_self, if_true, Option.bind_some]
        rfl
      · simp [Event.sentTo, Event.mover, same]
  | received who call id' data => simp [Event.sentTo, Event.mover]
  | _ => rfl

theorem Event.receipt_mover (id : ChanId) (event : Event) :
    event.mover id .recv = (event.receipt id).map Prod.fst := by
  cases event with
  | sent who call id' => simp [Event.receipt, Event.mover]
  | received who call id' data =>
      by_cases same : id' = id <;> simp [Event.receipt, Event.mover, same]
  | _ => rfl

theorem Event.receipt_data (id : ChanId) (event : Event) :
    event.receivedFrom id = (event.receipt id).bind Prod.snd := by
  cases event with
  | received who call id' data =>
      rw [Event.receivedFrom, Event.receipt]
      split <;> rfl
  | _ => rfl

theorem receipts_whole {id : ChanId} {events : List Event} (whole : ∀ event ∈ events, event.Whole) :
    (events.filterMap (Event.receipt id)).map Prod.snd =
      (events.filterMap (Event.receivedFrom id)).map some := by
  induction events with
  | nil => rfl
  | cons event events ih =>
      have rest := ih fun event mem => whole event (List.mem_cons_of_mem _ mem)
      rw [List.filterMap_cons, List.filterMap_cons, Event.receipt_data]
      cases received : event.receipt id with
      | none => exact rest
      | some receipt =>
          have taken : ∃ data, receipt.2 = some data := by
            have here := whole event (List.mem_cons_self ..)
            cases event with
            | received who call id' data =>
                rw [Event.receipt] at received
                split at received
                · cases received
                  exact Option.ne_none_iff_exists'.mp here.2
                · cases received
            | _ => cases received
          obtain ⟨data, taken⟩ := taken
          rw [Option.bind_some, taken, List.map_cons, List.map_cons, taken, rest]

namespace Machine

variable {s t : Machine} {id : ChanId} {side : Side} {served : List Entry} {events : List Event}

theorem sentTo_movers
    (movers : events.filterMap (Event.mover id .send) = served.map Entry.mover) :
    events.filterMap (Event.sentTo id) = served.filterMap fun entry => entry.2.message := by
  calc events.filterMap (Event.sentTo id)
      = (events.filterMap (Event.mover id .send)).filterMap fun mover => mover.2.message := by
        rw [List.filterMap_filterMap]
        exact List.filterMap_congr fun event _ => Event.sentTo_mover id event
    _ = served.filterMap fun entry => entry.2.message := by
        rw [movers, List.filterMap_map]
        rfl

theorem receipts_who (id : ChanId) (events : List Event) :
    (events.filterMap (Event.receipt id)).map Prod.fst = events.filterMap (Event.mover id .recv) := by
  rw [List.map_filterMap]
  exact List.filterMap_congr fun event _ => (Event.receipt_mover id event).symm

theorem receipts_movers (whole : ∀ event ∈ events, event.Whole)
    (movers : events.filterMap (Event.mover id .recv) = served.map Entry.mover) :
    events.filterMap (Event.receipt id) = (served.zip (events.filterMap (Event.receivedFrom id))).map
      fun (entry, data) => (entry.mover, some data) := by
  have who := (receipts_who id events).trans movers
  rw [List.zip_of_prod who (receipts_whole whole), List.zip_map]
  rfl

theorem receipts_length (whole : ∀ event ∈ events, event.Whole)
    (movers : events.filterMap (Event.mover id .recv) = served.map Entry.mover) :
    (events.filterMap (Event.receivedFrom id)).length = served.length := by
  calc (events.filterMap (Event.receivedFrom id)).length
      = ((events.filterMap (Event.receipt id)).map Prod.snd).length := by
        rw [receipts_whole whole, List.length_map]
    _ = (events.filterMap (Event.mover id .recv)).length := by
        rw [← receipts_who, List.length_map, List.length_map]
    _ = served.length := by
        rw [movers, List.length_map]

def line (s : Machine) (id : ChanId) (side : Side) : List Entry :=
  match s.chans id with
  | none => []
  | some chan => (chan.queue side).flatMap fun c => (s.pendingCall c).map (Prod.mk c)

-- The channel is full for its senders, or empty for its receivers, and nobody has been woken in a
-- call of this side on its descriptor and has not run yet.
structure Lined (s : Machine) (id : ChanId) (side : Side) : Prop where
  chan : ∃ chan, s.chans id = some chan ∧ chan.closed = false ∧ chan.ready side = false
  unwoken : ∀ c call id', s.Waits c .running call id' → call.side = side →
    s.findChannel call.bus call.channel ≠ some (some id)

theorem Waits.pendingCall {c : CoroId} {state : CoroState} {call : BusCall}
    (waits : s.Waits c state call id) : s.pendingCall c = [call] :=
  pendingCall_eq.mpr (Or.inl ⟨state, call, id, waits, rfl⟩)

theorem line_there {chan : Channel} (there : s.chans id = some chan) :
    s.line id side = (chan.queue side).flatMap fun c => (s.pendingCall c).map (Prod.mk c) := by
  rw [line, there]

theorem Sound.line_queue (sound : s.Sound) {chan : Channel} (there : s.chans id = some chan) :
    (s.line id side).map Prod.fst = chan.queue side := by
  have single (c : CoroId) (mem : c ∈ chan.queue side) :
      ((s.pendingCall c).map (Prod.mk c)).map Prod.fst = [c] := by
    obtain ⟨state, call, waits, -⟩ := sound.queued id chan side c there mem
    rw [waits.pendingCall]
    rfl
  rw [line_there there, List.map_flatMap]
  calc (chan.queue side).flatMap (fun c => ((s.pendingCall c).map (Prod.mk c)).map Prod.fst)
      = (chan.queue side).flatMap fun c => [c] := List.flatMap_congr single
    _ = chan.queue side := List.flatMap_singleton' _

theorem Lined.asleep (sound : s.Sound) (lined : s.Lined id side) {chan : Channel}
    (there : s.chans id = some chan) (opened : chan.closed = false) {c : CoroId}
    (mem : c ∈ chan.queue side) :
    ∃ call, s.Waits c .suspended call id ∧ call.side = side := by
  obtain ⟨state, call, waits, same⟩ := sound.queued id chan side c there mem
  cases state with
  | suspended => exact ⟨call, waits, same⟩
  | running =>
      obtain ⟨-, chan', there', -, found⟩ := sound.waiting c _ call id waits
      rw [there] at there'
      cases there'
      exact absurd (found opened) (lined.unwoken c call id waits same)
  | finished => cases sound.engine.finished c _ waits

theorem Lined.inLine (sound : s.Sound) (lined : s.Lined id side) :
    s.InLine id side [] (s.line id side) := by
  obtain ⟨chan, there, opened, -⟩ := lined.chan
  refine ⟨⟨chan, there, opened, (sound.line_queue there).symm, Nat.zero_le _⟩,
    List.nil_sublist _, nofun, ?_, ?_⟩
  · rintro ⟨c, call⟩ mem
    rw [line_there there, List.mem_flatMap] at mem
    obtain ⟨d, queued, mem⟩ := mem
    obtain ⟨call', waits, same⟩ := lined.asleep sound there opened queued
    rw [waits.pendingCall] at mem
    obtain ⟨rfl, rfl⟩ := Prod.mk.inj (List.mem_singleton.mp mem)
    exact ⟨waits, same⟩
  · intro c state call id' waits same at_
    -- It has not been woken, so it is in the queue of the channel that it waits for.
    obtain ⟨-, chan', there', linked, found⟩ := sound.waiting c state call id' waits
    have queued := linked.resolve_left fun running =>
      lined.unwoken c call id' (running ▸ waits) same at_
    obtain rfl : id' = id := by
      rw [found queued.1] at at_
      exact Option.some.inj (Option.some.inj at_)
    rw [there] at there'
    cases there'
    rw [List.nil_append, line_there there, List.mem_flatMap]
    refine ⟨c, same ▸ queued.2, ?_⟩
    rw [waits.pendingCall]
    exact List.mem_singleton_self _

theorem Sound.lined (sound : s.Sound) (schedule : s.engine.schedule = [])
    (chan : ∃ chan, s.chans id = some chan ∧ chan.closed = false ∧ chan.ready side = false) :
    s.Lined id side := by
  refine ⟨chan, fun c call id' waits _ _ => ?_⟩
  rcases sound.engine.runs c _ waits with scheduled | current
  · rw [schedule] at scheduled
    cases scheduled
  · rw [Waits, sound.engine.currentLook current] at waits
    cases waits

-- From an empty channel, the messages that are received are the first of those that are sent.
theorem Lined.firstSent (lined : s.Lined id .recv) (flows : s.Flows t events) :
    events.filterMap (Event.sentTo id) = events.filterMap (Event.receivedFrom id) ++ t.content id := by
  obtain ⟨chan, there, -, empty⟩ := lined.chan
  have nothing : s.content id = [] := by
    rw [content, there]
    simpa [Channel.ready] using empty
  rw [← flows.2 id, nothing, List.nil_append]

-- Before a full channel, or an empty one, the coroutines of its queue are served in their order
-- when no others come to their side: the senders' messages go behind those that the channel holds,
-- and each receiver gets the message that is sent at its turn. Nobody gets control twice in its
-- call, as whoever gets it there moves a message.
theorem first_come_first_served (reached : Run.Reaches step init s) (lined : s.Lined id side)
    {actions : List Action}
    (undisturbed : Run.EachStep step (Undisturbed id side (s.line id side)) s actions)
    (run : Run.exec step s actions = some t) :
    (∃ served waiting events, s.line id side = served ++ waiting ∧ t.log = s.log ++ events ∧
      events.filterMap (Event.mover id side) = served.map Entry.mover ∧
      (side = .send →
        let messages := served.filterMap fun entry => entry.2.message
        events.filterMap (Event.sentTo id) = messages ∧
        s.content id ++ messages = events.filterMap (Event.receivedFrom id) ++ t.content id) ∧
      (side = .recv → ∃ got, events.filterMap (Event.sentTo id) = got ++ t.content id ∧
        got.length = served.length ∧ events.filterMap (Event.receipt id) =
          (served.zip got).map fun (entry, data) => (entry.mover, some data))) ∧
    (∀ c, resumptions c id side s actions ≤ 1) ∧
    ∀ c state call, t.engine.jump = some (.coro c) → t.Waits c state call id → call.side = side →
      ∃ next event, t.step .resume = some next ∧ next.log = t.log ++ [event] ∧
        event.mover id side = some (Entry.mover (c, call)) := by
  have ordered := reaches_ordered reached
  obtain ⟨front, first⟩ := reached
  have after := reaches_ordered ⟨front ++ actions, (Run.exec_append _ _ _ _).mpr ⟨s, first, run⟩⟩
  obtain ⟨⟨served, woken, rest, events, split, inLine, log, movers⟩, counts⟩ :=
    run_advances ordered (reaches_awaits ⟨front, first⟩) (lined.inLine ordered.sound) undisturbed
      (fun entry mem => mem) run
  obtain ⟨events', flows⟩ := run_flows ordered.sound run
  obtain rfl : events' = events := List.append_cancel_left (flows.1.symm.trans log)
  have whole (event : Event) (mem : event ∈ events') : event.Whole :=
    after.whole event (log ▸ List.mem_append_right _ mem)
  refine ⟨⟨served, woken ++ rest, events', split, log, movers, ?_, ?_⟩, fun c => (counts c).1, ?_⟩
  · rintro rfl
    have sent := sentTo_movers movers
    exact ⟨sent, sent ▸ flows.2 id⟩
  · rintro rfl
    exact ⟨events'.filterMap (Event.receivedFrom id), lined.firstSent flows,
      receipts_length whole movers, receipts_movers whole movers⟩
  · intro c state call jump waits same
    exact inLine.resumed after.sound (inLine.waiting after.sound waits same) jump

theorem Undisturbed.elsewhere {line : List Entry} {action : Action}
    (elsewhere : action.elsewhere side = true) : Undisturbed id side line s action := by
  refine ⟨?_, fun call made same => ?_, ?_⟩
  · rintro bus channel rfl
    cases elsewhere
  · have other : call.side ≠ side := by
      cases action <;> cases made <;> exact of_decide_eq_true elsewhere
    exact absurd same other
  · rintro entry - rfl
    cases elsewhere

def crowdedRun : List Action :=
  [.busNew, .open_ (some 0) 1, .new, .new, .new, .run, .resume, .send (some 0) 0 7,
    .send (some 0) 0 8, .resume, .send (some 0) 0 9, .resume]

def crowded : Machine := (Run.exec step init crowdedRun).get (by decide)

def hungryRun : List Action :=
  [.busNew, .open_ (some 0) 2, .new, .new, .new, .run, .resume, .recv (some 0) 0, .resume,
    .recv (some 0) 0, .resume]

def hungry : Machine := (Run.exec step init hungryRun).get (by decide)

def drains : List Action :=
  [.recv (some 0) 0, .recv (some 0) 0, .resume, .resume, .finish 0, .resume, .resume, .finish 0,
    .resume, .resume]

def feeds : List Action :=
  [.send (some 0) 0 7, .send (some 0) 0 8, .finish 0, .resume, .resume, .finish 0, .resume]

theorem first_come_first_served_twice :
    (∃ t served waiting events, Run.exec step crowded drains = some t ∧
      crowded.line 0 .send = served ++ waiting ∧ t.log = crowded.log ++ events ∧
      events.filterMap (Event.sentTo 0) = served.filterMap (fun entry => entry.2.message) ∧
      resumptions 1 0 .send crowded drains ≤ 1) ∧
    ∃ t served waiting got, Run.exec step hungry feeds = some t ∧
      hungry.line 0 .recv = served ++ waiting ∧ t.sent 0 = got ++ t.content 0 ∧
      got.length = served.length := by
  constructor
  · have reached : Run.Reaches step init crowded := ⟨crowdedRun, (Option.some_get _).symm⟩
    have lined : crowded.Lined 0 .send :=
      (reaches_sound reached).lined rfl ⟨_, rfl, rfl, rfl⟩
    have undisturbed : Run.EachStep step (Undisturbed 0 .send (crowded.line 0 .send)) crowded drains :=
      Run.eachStep_of_forall (fun action mem s => Undisturbed.elsewhere (by revert action; decide)) crowded
    have run := (Option.some_get (show (Run.exec step crowded drains).isSome by decide)).symm
    obtain ⟨⟨served, waiting, events, split, log, -, sends, -⟩, counts, -⟩ :=
      first_come_first_served reached lined undisturbed run
    exact ⟨_, served, waiting, events, run, split, log, (sends rfl).1, counts 1⟩
  · have reached : Run.Reaches step init hungry := ⟨hungryRun, (Option.some_get _).symm⟩
    have lined : hungry.Lined 0 .recv :=
      (reaches_sound reached).lined rfl ⟨_, rfl, rfl, rfl⟩
    have undisturbed : Run.EachStep step (Undisturbed 0 .recv (hungry.line 0 .recv)) hungry feeds :=
      Run.eachStep_of_forall (fun action mem s => Undisturbed.elsewhere (by revert action; decide)) hungry
    have run := (Option.some_get (show (Run.exec step hungry feeds).isSome by decide)).symm
    obtain ⟨⟨served, waiting, events, split, log, -, -, receives⟩, -⟩ :=
      first_come_first_served reached lined undisturbed run
    obtain ⟨got, sent, length, -⟩ := receives rfl
    refine ⟨_, served, waiting, got, run, split, ?_, length⟩
    rw [Machine.sent, log, List.filterMap_append, sent]
    rfl

end Machine

end SystemProg.Coroutine

import SystemProg.Coroutine.Turns

set_option autoImplicit false

-- What has been taken from a channel, with what it still holds, is what has been put into it.

namespace SystemProg.Coroutine

namespace Event

def sentTo (id : ChanId) : Event → Option Message
  | .sent _ call id' =>
      if id' = id then
        match call.op with
        | .send data => some data
        | .recv => none
      else none
  | _ => none

def receivedFrom (id : ChanId) : Event → Option Message
  | .received _ _ id' data => if id' = id then data else none
  | _ => none

def returnOf (c : CoroId) : Event → Option BusCall
  | .sent who call _ | .received who call _ _ | .refused who call _ =>
      if who = some (.coro c) then some call else none
  | _ => none

-- What returns 0 has moved one message.
def Whole : Event → Prop
  | .sent _ call _ => ∃ data, call.op = .send data
  | .received _ call _ data => call.op = .recv ∧ data ≠ none
  | _ => True

end Event

namespace Machine

def sent (s : Machine) (id : ChanId) : List Message := s.log.filterMap (Event.sentTo id)

def received (s : Machine) (id : ChanId) : List Message := s.log.filterMap (Event.receivedFrom id)

def returned (s : Machine) (c : CoroId) : List BusCall := s.log.filterMap (Event.returnOf c)

def content (s : Machine) (id : ChanId) : List Message :=
  ((s.chans id).map Channel.data).getD []

def pendingCall (s : Machine) (c : CoroId) : List BusCall :=
  match s.engine.look c with
  | some (_, .frame (.waiting call _)) => [call]
  | _ => []

def madeBy (c : CoroId) : Machine → List Action → List BusCall
  | _, [] => []
  | s, action :: rest =>
      match s.step action with
      | none => []
      | some next =>
          (if s.engine.thisCoro = some (.coro c) then action.busCall.toList else []) ++
            madeBy c next rest

-- The events that a step logs say how it changes the channels' messages.
def Flows (s next : Machine) (events : List Event) : Prop :=
  next.log = s.log ++ events ∧ ∀ id, s.content id ++ events.filterMap (Event.sentTo id) =
    events.filterMap (Event.receivedFrom id) ++ next.content id

def Within (s : Machine) : Prop :=
  ∀ id chan, s.chans id = some chan → chan.data.length ≤ chan.sizeLimit

theorem flows_silent {s next : Machine} (log : next.log = s.log)
    (content : ∀ id, next.content id = s.content id) : s.Flows next [] := by
  refine ⟨by simp [log], fun id => ?_⟩
  simp [content id]

theorem content_chans {s next : Machine} (chans : next.chans = s.chans) (id : ChanId) :
    next.content id = s.content id := by
  rw [content, content, chans]

theorem content_setChan {s next : Machine} {id : ChanId} (chan : Channel)
    (chans : next.chans = (s.setChan id chan).chans) (id' : ChanId) :
    next.content id' = if id' = id then chan.data else s.content id' := by
  rw [content, chans, setChan_chans]
  split <;> rfl

theorem content_same {s next : Machine} {id : ChanId} {chan chan' : Channel}
    (there : s.chans id = some chan) (data : chan'.data = chan.data)
    (chans : next.chans = (s.setChan id chan').chans) (id' : ChanId) :
    next.content id' = s.content id' := by
  rw [content_setChan chan' chans]
  split
  · next same =>
      rw [same, content, there, data]
      rfl
  · rfl

theorem Moved.flows {s next : Machine} {call : BusCall} {id : ChanId} {chan : Channel}
    (moves : s.Moved next call id chan) :
    s.Flows next [(transfer s.engine.thisCoro call id chan).2] ∧
      (transfer s.engine.thisCoro call id chan).2.Whole := by
  obtain ⟨rest, -, chans⟩ := moves.queue
  have ready := moves.ready
  have before : s.content id = chan.data := by
    rw [content, moves.there]
    rfl
  have after (id' : ChanId) := content_setChan _ chans id'
  refine ⟨⟨moves.log, fun id' => ?_⟩, ?_⟩
  · rw [after]
    by_cases same : id' = id
    · rw [same, before, if_pos rfl]
      obtain ⟨op, blocking, bus, channel⟩ := call
      cases op with
      | send data => simp [List.filterMap_cons, transfer, Event.sentTo, Event.receivedFrom, Channel.setQueue]
      | recv =>
          -- There is a first message, and it is the one that is stored.
          simp only [BusCall.side, BusOp.side, Channel.ready, decide_eq_true_eq] at ready
          obtain ⟨first, others, data⟩ := List.exists_cons_of_ne_nil ready
          simp [List.filterMap_cons, transfer, Event.sentTo, Event.receivedFrom, Channel.setQueue, data]
    · rw [if_neg same]
      obtain ⟨op, blocking, bus, channel⟩ := call
      cases op <;> simp [List.filterMap_cons, transfer, Event.sentTo, Event.receivedFrom, Ne.symm same]
  · obtain ⟨op, blocking, bus, channel⟩ := call
    cases op with
    | send data => exact ⟨data, rfl⟩
    | recv =>
        simp only [BusCall.side, BusOp.side, Channel.ready, decide_eq_true_eq] at ready
        refine ⟨rfl, ?_⟩
        simpa using ready

theorem refuse_flows (s : Machine) (call : BusCall) (code : ErrorCode) :
    s.Flows (s.refuse call code) [.refused s.engine.thisCoro call code] :=
  ⟨rfl, fun id => by
    simp [List.filterMap_cons, Event.sentTo, Event.receivedFrom, content, refuse]⟩

theorem Turned.flows {s next : Machine} {call : BusCall} (turned : s.Turned next call) :
    ∃ events, s.Flows next events ∧ events.length ≤ 1 ∧ ∀ event ∈ events, event.Whole := by
  cases turned with
  | gone found same =>
      rw [same]
      exact ⟨_, refuse_flows s call .noChannel, Nat.le_refl _, by simp [Event.Whole]⟩
  | wouldBlock id chan found there notReady trying same =>
      rw [same]
      exact ⟨_, refuse_flows s call .wouldBlock, Nat.le_refl _, by simp [Event.Whole]⟩
  | moved id chan moves =>
      obtain ⟨flows, whole⟩ := moves.flows
      exact ⟨_, flows, Nat.le_refl _, by simpa using whole⟩
  | blocked id chan c blocks =>
      exact ⟨[], flows_silent blocks.log (content_same blocks.there (by rfl) blocks.chans), Nat.zero_le _,
        List.forall_mem_nil _⟩

theorem Idles.flows {s next : Machine} (idles : s.Idles next) :
    ∃ events, s.Flows next events ∧ events.length ≤ 1 ∧ ∀ event ∈ events, event.Whole := by
  have content (id : ChanId) := content_chans idles.chans id
  rcases idles.log with log | ⟨who, target, ret, log⟩
  · exact ⟨[], flows_silent log content, Nat.zero_le _, List.forall_mem_nil _⟩
  · refine ⟨_, ⟨log, fun id => ?_⟩, Nat.le_refl _, by simp [Event.Whole]⟩
    simp [List.filterMap_cons, Event.sentTo, Event.receivedFrom, content id]

theorem step_flows {s next : Machine} (sound : s.Sound) {action : Action}
    (taken : s.step action = some next) :
    ∃ events, s.Flows next events ∧ events.length ≤ 1 ∧ ∀ event ∈ events, event.Whole := by
  cases step_stepped sound taken with
  | idles plain silent idles => exact idles.flows
  | adds plain adds =>
      exact ⟨[], flows_silent adds.log (content_chans adds.chans), Nat.zero_le _,
        List.forall_mem_nil _⟩
  | opens bus sizeLimit channels chan plain there limit opens =>
      refine ⟨_, ⟨opens.log, fun id => ?_⟩, Nat.le_refl _, by simp [Event.Whole]⟩
      have same : next.content id = s.content id := by
        rw [content_setChan chan opens.chans]
        split
        · next new =>
            rw [new, content, sound.fresh _ (Nat.le_refl _), opens.empty.2.2.2]
            rfl
        · rfl
      simp [List.filterMap_cons, Event.sentTo, Event.receivedFrom, same]
  | calls plain call made turned => exact turned.flows
  | shuts bus channel id chan woken c idle shuts =>
      exact ⟨[], flows_silent shuts.log (content_same shuts.there (by rfl) shuts.chans),
        Nat.zero_le _, List.forall_mem_nil _⟩
  | resumes here c ctx arrives goesOn =>
      have content (id : ChanId) : here.content id = s.content id := by
        rw [content, content, arrives.chans, Option.map_map]
        rfl
      have onward : ∃ events, here.Flows next events ∧ events.length ≤ 1 ∧
          ∀ event ∈ events, event.Whole := by
        cases goesOn with
        | inside outside idles => exact idles.flows
        | retries call id turned => exact turned.flows
        | deletes id chan deletes =>
            have same : here.Flows next [] := by
              rw [deletes.same]
              exact flows_silent rfl (content_same deletes.there (by rfl) rfl)
            exact ⟨[], same, Nat.zero_le _, List.forall_mem_nil _⟩
      obtain ⟨events, flows, single, whole⟩ := onward
      refine ⟨events, ⟨by rw [flows.1, arrives.log], fun id => ?_⟩, single, whole⟩
      rw [← content id]
      exact flows.2 id

theorem Flows.trans {s middle next : Machine} {events events' : List Event}
    (first : s.Flows middle events) (second : middle.Flows next events') :
    s.Flows next (events ++ events') := by
  refine ⟨by rw [second.1, first.1, List.append_assoc], fun id => ?_⟩
  rw [List.filterMap_append, List.filterMap_append, ← List.append_assoc, first.2,
    List.append_assoc, second.2, List.append_assoc]

theorem run_flows {s t : Machine} {actions : List Action} (sound : s.Sound)
    (run : Run.exec step s actions = some t) : ∃ events, s.Flows t events := by
  induction actions generalizing s with
  | nil =>
      cases run
      exact ⟨[], flows_silent rfl fun _ => rfl⟩
  | cons action rest ih =>
      obtain ⟨next, taken, run⟩ := (Run.exec_cons _ _ _ _).mp run
      obtain ⟨events, flows, -⟩ := step_flows sound taken
      obtain ⟨events', flows'⟩ := ih ((step_stepped sound taken).sound sound) run
      exact ⟨events ++ events', flows.trans flows'⟩

theorem within_setChan {s next : Machine} {id : ChanId} {chan : Channel} (within : s.Within)
    (small : chan.data.length ≤ chan.sizeLimit) (chans : next.chans = (s.setChan id chan).chans) :
    next.Within := by
  intro id' chan' there
  rw [chans, setChan_chans] at there
  split at there
  · cases there
    exact small
  · exact within id' chan' there

theorem within_chans {s next : Machine} (within : s.Within) (chans : next.chans = s.chans) :
    next.Within := by
  rw [Within, chans]
  exact within

theorem Turned.within {s next : Machine} {call : BusCall} (within : s.Within)
    (turned : s.Turned next call) : next.Within := by
  cases turned with
  | gone found same => exact within_chans within (by rw [same]; rfl)
  | wouldBlock id chan found there notReady trying same =>
      exact within_chans within (by rw [same]; rfl)
  | moved id chan moves =>
      obtain ⟨rest, -, chans⟩ := moves.queue
      have small := within id chan moves.there
      have ready := moves.ready
      refine within_setChan within ?_ chans
      obtain ⟨op, blocking, bus, channel⟩ := call
      cases op with
      | send data =>
          simp only [BusCall.side, BusOp.side, Channel.ready, decide_eq_true_eq] at ready
          simp only [transfer, Channel.setQueue, List.length_append, List.length_singleton]
          exact ready
      | recv =>
          simp only [transfer, Channel.setQueue, List.length_tail]
          omega
  | blocked id chan c blocks =>
      exact within_setChan within (by exact within id chan blocks.there) blocks.chans

theorem step_within {s next : Machine} (sound : s.Sound) (within : s.Within) {action : Action}
    (taken : s.step action = some next) : next.Within := by
  cases step_stepped sound taken with
  | idles plain silent idles => exact within_chans within idles.chans
  | adds plain adds => exact within_chans within adds.chans
  | opens bus sizeLimit channels chan plain there limit opens =>
      refine within_setChan within ?_ opens.chans
      rw [opens.empty.2.2.2]
      exact Nat.zero_le _
  | calls plain call made turned => exact turned.within within
  | shuts bus channel id chan woken c idle shuts =>
      exact within_setChan within (by exact within id chan shuts.there) shuts.chans
  | resumes here c ctx arrives goesOn =>
      have within' : here.Within := by
        intro id chan' there
        rw [arrives.chans, Option.map_eq_some_iff] at there
        obtain ⟨chan, there, rfl⟩ := there
        exact within id chan there
      cases goesOn with
      | inside outside idles => exact within_chans within' idles.chans
      | retries call id turned => exact turned.within within'
      | deletes id chan deletes =>
          rw [deletes.same]
          exact within_setChan within' (by exact within' id chan deletes.there) rfl

theorem pendingCall_eq {s : Machine} {c : CoroId} {calls : List BusCall} :
    s.pendingCall c = calls ↔ (∃ state call id, s.Waits c state call id ∧ calls = [call]) ∨
      (∀ state call id, ¬s.Waits c state call id) ∧ calls = [] := by
  unfold pendingCall Waits
  constructor
  · rintro rfl
    split
    · next state call id look => exact Or.inl ⟨state, call, id, look, rfl⟩
    · next other => exact Or.inr ⟨fun state call id look => other state call id look, rfl⟩
  · rintro (⟨state, call, id, look, rfl⟩ | ⟨other, rfl⟩)
    · rw [look]
    · split
      · next state call id look => exact absurd look (other state call id)
      · rfl

theorem pendingCall_quiet {s next : Machine} (quiet : s.engine.Quiet next.engine) (c : CoroId) :
    next.pendingCall c = s.pendingCall c := by
  rw [pendingCall_eq]
  rcases pendingCall_eq.mp (show s.pendingCall c = _ from rfl) with
    ⟨state, call, id, waits, same⟩ | ⟨other, same⟩
  · obtain ⟨state', waits', -⟩ := quiet.forth c state _ waits
    exact Or.inl ⟨state', call, id, waits', same⟩
  · refine Or.inr ⟨fun state call id waits => ?_, same⟩
    obtain ⟨state', waits'⟩ := quiet.back c state _ waits
    exact other state' call id waits'

theorem pendingCall_look {s next : Machine} {c : CoroId}
    (look : next.engine.look c = s.engine.look c) : next.pendingCall c = s.pendingCall c := by
  rw [pendingCall, pendingCall, look]

theorem pendingCall_outside {s : Machine} {c : CoroId} {state : CoroState} {ctx : Context Place}
    (look : s.engine.look c = some (state, ctx))
    (outside : ∀ call id, ctx ≠ .frame (.waiting call id)) : s.pendingCall c = [] := by
  rw [pendingCall_eq]
  refine Or.inr ⟨fun state' call id waits => ?_, rfl⟩
  rw [Waits, look] at waits
  cases waits
  exact outside call id rfl

theorem returned_log {s next : Machine} {events : List Event} (log : next.log = s.log ++ events)
    (c : CoroId) : next.returned c = s.returned c ++ events.filterMap (Event.returnOf c) := by
  rw [returned, returned, log, List.filterMap_append]

-- The coroutine that turns the loop returns from the call or is suspended in it.
theorem Turned.returns {s next : Machine} {call : BusCall} (sound : s.Sound)
    (turned : s.Turned next call) (c : CoroId) :
    next.returned c ++ next.pendingCall c = s.returned c ++ s.pendingCall c ++
      (if s.engine.thisCoro = some (.coro c) then [call] else []) := by
  have idle (current : s.engine.thisCoro = some (.coro c)) : s.pendingCall c = [] :=
    pendingCall_outside (sound.engine.currentLook current) (by simp)
  -- One event of the coroutine that has control, and nobody else is suspended or resumed.
  have returns {event : Event} (log : next.log = s.log ++ [event])
      (made : event.returnOf c = if s.engine.thisCoro = some (.coro c) then some call else none)
      (pending : next.pendingCall c = s.pendingCall c) :
      next.returned c ++ next.pendingCall c = s.returned c ++ s.pendingCall c ++
        (if s.engine.thisCoro = some (.coro c) then [call] else []) := by
    rw [returned_log log, pending]
    by_cases current : s.engine.thisCoro = some (.coro c)
    · rw [if_pos current] at made
      simp [made, current, idle current]
    · rw [if_neg current] at made
      simp [made, current]
  cases turned with
  | gone found same =>
      rw [same] at returns ⊢
      exact returns rfl rfl rfl
  | wouldBlock id chan found there notReady trying same =>
      rw [same] at returns ⊢
      exact returns rfl rfl rfl
  | moved id chan moves =>
      refine returns moves.log ?_ (pendingCall_quiet moves.quiet c)
      unfold transfer
      cases call.op <;> rfl
  | blocked id chan d blocks =>
      have log : next.returned c = s.returned c := by
        rw [returned, blocks.log]
        rfl
      rw [log]
      by_cases same : c = d
      · subst same
        have pending : next.pendingCall c = [call] :=
          pendingCall_eq.mpr (Or.inl ⟨.suspended, call, id, blocks.leaves.changes.here, rfl⟩)
        rw [pending, idle blocks.leaves.current, if_pos blocks.leaves.current, List.append_nil]
      · rw [pendingCall_look (blocks.leaves.changes.others c same), if_neg, List.append_nil]
        intro current
        rw [blocks.leaves.current] at current
        cases current
        exact same rfl

theorem Idles.returns {s next : Machine} (idles : s.Idles next) (c : CoroId) :
    next.returned c ++ next.pendingCall c = s.returned c ++ s.pendingCall c := by
  rw [pendingCall_quiet idles.quiet]
  rcases idles.log with log | ⟨who, target, ret, log⟩
  · rw [returned, log]
    rfl
  · rw [returned_log log]
    simp [List.filterMap_cons, Event.returnOf]

theorem step_returns {s next : Machine} (sound : s.Sound) {action : Action}
    (taken : s.step action = some next) (c : CoroId) :
    next.returned c ++ next.pendingCall c = s.returned c ++ s.pendingCall c ++
      (if s.engine.thisCoro = some (.coro c) then action.busCall.toList else []) := by
  have silently (silent : action.busCall = none) (same : next.returned c ++ next.pendingCall c =
      s.returned c ++ s.pendingCall c) : next.returned c ++ next.pendingCall c =
        s.returned c ++ s.pendingCall c ++
          (if s.engine.thisCoro = some (.coro c) then action.busCall.toList else []) := by
    simp [silent, same]
  cases step_stepped sound taken with
  | idles plain silent idles => exact silently silent (idles.returns c)
  | adds plain adds =>
      apply silently rfl
      rw [returned, adds.log, pendingCall, adds.engine]
      rfl
  | opens bus sizeLimit channels chan plain there limit opens =>
      apply silently rfl
      rw [returned_log opens.log, pendingCall, opens.engine]
      simp [List.filterMap_cons, Event.returnOf, pendingCall]
  | calls plain call made turned =>
      rw [made]
      exact turned.returns sound c
  | shuts bus channel id chan woken d idle shuts =>
      apply silently rfl
      rw [returned, shuts.log]
      congr 1
      by_cases same : c = d
      · subst same
        have before := @pendingCall_quiet s { s with engine := woken } shuts.quiet c
        rw [← before, pendingCall_outside shuts.leaves.changes.here (by simp),
          pendingCall_outside (shuts.wokenValid.currentLook shuts.leaves.current) (by simp)]
      · have left := @pendingCall_look { s with engine := woken } next c
          (shuts.leaves.changes.others c same)
        exact left.trans (pendingCall_quiet shuts.quiet c)
  | resumes here d ctx arrives goesOn =>
      apply silently rfl
      have log : here.returned c = s.returned c := by
        rw [returned, arrives.log]
        rfl
      have landed : here.pendingCall c = if c = d then [] else s.pendingCall c := by
        split
        · next same =>
            rw [same]
            exact pendingCall_outside arrives.lands.changes.here (by simp)
        · next other => exact pendingCall_look (arrives.lands.changes.others c other)
      cases goesOn with
      | inside outside idles =>
          rw [idles.returns, log, landed]
          split
          · next same =>
              rw [same, pendingCall_outside arrives.lands.before fun call id => outside _]
          · rfl
      | retries call id turned =>
          rw [turned.returns (arrives.sound sound), log, landed, arrives.lands.thisCoro]
          by_cases same : c = d
          · have before : s.pendingCall d = [call] :=
              pendingCall_eq.mpr (Or.inl ⟨.running, call, id, arrives.lands.before, rfl⟩)
            simp [same, before]
          · simp [same, Ne.symm same]
      | deletes id chan deletes =>
          have engine : next.pendingCall c = here.pendingCall c := by
            rw [deletes.same]
            rfl
          have events : next.returned c = here.returned c := by
            rw [deletes.same]
            rfl
          rw [engine, events, log, landed]
          split
          · next same =>
              rw [same, pendingCall_outside arrives.lands.before (by simp)]
          · rfl

theorem madeBy_returns {s last : Machine} (sound : s.Sound) {actions : List Action}
    (run : Run.exec step s actions = some last) (c : CoroId) :
    last.returned c ++ last.pendingCall c =
      s.returned c ++ s.pendingCall c ++ madeBy c s actions := by
  induction actions generalizing s with
  | nil =>
      cases run
      simp [madeBy]
  | cons action rest ih =>
      obtain ⟨next, taken, finished⟩ := (Run.exec_cons _ _ _ _).mp run
      rw [ih ((step_stepped sound taken).sound sound) finished, step_returns sound taken c]
      simp [madeBy, taken]

structure Ordered (s : Machine) : Prop where
  sound : s.Sound
  within : s.Within
  order : ∀ id, s.sent id = s.received id ++ s.content id
  whole : ∀ event ∈ s.log, event.Whole

theorem Ordered.step {s next : Machine} (ordered : s.Ordered) {action : Action}
    (taken : s.step action = some next) : next.Ordered := by
  obtain ⟨events, ⟨log, flow⟩, -, whole⟩ := step_flows ordered.sound taken
  refine ⟨(step_stepped ordered.sound taken).sound ordered.sound,
    step_within ordered.sound ordered.within taken, fun id => ?_, fun event mem => ?_⟩
  · calc next.sent id = s.sent id ++ events.filterMap (Event.sentTo id) := by
          rw [sent, sent, log, List.filterMap_append]
      _ = s.received id ++ (s.content id ++ events.filterMap (Event.sentTo id)) := by
          rw [ordered.order id, List.append_assoc]
      _ = s.received id ++ events.filterMap (Event.receivedFrom id) ++ next.content id := by
          rw [flow id, List.append_assoc]
      _ = next.received id ++ next.content id := by
          rw [received, received, log, List.filterMap_append]
  · rw [log, List.mem_append] at mem
    exact mem.elim (ordered.whole event) (whole event)

theorem reaches_ordered {s : Machine} (reached : Run.Reaches step init s) : s.Ordered := by
  refine reached.invariant (fun s action next before taken => before.step taken) ?_
  exact ⟨init_sound, nofun, fun _ => rfl, List.forall_mem_nil _⟩

theorem messages_in_order {actions : List Action} {s : Machine}
    (run : Run.exec step init actions = some s) :
    (∀ id chan, s.chans id = some chan →
      s.sent id = s.received id ++ chan.data ∧ chan.data.length ≤ chan.sizeLimit) ∧
    (∀ c, madeBy c init actions = s.returned c ++ s.pendingCall c) ∧
    (∀ event ∈ s.log, event.Whole) ∧
    ∀ action next, s.step action = some next →
      ∃ events, next.log = s.log ++ events ∧ events.length ≤ 1 ∧
        ∀ who call code, .refused who call code ∈ events → ∀ id, next.content id = s.content id := by
  have ordered := reaches_ordered ⟨actions, run⟩
  refine ⟨fun id chan there => ⟨?_, ordered.within id chan there⟩, fun c => ?_, ordered.whole, ?_⟩
  · rw [ordered.order id, content, there]
    rfl
  · have made := madeBy_returns init_sound run c
    rw [made]
    rfl
  · intro action next taken
    obtain ⟨events, ⟨log, flow⟩, single, -⟩ := step_flows ordered.sound taken
    refine ⟨events, log, single, fun who call code mem id => ?_⟩
    obtain ⟨event, rfl⟩ := List.length_eq_one_iff.mp
      (Nat.le_antisymm single (List.length_pos_of_mem mem))
    obtain rfl := List.mem_singleton.mp mem
    have same := flow id
    simpa [List.filterMap_cons, Event.sentTo, Event.receivedFrom] using same.symm

def spuriousRun : List Action :=
  [.busNew, .open_ (some 0) 2, .new, .new, .run, .resume, .recv (some 0) 0, .resume, .wakeup 0,
    .yield, .resume, .resume, .resume, .send (some 0) 0 3, .send (some 0) 0 5, .yield, .resume,
    .resume]

theorem messages_in_order_spurious :
    ∃ s, Run.exec step init spuriousRun = some s ∧ s.received 0 = [3] ∧ s.content 0 = [5] ∧
      s.sent 0 = [3, 5] ∧ madeBy 0 init spuriousRun = s.returned 0 ++ s.pendingCall 0 := by
  have run := (Option.some_get (show (Run.exec step init spuriousRun).isSome by decide)).symm
  obtain ⟨order, made, -⟩ := messages_in_order run
  exact ⟨_, run, rfl, rfl, rfl, made 0⟩

end Machine

end SystemProg.Coroutine
